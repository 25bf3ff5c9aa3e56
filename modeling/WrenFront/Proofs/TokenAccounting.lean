import WrenFront.Proofs.LexerStream

/-! Every token of a source is taken, once and in order, whatever is wrong with the source. Reading
the tokens on demand therefore comes to the same as reading them all first. -/

namespace WrenFront

namespace Parse
open ParserState
variable {σ τ : Type} [Feed σ τ]

/-- A round over the statements of a module ends the loop only when it sees the end. -/
theorem moduleRound_ends (nested : Nested σ τ) (state : ParserState σ τ)
    (ends : ∀ value, (moduleRound nested state).1 ≠ .more value) :
    Feed.kind σ (lookahead (moduleRound nested state).2).1 = .eof := by
  unfold moduleRound at ends ⊢
  rw [peeked_apply] at ends ⊢
  by_cases atEnd : Feed.kind σ (lookahead state).1 = .eof
  · rw [if_pos atEnd, pure_apply, lookahead_again]
    exact atEnd
  · rw [if_neg atEnd, bind_apply, peeked_apply] at ends ⊢
    by_cases after : Feed.kind σ (lookahead (definition nested (lookahead state).2).2).1 = .eof
    · rw [if_pos after, pure_apply, lookahead_again]
      exact after
    · rw [if_neg after] at ends
      exact absurd rfl (ends _)

/-- A module is read up to an end token. -/
theorem module_takes {state : ParserState σ τ} (roomy : state.Roomy) :
    ∃ tokens, state.Takes tokens (module state).2 ∧ (∃ token ∈ tokens, Feed.kind σ token = .eof) ∧
      (module state).2.current = none := by
  let nested : Nested σ τ := Nested.within (Nested.limit - state.depth)
  let final := (loop (moduleRound nested) (skipNewlines state).2).2
  obtain ⟨lines, skips⟩ := takes skipNewlines state
  obtain ⟨tokens, loops⟩ := takes (loop (moduleRound nested)) (skipNewlines state).2
  have atEnd : Feed.kind σ (lookahead final).1 = .eof :=
    loop_ends (fun state => Feed.kind σ (lookahead state).1 = .eof) (moduleRound_ends nested)
      (skips.roomy roomy)
  have ends := expect_takes .eof "end of input" final
  refine ⟨_, (skips.trans loops).trans ends, ⟨_, by simp, atEnd⟩, ?_⟩
  change (expect .eof "end of input" final).2.current = none
  rw [expect_apply, if_pos atEnd]
  rfl

/-- The next token is an end token if only end tokens are left. -/
theorem lookahead_finished {state : ParserState σ τ} (left : state.Left 0) :
    Feed.kind σ (lookahead state).1 = .eof := by
  obtain ⟨read, reads, same⟩ := (advance_takes state).reads
  apply left read _ reads
  rw [same]
  exact List.mem_cons_self

theorem newlines_finished {state : ParserState σ τ} (left : state.Left 0)
    (rounds : 0 < state.rounds) : skipNewlines state = (⟨⟩, (lookahead state).2) := by
  have atEnd := lookahead_finished left
  have round : newlineRound state = (.stop, (lookahead state).2) := by
    have other : Feed.kind σ (lookahead state).1 ≠ .line := by simp [atEnd]
    simp only [newlineRound, bind_apply, accept?_apply, if_neg other, pure_apply]
  have loops : loop newlineRound state = _ := loop_apply ⟨0, rounds, left⟩
  simp only [round] at loops
  simp only [skipNewlines, newlines, bind_apply, loops, pure_apply]

/-- Nothing is found where only end tokens are left, and nothing is wrong with that. -/
theorem module_finished {state : ParserState σ τ} (left : state.Left 0)
    (rounds : 0 < state.rounds) :
    (module state).1 = ⟨[]⟩ ∧ (module state).2.problems = state.problems := by
  let nested : Nested σ τ := Nested.within (Nested.limit - state.depth)
  have atEnd := lookahead_finished left
  have looks := (lookahead_takes state).1
  have round : moduleRound nested (lookahead state).2 = (.stop, (lookahead state).2) := by
    rw [moduleRound, peeked_apply, lookahead_again, if_pos atEnd, pure_apply]
  have loops : loop (moduleRound nested) (lookahead state).2 = _ :=
    loop_apply (looks.roomy ⟨0, rounds, left⟩)
  simp only [round] at loops
  have expects : expect .eof "end of input" (lookahead state).2 = advance state := by
    rw [expect_apply, lookahead_again, if_pos atEnd, advance_after_lookahead]
  simp only [module, bind_apply, get_apply, newlines_finished left rounds, pure_apply]
  change (⟨(loop (moduleRound nested) (lookahead state).2).1⟩ : Module τ) = _ ∧
    (expect .eof "end of input" (loop (moduleRound nested) (lookahead state).2).2).2.problems = _
  rw [loops, expects]
  exact ⟨rfl, advance_problems state⟩

end Parse

namespace Parser
open ParserState

theorem module_eq (parser : Parser) : parser.module = Parse.module parser := rfl

/-- A parser that has come to the end, and has taken the end token. -/
structure Finished (parser : Parser) : Prop where
  exhausted : parser.feed.rest = []
  left : parser.Left 0
  rounds : 0 < parser.rounds

/-- A parser that is called again has nothing more to say. -/
theorem Finished.module {parser : Parser} (finished : parser.Finished) :
    parser.module.2.Finished ∧ parser.module.1 = ⟨[]⟩ ∧
      parser.module.2.problems = parser.problems ∧
      parser.module.2.lexicalErrors = parser.lexicalErrors := by
  obtain ⟨empty, problems⟩ := Parse.module_finished finished.left finished.rounds
  obtain ⟨tokens, takes⟩ := Parse.takes Parse.module parser
  obtain ⟨read, reads, -⟩ := takes.reads
  have same : parser.module.2.feed = parser.feed := (reads.exhausted finished.exhausted).1
  have left : parser.module.2.Left 0 := (takes.left finished.left).mono (by omega)
  have rounds : parser.module.2.rounds = parser.rounds := takes.rounds
  refine ⟨⟨same ▸ finished.exhausted, left, rounds ▸ finished.rounds⟩, empty, problems, ?_⟩
  rw [lexicalErrors, lexicalErrors, same]

/-- All that a first call takes, and where it ends. -/
theorem module_accounts (lexer : Lexer) :
    (ofLexer lexer).module.2.feed = lexer.readAll.2 ∧
      (∃ copies, (ofLexer lexer).module.2.taken.reverse =
        lexer.readAll.1 ++ List.replicate copies lexer.source.endToken) ∧
      (ofLexer lexer).module.2.depth = 0 ∧ (ofLexer lexer).module.2.Finished := by
  have start := ofFeed_takes lexer
  obtain ⟨tokens, takes, ended, unread⟩ := Parse.module_takes (ofLexer_roomy lexer)
  rw [← ofLexer, ← module_eq] at takes unread
  have total : Takes _ tokens _ := start.trans takes
  obtain ⟨read, reads, same⟩ := total.reads
  have all : read = tokens := by simpa [unread] using same
  subst all
  obtain ⟨last, copies, listed⟩ := reads.all ended
  obtain ⟨before, -, -, exhausted⟩ := lexer.readAll_ends
  rw [← last] at exhausted
  refine ⟨last, ⟨copies, ?_⟩, total.depth, exhausted, ?_, ?_⟩
  · rw [total.taken, List.append_nil, List.reverse_reverse, listed]
  · intro more final readsMore token member
    have copies := (readsMore.exhausted exhausted).2
    rw [unread, List.drop_zero, Option.toList_none, List.nil_append, copies] at member
    rw [List.eq_of_mem_replicate member]
    rfl
  · rw [total.rounds]
    exact Nat.succ_pos _

/-- The parser after that many further calls. -/
def afterCalls (parser : Parser) : Nat → Parser
  | 0 => parser
  | calls + 1 => (parser.afterCalls calls).module.2

theorem Finished.afterCalls {parser : Parser} (finished : parser.Finished) (calls : Nat) :
    (parser.afterCalls calls).Finished ∧ (parser.afterCalls calls).problems = parser.problems ∧
      (parser.afterCalls calls).lexicalErrors = parser.lexicalErrors := by
  induction calls with
  | zero => exact ⟨finished, rfl, rfl⟩
  | succ calls ih =>
    obtain ⟨before, problems, errors⟩ := ih
    obtain ⟨after, -, sameProblems, sameErrors⟩ := before.module
    exact ⟨after, sameProblems.trans problems, sameErrors.trans errors⟩

end Parser

/-- Whatever errors a source has, its tokens are taken exactly once and in order, with copies of the
end token after them at most. So the parse is that of the tokens read in advance. It ends outside
every nested construct and at the end of the source, with all its lexical errors, and calling the
parser again adds nothing. -/
theorem Source.parse_accounts (source : Source) :
    let parser := Parser.ofLexer (Lexer.ofSource source)
    let final := parser.module.2
    let fed := Parse.module (ParserState.ofFeed source.reel)
    (∃ copies, final.taken.reverse = source.tokens ++ List.replicate copies source.endToken) ∧
      source.tokens.getLast? = some source.endToken ∧
      source.parse.module = fed.1 ∧ source.parse.problems = fed.2.problems ∧
      final.depth = 0 ∧ final.feed.rest = [] ∧
      source.parse.lexicalErrors = (Lexer.ofSource source).readAll.2.errors ∧
      ∀ calls, (final.afterCalls calls).module.1 = ⟨[]⟩ ∧
        (final.afterCalls calls).module.2.problems = final.problems ∧
        (final.afterCalls calls).module.2.lexicalErrors = final.lexicalErrors := by
  intro parser final fed
  obtain ⟨feed, taken, depth, finished⟩ := Parser.module_accounts (Lexer.ofSource source)
  obtain ⟨before, ends, -, -⟩ := (Lexer.ofSource source).readAll_ends
  obtain ⟨module, problems⟩ := source.parse_reel
  refine ⟨taken, ?_, module, problems, depth, finished.exhausted, ?_, fun calls => ?_⟩
  · rw [Source.tokens, ends, List.getLast?_concat]
    rfl
  · exact congrArg Lexer.errors feed
  · obtain ⟨before, problems, errors⟩ := finished.afterCalls calls
    obtain ⟨-, empty, sameProblems, sameErrors⟩ := before.module
    exact ⟨empty, sameProblems.trans problems, sameErrors.trans errors⟩

end WrenFront
