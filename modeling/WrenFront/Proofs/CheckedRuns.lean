import WrenFront.Diagnostic
import WrenFront.Proofs.CheckedPrinting
import WrenFront.Proofs.LineLookup

/-! Parsing and telling a user what is wrong, with their checks on. The parser takes its tokens from
a lexer that checks, and a diagnostic compares every offset and every line with the source. No check
is failed, whatever the source holds. -/

namespace WrenFront

open Checked

/-- A lexer that checks what it does, and the check that it failed. -/
structure GuardedLexer where
  lexer : Lexer
  trap : Option Trap := none

instance : Feed GuardedLexer Token where
  next guarded :=
    match guarded.lexer.readChecked with
    | .ok (token, lexer) => (token, { guarded with lexer })
    | .error trap => (guarded.lexer.source.endToken, { guarded with trap := some trap })
  kind := Token.kind
  unread guarded := guarded.lexer.rest.length

def Source.parseChecked (source : Source) : Checked Parsed :=
  let start : GuardedLexer := { lexer := Lexer.ofSource source }
  let (module, state) := Parse.module (ParserState.ofFeed start)
  match state.feed.trap with
  | some trap => .error trap
  | none =>
    .ok { source, module, problems := state.problems, lexicalErrors := state.feed.lexer.errors }

def Source.columnChecked (source : Source) (offset : Nat) : Checked Nat := do
  let line ← ofRange (source.lineAt offset)
  let start ← ofRange (source.lineStart line)
  return (← difference offset start) + 1

def Diagnostic.locateChecked (source : Source) (severity : Severity) (stage : Stage)
    (message : String) (span : Span) : Checked Diagnostic := do
  let line ← ofRange (source.lineAt span.start)
  let column ← source.columnChecked span.start
  return { severity, stage, message, path := source.id, line, column, span,
           attached := source.text }

def Diagnostic.ofProblemChecked (source : Source) (problem : Problem Token) : Checked Diagnostic :=
  locateChecked source .error .grammar problem.message problem.token.span

def Diagnostic.ofLexicalErrorChecked (source : Source) (strict : Bool) (error : LexicalError) :
    Checked Diagnostic :=
  locateChecked source (lexicalSeverity strict) .lexical error.message error.span

def Parsed.diagnosticsChecked (parsed : Parsed) (strict : Bool) : Checked (List Diagnostic) := do
  let problems ← parsed.problems.mapM (Diagnostic.ofProblemChecked parsed.source)
  let errors ← parsed.lexicalErrors.mapM (Diagnostic.ofLexicalErrorChecked parsed.source strict)
  return problems ++ errors

/-- A module is read from its feed up to an end token. -/
theorem Parse.module_ends {σ τ : Type} [Feed σ τ] {feed : σ}
    (roomy : ParserState.Roomy { feed, rounds := Feed.unread feed + 2 : ParserState σ τ }) :
    ∃ tokens, Feed.Reads feed tokens (Parse.module (ParserState.ofFeed feed)).2.feed ∧
      ∃ token ∈ tokens, Feed.kind σ token = .eof := by
  have start := ParserState.ofFeed_takes feed
  obtain ⟨tokens, takes, ended, unread⟩ := Parse.module_takes (start.roomy roomy)
  obtain ⟨read, reads, same⟩ := (start.trans takes).reads
  have all : read = tokens := by simpa [unread] using same
  exact ⟨read, reads, all ▸ ended⟩

/-- The checking lexer of a source after that many reads, if no check has been failed. -/
def Source.guardedAfter (source : Source) (reads : Nat) : GuardedLexer where
  lexer := source.lexerAfter reads

section Guarded
variable {source : Source} (short : source.length < UInt32.size)
include short

theorem Source.guardedAfter_next (reads : Nat) :
    Feed.next (source.guardedAfter reads) =
      (source.token reads, source.guardedAfter (reads + 1)) := by
  have checked := Lexer.readChecked_eq (source.lexerAfter_counting short reads)
  simp only [Feed.next, guardedAfter, checked, lexerAfter_succ]
  rfl

/-- What the checking lexer gives, the lexer gives, and no check has been failed after it. -/
theorem Feed.Reads.unguarded {reads : Nat} {tokens : List Token} {last : GuardedLexer}
    (given : Reads (source.guardedAfter reads) tokens last) :
    Reads (source.lexerAfter reads) tokens last.lexer ∧ last.trap = Option.none := by
  generalize start : source.guardedAfter reads = guarded at given
  induction given generalizing reads with
  | none =>
    subst start
    exact ⟨.none, rfl⟩
  | more _ ih =>
    subst start
    rw [source.guardedAfter_next short reads] at ih ⊢
    obtain ⟨rest, passed⟩ := ih rfl
    rw [Source.lexerAfter_succ] at rest
    exact ⟨.more rest, passed⟩

theorem Source.guarded_roomy : ParserState.Roomy
    { feed := source.guardedAfter 0, rounds := Feed.unread (source.guardedAfter 0) + 2 } :=
  ParserState.unread_roomy fun _ _ given => (given.unguarded short).1.lexer_left

theorem GuardedLexer.alike : ParserState.Mirrors id (ParserState.ofFeed (source.lexerAfter 0))
    (ParserState.ofFeed (source.guardedAfter 0)) := by
  have feeds : Feed.Mirrors id (source.lexerAfter 0) (source.guardedAfter 0) :=
    Feed.Mirrors.of_sequence (fun reads => (source.lexerAfter_succ reads).symm)
      (fun reads => congrArg Prod.snd (source.guardedAfter_next short reads))
      (fun reads => congrArg Prod.fst (source.guardedAfter_next short reads)) 0
  exact ParserState.ofFeed_alike (fun _ => rfl) feeds source.lexer_roomy
    (source.guarded_roomy short)

theorem Source.parseChecked_eq : source.parseChecked = .ok source.parse := by
  obtain ⟨same, after⟩ := Parse.module_agrees _ _ (GuardedLexer.alike short)
  obtain ⟨tokens, given, ended⟩ := Parse.module_ends (source.guarded_roomy short)
  obtain ⟨reads, passed⟩ := given.unguarded short
  have start : ({ lexer := Lexer.ofSource source } : GuardedLexer) = source.guardedAfter 0 := rfl
  simp only [parseChecked, start]
  generalize Parse.module (ParserState.ofFeed (source.guardedAfter 0)) = guarded at *
  obtain ⟨module, state⟩ := guarded
  have module_eq : module = source.parse.module := same.trans (Module.mapTokens_id _)
  have problems_eq : state.problems = source.parse.problems :=
    after.problems.trans (Problem.mapTokens_id _)
  -- Both lexers have been read to the end.
  have errors_eq : state.feed.lexer.errors = source.parse.lexicalErrors := by
    rw [parse_lexicalErrors]
    exact congrArg Lexer.errors (reads.all ended).1
  simp only at passed
  simp only [passed, module_eq, problems_eq, errors_eq, Source.parse]

end Guarded

section Diagnostics
variable {source : Source}

theorem Source.columnChecked_eq {offset : Nat} (inside : offset ≤ source.length) :
    source.columnChecked offset = .ok (source.column offset) := by
  have line : source.lineStart (source.line offset) = .ok _ :=
    if_pos ⟨source.line_pos offset, source.line_le offset⟩
  rw [columnChecked, ofRange_ok (source.lineAt_eq inside)]
  simp only [bind, Except.bind, ofRange_ok line, difference_ok (source.startOfLine_le offset)]
  rfl

theorem Diagnostic.locateChecked_eq (severity : Severity) (stage : Stage) (message : String)
    {span : Span} (inside : span.stop ≤ source.length) :
    locateChecked source severity stage message span =
      .ok (locate source severity stage message span) := by
  have before : span.start ≤ source.length := Nat.le_trans (Nat.le_add_right _ _) inside
  rw [locateChecked, ofRange_ok (source.lineAt_eq before), Source.columnChecked_eq before]
  rfl

theorem Source.problem_inside {problem : Problem Token} (found : problem ∈ source.parse.problems) :
    problem.token.stop ≤ source.length := by
  obtain ⟨reads, same⟩ := source.problem_token found
  rw [same]
  exact source.token_inside reads

theorem Source.lexicalError_inside {error : LexicalError}
    (found : error ∈ source.parse.lexicalErrors) : error.span.stop ≤ source.length :=
  (source.lexicalError_erroneous error found).inside

theorem Parsed.diagnosticsChecked_eq {parsed : Parsed} (strict : Bool)
    (problems : ∀ problem ∈ parsed.problems, problem.token.stop ≤ parsed.source.length)
    (errors : ∀ error ∈ parsed.lexicalErrors, error.span.stop ≤ parsed.source.length) :
    parsed.diagnosticsChecked strict = .ok (parsed.diagnostics strict) := by
  have grammar : ∀ problem ∈ parsed.problems, Diagnostic.ofProblemChecked parsed.source problem =
      .ok (Diagnostic.ofProblem parsed.source problem) :=
    fun problem found => Diagnostic.locateChecked_eq _ _ _ (problems problem found)
  have lexical : ∀ error ∈ parsed.lexicalErrors,
      Diagnostic.ofLexicalErrorChecked parsed.source strict error =
        .ok (Diagnostic.ofLexicalError parsed.source strict error) :=
    fun error found => Diagnostic.locateChecked_eq _ _ _ (errors error found)
  rw [diagnosticsChecked, Checked.mapM_eq grammar, Checked.mapM_eq lexical]
  rfl

end Diagnostics

/-- The rule leaves the parser at the level where it found it. -/
def Parse.Level {σ τ α : Type} (rule : Parse σ τ α) : Prop :=
  ∀ state, (rule.run state).2.depth = state.depth

theorem Parse.level {σ τ α : Type} [Feed σ τ] (rule : Parse σ τ α) [Steps rule] : rule.Level := by
  intro state
  obtain ⟨tokens, takes⟩ := takes rule state
  exact takes.depth

/-- No check is ever failed on a source of less than 2^32 bytes, valid or not: not by any number of
reads, not by the parser, and not by printing the tree or telling what is wrong. All that is found
wrong lies inside the source. Every rule that is run one level further in comes back to that level,
so there is a level to leave when it is done. -/
theorem Source.checks_passed (source : Source) (short : source.length < UInt32.size) :
    (∀ reads, source.readChecked reads = .ok (source.history reads, source.lexerAfter reads)) ∧
      source.parseChecked = .ok source.parse ∧
      source.parse.module.dumpChecked source = .ok (source.parse.module.dump source) ∧
      (∀ strict, source.parse.diagnosticsChecked strict = .ok (source.parse.diagnostics strict)) ∧
      (∀ problem ∈ source.parse.problems, problem.token.stop ≤ source.length) ∧
      (∀ error ∈ source.parse.lexicalErrors, error.span.stop ≤ source.length) ∧
      ∀ levels, let nested : Nested Lexer Token := Nested.within levels
        (Parse.assignment nested).Level ∧ (Parse.conditional nested).Level ∧
          (Parse.operand nested).Level ∧ (Parse.statement nested).Level ∧
          ∀ foreign keyword, (Parse.classTail nested foreign keyword).Level := by
  refine ⟨source.readChecked_eq short, parseChecked_eq short, source.dumpChecked_eq,
    fun strict => Parsed.diagnosticsChecked_eq strict ?_ ?_, fun _ => problem_inside,
    fun _ => lexicalError_inside, fun levels => ?_⟩
  · exact fun _ => problem_inside
  · exact fun _ => lexicalError_inside
  · exact ⟨Parse.level _, Parse.level _, Parse.level _, Parse.level _,
      fun _ _ => Parse.level _⟩

/-- An interpolation with one more parenthesis, a byte that begins no token, and a comment that is
not closed and ends inside a character: `"%((`, 255, `/*`, 195. -/
def cutOff : Source where
  id := "cut off"
  bytes := [34, 37, 40, 40, 255, 47, 42, 195]

theorem cutOff_checks : cutOff.length < UInt32.size ∧ cutOff.parse.problems ≠ [] ∧
    cutOff.parse.lexicalErrors.length = 2 ∧ (cutOff.openings 2) = [2] ∧
    cutOff.readChecked 9 = .ok (cutOff.history 9, cutOff.lexerAfter 9) ∧
    cutOff.parseChecked = .ok cutOff.parse ∧
    cutOff.parse.diagnosticsChecked true = .ok (cutOff.parse.diagnostics true) := by
  have short : cutOff.length < UInt32.size := by decide
  obtain ⟨reads, parse, -, diagnostics, -⟩ := cutOff.checks_passed short
  exact ⟨short, by decide +kernel, by decide +kernel, by decide +kernel, reads 9, parse,
    diagnostics true⟩

end WrenFront
