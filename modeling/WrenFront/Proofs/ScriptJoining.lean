import WrenFront.Proofs.GrammarCompleteness
import WrenFront.Proofs.GrammarGrafting
import WrenFront.Proofs.GrammarSoundness
import WrenFront.Proofs.TokenAccounting

/-! A clean script does not mind what comes after it, and what comes after it does not mind the
script. Once the parser has read the last definition of the script and the newlines after it, nothing
is left of the script but the statements: the rest is parsed from there on as it is alone. -/

namespace WrenFront
open Grammar

namespace Grammar

theorem Newlines.trans {input middle rest : List Token} (lines : Newlines input middle)
    (others : Newlines middle rest) : Newlines input rest := by
  induction lines with
  | none => exact others
  | more line _ ih => exact .more line (ih others)

theorem Lines.trans {input middle rest : List Token} (lines : Lines input middle)
    (others : Newlines middle rest) : Lines input rest := by
  obtain ⟨newline, after, rfl, line, first⟩ := lines
  exact ⟨newline, after, rfl, line, first.trans others⟩

theorem Lines.newlines {input rest : List Token} (lines : Lines input rest) :
    Newlines input rest := by
  obtain ⟨newline, after, rfl, line, others⟩ := lines
  exact .more line others

/-- All the newlines in front. -/
theorem Newlines.all (input : List Token) :
    ∃ rest, Newlines input rest ∧ Grammar.front rest ≠ .line := by
  induction input with
  | nil => exact ⟨[], .none, nofun⟩
  | cons token input ih =>
    by_cases line : token.kind = .line
    · obtain ⟨rest, lines, stops⟩ := ih
      exact ⟨rest, .more line lines, stops⟩
    · exact ⟨token :: input, .none, line⟩

theorem front_shift (amount : Nat) (input : List Token) :
    Grammar.front (input.map (·.shift amount)) = Grammar.front input := by
  cases input <;> rfl

theorem Newlines.shift (amount : Nat) {input rest : List Token} :
    Newlines input rest → Newlines (input.map (·.shift amount)) (rest.map (·.shift amount))
  | .none => .none
  | .more line others => .more line (others.shift amount)

theorem Definitions.front {levels : Nat} {input rest : List Token} {statement : Stmt Token}
    {statements : List (Stmt Token)}
    (items : Definitions levels input rest (statement :: statements)) :
    Grammar.front input ∈ definitionFronts := by
  cases items with
  | last value => exact value.front
  | more value => exact value.front

end Grammar

/-- A reel keeps the token that it goes on with. -/
theorem Feed.Reads.reel_last {reel last : Reel} {tokens : List Token}
    (reads : Reads reel tokens last) : last.last = reel.last := by
  induction reads with
  | none => rfl
  | @more reel last tokens rest ih =>
    obtain ⟨list, final⟩ := reel
    cases list <;> exact ih

/-- A reel of images gives the images of what the reel gives. -/
theorem Feed.Reads.reel_map (f : Token → Token) {reel last : Reel} {tokens : List Token}
    (reads : Reads reel tokens last) :
    Reads (⟨reel.tokens.map f, f reel.last⟩ : Reel) (tokens.map f)
      ⟨last.tokens.map f, f last.last⟩ := by
  induction reads with
  | none => exact .none
  | @more reel last tokens rest ih =>
    obtain ⟨list, final⟩ := reel
    cases list with
    | nil => exact .more ih
    | cons token list => exact .more ih

namespace ParserState

theorem Takes.reel_last {state final : ParserState Reel Token} {tokens : List Token}
    (takes : state.Takes tokens final) : final.feed.last = state.feed.last := by
  obtain ⟨read, reads, -⟩ := takes.reads
  exact reads.reel_last

/-- A parser outside all nested constructs that has found no problem yet. Of the tokens of the
source, `input` is still before it. -/
structure Begins (source : Source) (input : List Token) (state : ParserState Reel Token) :
    Prop where
  fed : state.Fed
  ahead : state.ahead = input
  last : state.feed.last = source.endToken
  problems : state.problems = []
  depth : state.depth = 0

theorem ofReel_begins (source : Source) : Begins source source.tokens (ofFeed source.reel) := by
  obtain ⟨fed, ahead, depth, problems⟩ := Parse.ofReel_fed source
  exact ⟨fed, ahead, (ofFeed_takes source.reel).reel_last, problems, depth⟩

theorem Begins.after {α : Type} {source : Source} {input rest : List Token}
    {state : ParserState Reel Token} {program : Parse Reel Token α} [Parse.Steps program] {value : α}
    (begins : Begins source input state) (runs : Parse.Runs input program value rest) :
    Begins source rest (program state).2 := by
  obtain ⟨tokens, takes⟩ := Parse.takes program state
  obtain ⟨-, ahead, clean, fed⟩ := runs state begins.fed begins.ahead
  exact ⟨fed, ahead, takes.reel_last.trans begins.last, clean.trans begins.problems,
    takes.depth.trans begins.depth⟩

end ParserState

namespace Parse
open ParserState

section Statements
variable {σ τ : Type} [Feed σ τ] (nested : Nested σ τ)

/-- A module after the newlines that it begins with. -/
def statements : Parse σ τ (Module τ) := do
  let statements ← loop (moduleRound nested)
  let _ ← expect .eof "end of input"
  return ⟨statements⟩

theorem module_statements (state : ParserState σ τ) : module state =
    statements (Nested.within (Nested.limit - state.depth)) (skipNewlines state).2 :=
  rfl

variable {nested}

theorem statements_lookahead [nested.Steps] {state : ParserState σ τ} (roomy : state.Roomy) :
    statements nested (lookahead state).2 = statements nested state := by
  have round : moduleRound nested (lookahead state).2 = moduleRound nested state := by
    rw [moduleRound, peeked_apply, peeked_apply, lookahead_again]
  have loops : loop (moduleRound nested) (lookahead state).2 = loop (moduleRound nested) state := by
    rw [loop_apply roomy, loop_apply ((lookahead_takes state).1.roomy roomy), round]
  simp only [statements, bind_apply, loops]

theorem statements_agrees {ρ υ : Type} [Feed ρ υ] {f : τ → υ} (levels : Nat) :
    Agrees f (Module.mapTokens f) (statements (Nested.within levels) : Parse σ τ _)
      (statements (Nested.within levels) : Parse ρ υ _) := by
  apply (Agrees.loop (moduleRound_agrees levels)).bind
  intro statements
  exact (expect_agrees .eof _).bind fun _ => .pure rfl

end Statements

/-- A loop that begins at `input` comes to `rest` without a complaint, with `values` so far, and goes
on from there as if it had begun there. -/
def Reaches {α : Type} (round : Parse Reel Token (Round α)) (input : List Token) (values : List α)
    (rest : List Token) : Prop :=
  ∀ source state, Begins source input state → ∃ final, Begins source rest final ∧
    loop round state = (values ++ (loop round final).1, (loop round final).2)

section Reaches
variable {α : Type} {round : Parse Reel Token (Round α)} {input middle rest : List Token}
  {value : α} {values : List α}

theorem Reaches.here : Reaches round input [] input :=
  fun _ state begins => ⟨state, begins, rfl⟩

theorem Reaches.more [Steps round] [Advancing round] (runs : Runs input round (.more value) middle)
    (others : Reaches round middle values rest) : Reaches round input (value :: values) rest := by
  intro source state begins
  obtain ⟨ending, -⟩ := runs state begins.fed begins.ahead
  obtain ⟨final, beginsFinal, loops⟩ := others source _ (begins.after runs)
  refine ⟨final, beginsFinal, ?_⟩
  rw [loop_apply begins.fed.roomy, ending, loops]
  rfl

end Reaches

section Joint
variable {input more rest : List Token} {source : Source} {state : ParserState Reel Token}

/-- Definitions before a newline are read one by one, and then the newlines are. -/
theorem definitions_reach {nested : Nested Reel Token} [nested.Steps] {levels : Nat}
    (complete : nested.Complete levels) {statement : Stmt Token} {statements : List (Stmt Token)}
    (items : Definitions levels input more (statement :: statements)) (lines : Lines more rest)
    (stops : front rest ≠ .line) :
    Reaches (moduleRound nested) input (statement :: statements) rest := by
  induction statements generalizing input statement with
  | nil =>
    cases items with
    | last value => exact .more (moduleRound_more complete value lines stops) .here
    | more value first others =>
      cases others with
      | none =>
        have all := first.trans lines.newlines
        exact .more (moduleRound_more complete value all stops) .here
  | cons next statements ih =>
    cases items with
    | more value first others =>
      have begins : front _ ≠ .line := kind_ne others.front rfl
      exact .more (moduleRound_more complete value first begins) (ih others)

/-- A parser comes to the first token that is no newline. -/
theorem module_begins (begins : Begins source input state) (lines : Newlines input rest)
    (stops : front rest ≠ .line) : ∃ final, Begins source rest final ∧
      Parse.module state = statements (.within Nested.limit) final := by
  rw [module_statements, begins.depth, Nat.sub_zero]
  exact ⟨_, begins.after (skipNewlines_runs lines stops), rfl⟩

/-- A parser that has a script before it, with a newline and more in the place of its end, comes to
what stands after the newlines with the statements of the script and nothing else. -/
theorem module_reaches {module : Module Token} (derived : Script Nested.limit input module)
    (begins : Begins source (graft more input) state) (lines : Lines more rest)
    (stops : front rest ≠ .line) : ∃ final, Begins source rest final ∧ Parse.module state =
      (⟨module.statements ++ (statements (.within Nested.limit) final).1.statements⟩,
        (statements (.within Nested.limit) final).2) := by
  have complete := Nested.within_complete Nested.limit Nested.limit (Nat.le_refl _)
  cases derived with
  | @mk start last definitions before items ends =>
    have items := items.grafted lines.front
    have before := before.grafted more
    have joint : graft more [last] = more := if_pos ends
    rw [joint] at items
    cases definitions with
    | nil =>
      generalize graft more start = start at items before
      cases items with
      | none => exact module_begins begins (before.trans lines.newlines) stops
    | cons statement definitions =>
      have first : front (graft more start) ≠ .line := kind_ne items.front rfl
      obtain ⟨middle, beginsMiddle, parses⟩ := module_begins begins before first
      obtain ⟨final, beginsFinal, loops⟩ :=
        definitions_reach complete items lines stops source middle beginsMiddle
      refine ⟨final, beginsFinal, ?_⟩
      rw [parses]
      simp only [statements, bind_apply, loops, pure_apply]

theorem lookahead_tokens {token : Token} (ahead : state.ahead = token :: rest) :
    (lookahead state).2.current = some token ∧ (lookahead state).2.feed.tokens = rest := by
  obtain ⟨first, same⟩ := lookahead_ahead ahead
  have read := (lookahead_takes state).2
  rw [ParserState.ahead, read] at same
  exact ⟨read.trans (congrArg some first), (List.cons.inj same).2⟩

/-- Two parsers correspond once their next tokens have been read, if what they have before them
does. -/
theorem lookahead_mirrors {sourceToo : Source} {mirror : ParserState Reel Token} {amount : Nat}
    (begins : Begins source input state)
    (beginsToo : Begins sourceToo (input.map (·.shift amount)) mirror)
    (last : sourceToo.endToken = source.endToken.shift amount) :
    Mirrors (Token.shift amount) (lookahead state).2 (lookahead mirror).2 := by
  obtain ⟨token, rest, cons⟩ := begins.fed.ended.cons
  have ahead := beginsToo.ahead
  rw [← begins.ahead, cons, List.map_cons] at ahead
  obtain ⟨current, tokens⟩ := lookahead_tokens cons
  obtain ⟨currentToo, tokensToo⟩ := lookahead_tokens ahead
  have looks := (lookahead_takes state).1
  have looksToo := (lookahead_takes mirror).1
  have feed : (lookahead mirror).2.feed = ⟨(lookahead state).2.feed.tokens.map (·.shift amount),
      (lookahead state).2.feed.last.shift amount⟩ := by
    rw [tokens, looks.reel_last, begins.last, ← last, ← beginsToo.last, ← looksToo.reel_last,
      ← tokensToo]
  refine ⟨fun _ => rfl, fun tokens last reads => ?_, ?_, fun unread => ?_, ?_, ?_,
    looks.roomy begins.fed.roomy, looksToo.roomy beginsToo.fed.roomy⟩
  · rw [feed]
    exact ⟨_, reads.reel_map _⟩
  · rw [current, currentToo, Option.map_some]
  · rw [current] at unread
    cases unread
  · rw [lookahead_problems, lookahead_problems, begins.problems, beginsToo.problems, List.map_nil]
  · rw [looks.depth, looksToo.depth, begins.depth, beginsToo.depth]

end Joint

end Parse

namespace Source

theorem parse_lexicalErrors (source : Source) :
    source.parse.lexicalErrors = (Lexer.ofSource source).readAll.2.errors :=
  congrArg Lexer.errors (Parser.module_accounts (Lexer.ofSource source)).1

variable {script rest joined : Source}

theorem endToken_joined (joins : joined.bytes = script.bytes ++ 10 :: rest.bytes) :
    joined.endToken = rest.endToken.shift (script.length + 1) := by
  have length : rest.length + (script.length + 1) = joined.length := by
    rw [length_joined joins]
    omega
  rw [endToken, endToken, Token.shift, length]

/-- If the tokens of a clean script are followed by a newline and by those of another, so are its
statements, and its problems are those of the other. -/
theorem parse_grafted (joins : joined.bytes = script.bytes ++ 10 :: rest.bytes)
    (clean : script.parse.problems = [])
    (tokens : joined.tokens = graft (⟨.line, script.length, 1⟩ ::
      rest.tokens.map (·.shift (script.length + 1))) script.tokens) :
    joined.parse.module.statements = script.parse.module.statements ++
        rest.parse.module.statements.map (·.mapTokens (Token.shift (script.length + 1))) ∧
      joined.parse.problems =
        rest.parse.problems.map (Problem.mapToken (Token.shift (script.length + 1))) := by
  obtain ⟨scriptModule, scriptProblems⟩ := script.parse_reel
  obtain ⟨restModule, restProblems⟩ := rest.parse_reel
  obtain ⟨joinedModule, joinedProblems⟩ := joined.parse_reel
  have scriptBegins := ParserState.ofReel_begins script
  have derived := Parse.module_derives scriptBegins.fed
    ((scriptProblems.symm.trans clean).trans scriptBegins.problems.symm)
  rw [scriptBegins.ahead, scriptBegins.depth, Nat.sub_zero, ← scriptModule] at derived
  -- Both parsers come to the first token of the rest that is no newline.
  obtain ⟨start, lines, stops⟩ := Newlines.all rest.tokens
  have linesToo : Lines (⟨.line, script.length, 1⟩ :: rest.tokens.map (·.shift (script.length + 1)))
      (start.map (·.shift (script.length + 1))) := ⟨_, _, rfl, rfl, lines.shift _⟩
  have stopsToo : front (start.map (·.shift (script.length + 1))) ≠ .line := by
    rw [front_shift]
    exact stops
  obtain ⟨final, begins, parses⟩ :=
    Parse.module_begins (ParserState.ofReel_begins rest) lines stops
  obtain ⟨finalToo, beginsToo, parsesToo⟩ :=
    Parse.module_reaches derived (tokens ▸ ParserState.ofReel_begins joined) linesToo stopsToo
  have mirrors := Parse.lookahead_mirrors begins beginsToo (endToken_joined joins)
  obtain ⟨same, after⟩ := Parse.statements_agrees Nested.limit _ _ mirrors
  have problems := after.problems
  rw [Parse.statements_lookahead begins.fed.roomy, Parse.statements_lookahead beginsToo.fed.roomy]
    at same problems
  rw [joinedModule, joinedProblems, parsesToo, restModule, restProblems, parses]
  exact ⟨congrArg (script.parse.module.statements ++ ·) (congrArg Module.statements same), problems⟩

/-- A clean script that leaves no interpolation open may be followed by a line feed and any text. The
whole has the statements of the script and then those of the text; all that is wrong with it is what
is wrong with the text, as far on as the text stands. -/
theorem parse_joined (script rest joined : Source)
    (joins : joined.bytes = script.bytes ++ 10 :: rest.bytes) (clean : script.parse.isClean)
    (closed : (Lexer.ofSource script).readAll.2.openings = []) :
    joined.parse.module.statements = script.parse.module.statements ++
        rest.parse.module.statements.map (·.mapTokens (Token.shift (script.length + 1))) ∧
      joined.parse.problems =
        rest.parse.problems.map (Problem.mapToken (Token.shift (script.length + 1))) ∧
      joined.parse.lexicalErrors =
        rest.parse.lexicalErrors.map (LexicalError.shift (script.length + 1)) := by
  rw [Parsed.isClean, Bool.and_eq_true, List.isEmpty_iff, List.isEmpty_iff] at clean
  have errors := clean.2
  rw [parse_lexicalErrors] at errors
  obtain ⟨tokens, errorsToo⟩ := tokens_joined joins errors closed
  obtain ⟨statements, problems⟩ := parse_grafted joins clean.1 tokens
  refine ⟨statements, problems, ?_⟩
  rw [parse_lexicalErrors, parse_lexicalErrors]
  exact errorsToo

/-- A script that ends in a string and a comment. -/
def quoting : Source where
  id := "quoting"
  bytes := Text.Utf8.encode "var a = \"%(b)\" // c"

/-- A text with a missing name, a character that begins no token, and a comment that is not
closed. -/
def malformed : Source where
  id := "malformed"
  bytes := Text.Utf8.encode "\nelse var = @ /* d"

def quotingMalformed : Source where
  id := "joined"
  bytes := Text.Utf8.encode "var a = \"%(b)\" // c\n\nelse var = @ /* d"

theorem quotingMalformed_joined :
    quotingMalformed.bytes = quoting.bytes ++ 10 :: malformed.bytes ∧ quoting.parse.isClean ∧
      (Lexer.ofSource quoting).readAll.2.openings = [] ∧
      malformed.parse.problems ≠ [] ∧ malformed.parse.lexicalErrors ≠ [] ∧
      quotingMalformed.parse.module.statements = quoting.parse.module.statements ++
        malformed.parse.module.statements.map (·.mapTokens (Token.shift (quoting.length + 1))) ∧
      quotingMalformed.parse.problems =
        malformed.parse.problems.map (Problem.mapToken (Token.shift (quoting.length + 1))) ∧
      quotingMalformed.parse.lexicalErrors =
        malformed.parse.lexicalErrors.map (LexicalError.shift (quoting.length + 1)) :=
  ⟨by decide +kernel, by decide +kernel, by decide +kernel, by decide +kernel, by decide +kernel,
    parse_joined quoting malformed quotingMalformed (by decide +kernel) (by decide +kernel)
      (by decide +kernel)⟩

end Source

end WrenFront
