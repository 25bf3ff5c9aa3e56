import WrenFront.Parser

/-! What a parsing step can do to the state. Every rule of the grammar is put together from a few
moves, so it only reads the feed forward, takes the tokens that it read in order, and adds
problems. The rules that hold each other are assumed to do no more than that here; they are tied
together at the end. -/

-- A rule is checked move by move, and the longer rules have more moves than the default allows.
set_option synthInstance.maxSize 1024

namespace WrenFront

variable {σ τ α β : Type}

namespace Parse

@[simp]
theorem pure_apply (value : α) (state : ParserState σ τ) :
    (pure value : Parse σ τ α) state = (value, state) := rfl

@[simp]
theorem bind_apply (program : Parse σ τ α) (next : α → Parse σ τ β) (state : ParserState σ τ) :
    (program >>= next) state = next (program state).1 (program state).2 := rfl

@[simp]
theorem map_apply (f : α → β) (program : Parse σ τ α) (state : ParserState σ τ) :
    (f <$> program) state = (f (program state).1, (program state).2) := rfl

@[simp]
theorem get_apply (state : ParserState σ τ) : (get : Parse σ τ _) state = (state, state) := rfl

@[simp]
theorem modify_apply (f : ParserState σ τ → ParserState σ τ) (state : ParserState σ τ) :
    (modify f : Parse σ τ PUnit) state = (⟨⟩, f state) := rfl

end Parse

variable [Feed σ τ]

/-- Reading `tokens` from a feed, one after another, leaves the last one. -/
inductive Feed.Reads : σ → List τ → σ → Prop where
  | none {feed : σ} : Reads feed [] feed
  | more {feed last : σ} {tokens : List τ} (rest : Reads (next feed).2 tokens last) :
      Reads feed ((next feed).1 :: tokens) last

theorem Feed.Reads.uncons {feed last : σ} {token : τ} {tokens : List τ}
    (reads : Reads feed (token :: tokens) last) :
    token = (next feed).1 ∧ Reads (next feed).2 tokens last := by
  cases reads with
  | more rest => exact ⟨rfl, rest⟩

theorem Feed.Reads.append {first middle last : σ} {tokens more : List τ}
    (reads : Reads first tokens middle) (rest : Reads middle more last) :
    Reads first (tokens ++ more) last := by
  induction reads with
  | none => exact rest
  | more _ ih => exact .more (ih rest)

namespace ParserState

/-- The second state is the first one after taking `tokens`. Whether the next token has been read
already is left open. -/
structure Takes (state : ParserState σ τ) (tokens : List τ) (final : ParserState σ τ) : Prop where
  reads : ∃ read, Feed.Reads state.feed read final.feed ∧
    state.current.toList ++ read = tokens ++ final.current.toList
  taken : final.taken = tokens.reverse ++ state.taken
  problems : state.problems <+: final.problems
  depth : final.depth = state.depth
  rounds : final.rounds = state.rounds

theorem Takes.refl (state : ParserState σ τ) : state.Takes [] state :=
  ⟨⟨[], .none, by simp⟩, rfl, List.prefix_rfl, rfl, rfl⟩

theorem Takes.trans {first middle last : ParserState σ τ} {tokens more : List τ}
    (takes : first.Takes tokens middle) (rest : middle.Takes more last) :
    first.Takes (tokens ++ more) last := by
  obtain ⟨read, reads, same⟩ := takes.reads
  obtain ⟨readMore, readsMore, sameMore⟩ := rest.reads
  refine ⟨⟨read ++ readMore, reads.append readsMore, ?_⟩, ?_, takes.problems.trans rest.problems,
    rest.depth.trans takes.depth, rest.rounds.trans takes.rounds⟩
  · rw [← List.append_assoc, same, List.append_assoc, sameMore, List.append_assoc]
  · rw [rest.taken, takes.taken, List.reverse_append, List.append_assoc]

/-- Problems are never withdrawn, so where none was added in all, none was added at first. -/
theorem Takes.clean {first middle last : ParserState σ τ} {tokens more : List τ}
    (takes : first.Takes tokens middle) (rest : middle.Takes more last)
    (clean : last.problems = first.problems) : middle.problems = first.problems := by
  apply List.IsPrefix.eq_of_length_le _ takes.problems.length_le
  rw [← clean]
  exact rest.problems

def noting (state : ParserState σ τ) (problem : Problem τ) : ParserState σ τ :=
  { state with problems := state.problems ++ [problem] }

theorem Takes.noting (state : ParserState σ τ) (problem : Problem τ) :
    state.Takes [] (state.noting problem) :=
  ⟨⟨[], .none, List.append_nil _⟩, rfl, List.prefix_append _ _, rfl, rfl⟩

/-- A token that has been read is the next one taken. -/
theorem Takes.head {state final : ParserState σ τ} {token first : τ} {tokens : List τ}
    (takes : state.Takes (first :: tokens) final) (read : state.current = some token) :
    first = token := by
  obtain ⟨_, _, same⟩ := takes.reads
  rw [read] at same
  exact (List.cons.inj same).1.symm

end ParserState

/-- A program that does no more than that, whatever state it starts in. -/
class Parse.Steps (program : Parse σ τ α) : Prop where
  steps : ∀ state : ParserState σ τ, ∃ tokens, state.Takes tokens (program state).2

namespace Parse
open ParserState (Takes)

theorem takes (program : Parse σ τ α) [Steps program] (state : ParserState σ τ) :
    ∃ tokens, state.Takes tokens (program state).2 :=
  Steps.steps state

instance (value : α) : Steps (pure value : Parse σ τ α) :=
  ⟨fun state => ⟨[], .refl state⟩⟩

instance : Steps (get : Parse σ τ (ParserState σ τ)) :=
  ⟨fun state => ⟨[], .refl state⟩⟩

theorem Steps.bind {program : Parse σ τ α} {next : α → Parse σ τ β} (first : Steps program)
    (rest : ∀ value, Steps (next value)) : Steps (program >>= next) := by
  constructor
  intro state
  obtain ⟨tokens, first⟩ := first.steps state
  obtain ⟨more, rest⟩ := (rest (program state).1).steps (program state).2
  exact ⟨tokens ++ more, first.trans rest⟩

instance (program : Parse σ τ α) (next : α → Parse σ τ β) [first : Steps program]
    [rest : ∀ value, Steps (next value)] : Steps (program >>= next) :=
  first.bind rest

instance (f : α → β) (program : Parse σ τ α) [Steps program] : Steps (f <$> program) :=
  ⟨fun state => takes program state⟩

instance (condition : Prop) [Decidable condition] (first second : Parse σ τ α)
    [Steps first] [Steps second] : Steps (if condition then first else second) := by
  split <;> infer_instance

theorem lookahead_takes (state : ParserState σ τ) :
    state.Takes [] (lookahead state).2 ∧ (lookahead state).2.current = some (lookahead state).1 := by
  cases read : state.current with
  | some token =>
    simp only [lookahead, read]
    exact ⟨.refl state, trivial⟩
  | none =>
    simp only [lookahead, read, and_true]
    exact ⟨⟨[_], .more .none, by simp [read]⟩, rfl, List.prefix_rfl, rfl, rfl⟩

theorem advance_takes (state : ParserState σ τ) :
    state.Takes [(advance state).1] (advance state).2 := by
  obtain ⟨looks, read⟩ := lookahead_takes state
  have takes : Takes (lookahead state).2 [(lookahead state).1] (advance state).2 :=
    ⟨⟨[], .none, by simp [read]; rfl⟩, rfl, List.prefix_rfl, rfl, rfl⟩
  exact looks.trans takes

@[simp]
theorem lookahead_again (state : ParserState σ τ) :
    lookahead (lookahead state).2 = lookahead state := by
  have read := (lookahead_takes state).2
  rw [lookahead, read]
  rfl

@[simp]
theorem advance_after_lookahead (state : ParserState σ τ) :
    advance (lookahead state).2 = advance state := by
  simp only [advance, bind_apply, lookahead_again]

@[simp]
theorem lookahead_problems (state : ParserState σ τ) :
    (lookahead state).2.problems = state.problems := by
  unfold lookahead
  split <;> rfl

@[simp]
theorem advance_problems (state : ParserState σ τ) :
    (advance state).2.problems = state.problems :=
  lookahead_problems state

/-- A program that goes on by whether the next token is of a kind. -/
theorem peeked_apply (kind : TokenKind) (first second : Parse σ τ α) (state : ParserState σ τ) :
    (peek >>= fun found => if found = kind then first else second) state =
      if Feed.kind σ (lookahead state).1 = kind then first (lookahead state).2
      else second (lookahead state).2 := by
  change (if Feed.kind σ (lookahead state).1 = kind then first else second) (lookahead state).2 = _
  split <;> rfl

theorem accept?_apply (kind : TokenKind) (state : ParserState σ τ) :
    accept? kind state = if Feed.kind σ (lookahead state).1 = kind
      then (some (lookahead state).1, (advance state).2) else (none, (lookahead state).2) := by
  change (if Feed.kind σ (lookahead state).1 = kind then some <$> advance else pure none)
    (lookahead state).2 = _
  split
  · simp only [map_apply, advance_after_lookahead]
    rfl
  · rfl

theorem acceptAny?_apply (kinds : List TokenKind) (state : ParserState σ τ) :
    acceptAny? kinds state = if kinds.contains (Feed.kind σ (lookahead state).1)
      then (some (lookahead state).1, (advance state).2) else (none, (lookahead state).2) := by
  change (if kinds.contains (Feed.kind σ (lookahead state).1) then some <$> advance else pure none)
    (lookahead state).2 = _
  split
  · simp only [map_apply, advance_after_lookahead]
    rfl
  · rfl

instance : Steps (lookahead : Parse σ τ τ) :=
  ⟨fun state => ⟨[], (lookahead_takes state).1⟩⟩

instance : Steps (peek : Parse σ τ TokenKind) := by
  unfold peek; infer_instance

instance : Steps (advance : Parse σ τ τ) :=
  ⟨fun state => ⟨_, advance_takes state⟩⟩

instance (kind : TokenKind) : Steps (accept? kind : Parse σ τ (Option τ)) := by
  unfold accept?; infer_instance

instance (kind : TokenKind) : Steps (accept kind : Parse σ τ Bool) := by
  unfold accept; infer_instance

instance (kinds : List TokenKind) : Steps (acceptAny? kinds : Parse σ τ (Option τ)) := by
  unfold acceptAny?; infer_instance

theorem complain_read {complaint : Complaint} {state : ParserState σ τ} {token : τ}
    (read : state.current = some token) :
    complain complaint state = (⟨⟩, state.noting ⟨complaint, token⟩) := by
  simp only [complain, bind_apply, get_apply, read]
  rfl

theorem complain_unread {complaint : Complaint} {state : ParserState σ τ} {token : τ}
    (unread : state.current = none) (previous : state.previous = some token) :
    complain complaint state = (⟨⟩, state.noting ⟨complaint, token⟩) := by
  simp only [complain, bind_apply, get_apply, unread, previous]
  rfl

theorem complain_first {complaint : Complaint} {state : ParserState σ τ}
    (unread : state.current = none) (previous : state.previous = none) :
    complain complaint state =
      (⟨⟩, (lookahead state).2.noting ⟨complaint, (lookahead state).1⟩) := by
  simp only [complain, bind_apply, get_apply, unread, previous]
  rfl

theorem complain_problems (complaint : Complaint) (state : ParserState σ τ) :
    ∃ token, (complain complaint state).2.problems = state.problems ++ [⟨complaint, token⟩] := by
  cases read : state.current with
  | some token => exact ⟨token, by rw [complain_read read]; rfl⟩
  | none =>
    cases previous : state.previous with
    | some token => exact ⟨token, by rw [complain_unread read previous]; rfl⟩
    | none =>
      rw [complain_first read previous]
      exact ⟨_, congrArg (· ++ _) (lookahead_problems state)⟩

/-- A complaint is the only thing that adds a problem. -/
instance (complaint : Complaint) : Steps (complain complaint : Parse σ τ Unit) := by
  constructor
  intro state
  refine ⟨[], ?_⟩
  cases read : state.current with
  | some token =>
    rw [complain_read read]
    exact .noting state _
  | none =>
    cases previous : state.previous with
    | some token =>
      rw [complain_unread read previous]
      exact .noting state _
    | none =>
      rw [complain_first read previous]
      exact (lookahead_takes state).1.trans (.noting _ _)

/-- The token that is not the required one is where the problem lies. -/
theorem expect_apply (kind : TokenKind) (what : String) (state : ParserState σ τ) :
    expect kind what state = if Feed.kind σ (lookahead state).1 = kind then advance state
      else ((lookahead state).1, (advance state).2.noting ⟨.expected what, (lookahead state).1⟩) := by
  change (if Feed.kind σ (lookahead state).1 ≠ kind
    then complain (.expected what) >>= fun _ => pure (lookahead state).1
    else pure (lookahead state).1) (advance state).2 = _
  by_cases same : Feed.kind σ (lookahead state).1 = kind
  · simp only [same, ne_eq, not_true_eq_false, if_false, if_true]
    rfl
  · simp only [same, ne_eq, not_false_eq_true, if_true, if_false]
    rfl

theorem expect_takes (kind : TokenKind) (what : String) (state : ParserState σ τ) :
    state.Takes [(lookahead state).1] (expect kind what state).2 := by
  have takes := advance_takes state
  rw [expect_apply]
  split
  · exact takes
  · exact takes.trans (.noting _ _)

instance (kind : TokenKind) (what : String) : Steps (expect kind what : Parse σ τ τ) :=
  ⟨fun state => ⟨_, expect_takes kind what state⟩⟩

theorem Steps.collect {round : Parse σ τ (Round α)} (steps : Steps round) (rounds : Nat) :
    Steps (collect round rounds) := by
  induction rounds with
  | zero => exact inferInstanceAs (Steps (pure []))
  | succ rounds ih =>
    refine steps.bind fun ending => ?_
    cases ending <;> dsimp only <;> infer_instance

theorem Steps.loop {round : Parse σ τ (Round α)} (steps : Steps round) : Steps (loop round) :=
  Steps.bind inferInstance fun state => steps.collect state.rounds

instance (round : Parse σ τ (Round α)) [steps : Steps round] : Steps (loop round) :=
  steps.loop

/-- For a program that goes on by whether a token was found. -/
instance (priority := low) (program : Parse σ τ (Option α)) (next : Option α → Parse σ τ β)
    [first : Steps program] [missing : Steps (next none)]
    [found : ∀ value, Steps (next (some value))] : Steps (program >>= next) :=
  first.bind fun
    | none => missing
    | some value => found value

instance : Steps (newlineRound : Parse σ τ (Round τ)) := by
  unfold newlineRound; infer_instance

instance : Steps (newlines : Parse σ τ Bool) := by
  unfold newlines; infer_instance

instance : Steps (skipNewlines : Parse σ τ Unit) := by
  unfold skipNewlines; infer_instance

instance (what : String) : Steps (expectNewline what : Parse σ τ Unit) := by
  unfold expectNewline; infer_instance

instance (item : Parse σ τ α) [Steps item] : Steps (separatedRound item) := by
  unfold separatedRound; infer_instance

instance (item : Parse σ τ α) [Steps item] : Steps (separated item) := by
  unfold separated; infer_instance

instance (closing : TokenKind) (item : Parse σ τ α) [Steps item] :
    Steps (elementsRound closing item) := by
  unfold elementsRound; infer_instance

instance (closing : TokenKind) (item : Parse σ τ α) [Steps item] :
    Steps (elements closing item) := by
  unfold elements; infer_instance

/-- The depth is put back on the way out. -/
theorem Steps.deeper {rule : Parse σ τ α} (steps : Steps rule) : Steps (deeper rule) := by
  constructor
  intro state
  obtain ⟨tokens, within⟩ := steps.steps { state with depth := state.depth + 1 }
  refine ⟨tokens, within.reads, within.taken, within.problems, ?_, within.rounds⟩
  have back := within.depth
  simp only [Parse.deeper, bind_apply, modify_apply, pure_apply, back]
  omega

instance : Steps (refuse : Parse σ τ (Expr τ)) := by
  unfold refuse; infer_instance

end Parse

/-- The nested rules do no more than that either. -/
class Nested.Steps (nested : Nested σ τ) : Prop where
  expression : Parse.Steps nested.expression
  conditional : Parse.Steps nested.conditional
  operand : Parse.Steps nested.operand
  statement : Parse.Steps nested.statement
  classTail : ∀ foreign keyword, Parse.Steps (nested.classTail foreign keyword)

attribute [instance] Nested.Steps.expression Nested.Steps.conditional Nested.Steps.operand
  Nested.Steps.statement Nested.Steps.classTail

namespace Parse

instance : Steps (parameterList : Parse σ τ (List τ)) := by
  unfold parameterList; infer_instance

instance (keyword : τ) : Steps (importTail keyword : Parse σ τ (Stmt τ)) := by
  unfold importTail; infer_instance

variable (nested : Nested σ τ) [nested.Steps]

instance (keyword : τ) : Steps (varTail nested keyword) := by
  unfold varTail; infer_instance

instance : Steps (definition nested) := by
  unfold definition; infer_instance

instance : Steps (bodyElement nested) := by
  unfold bodyElement
  refine .bind inferInstance fun kind => ?_
  split <;> infer_instance

instance : Steps (bodyRound nested) := by
  unfold bodyRound; infer_instance

instance : Steps (bodyStatements nested) := by
  unfold bodyStatements; infer_instance

instance (parameters : Option (List τ)) : Steps (bodyTail nested parameters) := by
  unfold bodyTail; infer_instance

instance : Steps (argumentList nested) := by
  unfold argumentList; infer_instance

instance : Steps (callArguments nested) := by
  unfold callArguments; infer_instance

instance : Steps (blockParameters : Parse σ τ (Option (List τ))) := by
  unfold blockParameters; infer_instance

instance : Steps (blockArgument nested) := by
  unfold blockArgument; infer_instance

instance (receiver : Option (Expr τ)) (name : τ) : Steps (callTail nested receiver name) := by
  unfold callTail; infer_instance

instance (keyword : τ) : Steps (superTail nested keyword) := by
  unfold superTail; infer_instance

instance (leftParen : τ) : Steps (groupingTail nested leftParen) := by
  unfold groupingTail; infer_instance

instance (leftBracket : τ) : Steps (listTail nested leftBracket) := by
  unfold listTail; infer_instance

instance : Steps (mapEntry nested) := by
  unfold mapEntry; infer_instance

instance (leftBrace : τ) : Steps (mapTail nested leftBrace) := by
  unfold mapTail; infer_instance

instance : Steps (interpolationRound nested) := by
  unfold interpolationRound; infer_instance

instance : Steps (interpolation nested) := by
  unfold interpolation; infer_instance

instance : Steps (primary nested) := by
  unfold primary
  refine .bind inferInstance fun kind => ?_
  split <;> infer_instance

instance : Steps (link nested) := by
  unfold link; infer_instance

instance : Steps (chain nested) := by
  unfold chain; infer_instance

instance : Steps (operand nested) := by
  unfold operand; infer_instance

instance (operators : List TokenKind) (right : Parse σ τ (Expr τ)) [Steps right] :
    Steps (infixRound operators right) := by
  unfold infixRound; infer_instance

instance (levels : List (List TokenKind)) : Steps (infixChain nested levels) := by
  induction levels with
  | nil => exact inferInstanceAs (Steps (operand nested))
  | cons operators tighter ih => unfold infixChain; infer_instance

instance : Steps (conditional nested) := by
  unfold conditional; infer_instance

instance : Steps (assignment nested) := by
  unfold assignment; infer_instance

instance (keyword : τ) : Steps (ifTail nested keyword) := by
  unfold ifTail; infer_instance

instance (keyword : τ) : Steps (forTail nested keyword) := by
  unfold forTail; infer_instance

instance (keyword : τ) : Steps (whileTail nested keyword) := by
  unfold whileTail; infer_instance

instance (keyword : τ) : Steps (returnTail nested keyword) := by
  unfold returnTail
  refine .bind inferInstance fun kind => ?_
  split <;> infer_instance

instance : Steps (blockRound nested) := by
  unfold blockRound; infer_instance

instance (leftBrace : τ) : Steps (blockTail nested leftBrace) := by
  unfold blockTail; infer_instance

instance : Steps (statement nested) := by
  unfold statement; infer_instance

instance : Steps (signature : Parse σ τ (Signature τ)) := by
  unfold signature; infer_instance

instance (signature : Signature τ) : Steps (methodParameters signature : Parse σ τ _) := by
  unfold methodParameters; infer_instance

instance : Steps (method nested) := by
  unfold method; infer_instance

instance : Steps (superclass : Parse σ τ (Option τ)) := by
  unfold superclass; infer_instance

instance : Steps (methodsRound nested) := by
  unfold methodsRound; infer_instance

instance : Steps (methods nested) := by
  unfold methods; infer_instance

instance (foreign : Option τ) (keyword : τ) : Steps (classTail nested foreign keyword) := by
  unfold classTail; infer_instance

end Parse

instance : (Nested.refused : Nested σ τ).Steps where
  expression := inferInstanceAs (Parse.Steps Parse.refuse)
  conditional := inferInstanceAs (Parse.Steps Parse.refuse)
  operand := inferInstanceAs (Parse.Steps Parse.refuse)
  statement := inferInstanceAs (Parse.Steps (_ <$> Parse.refuse))
  classTail _ _ := inferInstanceAs (Parse.Steps (_ <$> Parse.refuse))

instance (nested : Nested σ τ) [nested.Steps] : nested.around.Steps where
  expression := Parse.Steps.deeper inferInstance
  conditional := Parse.Steps.deeper inferInstance
  operand := Parse.Steps.deeper inferInstance
  statement := Parse.Steps.deeper inferInstance
  classTail _ _ := Parse.Steps.deeper inferInstance

instance (levels : Nat) : (Nested.within levels : Nested σ τ).Steps := by
  induction levels with
  | zero => exact inferInstanceAs Nested.refused.Steps
  | succ levels ih => exact inferInstanceAs (Nested.within levels).around.Steps

instance (nested : Nested σ τ) [nested.Steps] : Parse.Steps (Parse.moduleRound nested) := by
  unfold Parse.moduleRound; infer_instance

instance : Parse.Steps (Parse.module : Parse σ τ (Module τ)) := by
  unfold Parse.module; infer_instance

end WrenFront
