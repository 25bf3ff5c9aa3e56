import WrenFront.Proofs.ParserRounds
import WrenFront.Proofs.TreeTokens

/-! The parser sees its tokens only through their kinds. Two feeds that give corresponding tokens
lead to corresponding trees and problems, however the feeds are made and however many rounds their
loops are given. -/

set_option synthInstance.maxSize 1024

namespace WrenFront

variable {σ τ ρ υ α β γ δ : Type} [Feed σ τ] [Feed ρ υ] {f : τ → υ}

/-- One feed gives the images of the tokens that the other gives. -/
def Feed.Mirrors (f : τ → υ) (feed : σ) (mirror : ρ) : Prop :=
  ∀ tokens last, Reads feed tokens last → ∃ image, Reads mirror (tokens.map f) image

theorem Feed.Mirrors.next {feed : σ} {mirror : ρ} (mirrors : Mirrors f feed mirror) :
    (Feed.next mirror).1 = f (Feed.next feed).1 ∧
      Mirrors f (Feed.next feed).2 (Feed.next mirror).2 := by
  refine ⟨?_, fun tokens last reads => ?_⟩
  · obtain ⟨image, read⟩ := mirrors _ _ (.more .none)
    exact read.uncons.1.symm
  · obtain ⟨image, read⟩ := mirrors _ last (.more reads)
    exact ⟨image, read.uncons.2⟩

def Problem.mapToken (f : τ → υ) (problem : Problem τ) : Problem υ :=
  ⟨problem.complaint, f problem.token⟩

theorem Problem.mapTokens_id (problems : List (Problem τ)) :
    problems.map (Problem.mapToken id) = problems :=
  List.map_id problems

/-- Two states that differ in nothing but their tokens, and both have room for their loops. The token
that was taken last is looked at only as long as the next one has not been read. -/
structure ParserState.Mirrors (f : τ → υ) (state : ParserState σ τ) (mirror : ParserState ρ υ) :
    Prop where
  kinds : ∀ token, Feed.kind ρ (f token) = Feed.kind σ token
  feed : Feed.Mirrors f state.feed mirror.feed
  current : mirror.current = state.current.map f
  previous : state.current = none → mirror.previous = state.previous.map f
  problems : mirror.problems = state.problems.map (Problem.mapToken f)
  depth : mirror.depth = state.depth
  roomy : state.Roomy
  mirrorRoomy : mirror.Roomy

theorem ParserState.Mirrors.noting {state : ParserState σ τ} {mirror : ParserState ρ υ}
    (mirrors : state.Mirrors f mirror) (complaint : Complaint) (token : τ) :
    (state.noting ⟨complaint, token⟩).Mirrors f (mirror.noting ⟨complaint, f token⟩) := by
  refine ⟨mirrors.kinds, mirrors.feed, mirrors.current, mirrors.previous, ?_, mirrors.depth,
    (Takes.noting state _).roomy mirrors.roomy, (Takes.noting mirror _).roomy mirrors.mirrorRoomy⟩
  simp [ParserState.noting, mirrors.problems, Problem.mapToken]

namespace Parse
open ParserState

/-- Started in corresponding states, the programs give corresponding results and end in
corresponding states. -/
def Agrees (f : τ → υ) (g : α → β) (program : Parse σ τ α) (image : Parse ρ υ β) : Prop :=
  ∀ state mirror, ParserState.Mirrors f state mirror →
    (image mirror).1 = g (program state).1 ∧
      ParserState.Mirrors f (program state).2 (image mirror).2

theorem Agrees.pure {g : α → β} {value : α} {image : β} (same : image = g value) :
    Agrees f g (Pure.pure value : Parse σ τ α) (Pure.pure image : Parse ρ υ β) :=
  fun _ _ mirrors => ⟨same, mirrors⟩

theorem Agrees.bind {g : α → β} {h : γ → δ} {program : Parse σ τ α} {image : Parse ρ υ β}
    {next : α → Parse σ τ γ} {nextImage : β → Parse ρ υ δ} (first : Agrees f g program image)
    (rest : ∀ value, Agrees f h (next value) (nextImage (g value))) :
    Agrees f h (program >>= next) (image >>= nextImage) := by
  intro state mirror mirrors
  obtain ⟨same, mirrors⟩ := first state mirror mirrors
  rw [bind_apply, bind_apply, same]
  exact rest _ _ _ mirrors

theorem Agrees.map {g : α → β} {h : γ → δ} {program : Parse σ τ α} {image : Parse ρ υ β}
    {k : α → γ} {m : β → δ} (agrees : Agrees f g program image)
    (same : ∀ value, m (g value) = h (k value)) : Agrees f h (k <$> program) (m <$> image) := by
  intro state mirror mirrors
  obtain ⟨result, after⟩ := agrees state mirror mirrors
  exact ⟨(congrArg m result).trans (same _), after⟩

theorem lookahead_agrees : Agrees f f (lookahead : Parse σ τ τ) (lookahead : Parse ρ υ υ) := by
  intro state mirror mirrors
  have roomy := (lookahead_takes state).1.roomy mirrors.roomy
  have mirrorRoomy := (lookahead_takes mirror).1.roomy mirrors.mirrorRoomy
  have current := mirrors.current
  obtain ⟨next, feed⟩ := mirrors.feed.next
  cases read : state.current with
  | some token =>
    simp only [read, Option.map_some] at current
    simp only [lookahead, read, current] at roomy mirrorRoomy ⊢
    exact ⟨trivial, mirrors⟩
  | none =>
    simp only [read, Option.map_none] at current
    simp only [lookahead, read, current] at roomy mirrorRoomy ⊢
    exact ⟨next, mirrors.kinds, feed, congrArg some next, (absurd · (Option.some_ne_none _)),
      mirrors.problems, mirrors.depth, roomy, mirrorRoomy⟩

theorem peek_agrees : Agrees f id (peek : Parse σ τ _) (peek : Parse ρ υ _) := by
  intro state mirror mirrors
  obtain ⟨same, after⟩ := lookahead_agrees state mirror mirrors
  exact ⟨(congrArg _ same).trans (mirrors.kinds _), after⟩

theorem advance_agrees : Agrees f f (advance : Parse σ τ τ) (advance : Parse ρ υ υ) := by
  intro state mirror mirrors
  obtain ⟨same, after⟩ := lookahead_agrees state mirror mirrors
  exact ⟨same, mirrors.kinds, after.feed, rfl, fun _ => congrArg some same, after.problems,
    after.depth, (advance_takes state).roomy mirrors.roomy,
    (advance_takes mirror).roomy mirrors.mirrorRoomy⟩

/-- Corresponding programs that go on by the kind of the next token. -/
theorem Agrees.peeked {g : α → β} {next : TokenKind → Parse σ τ α}
    {nextImage : TokenKind → Parse ρ υ β} (rest : ∀ kind, Agrees f g (next kind) (nextImage kind)) :
    Agrees f g (peek >>= next) (peek >>= nextImage) :=
  peek_agrees.bind rest

theorem accept?_agrees (kind : TokenKind) :
    Agrees f (Option.map f) (accept? kind : Parse σ τ _) (accept? kind : Parse ρ υ _) := by
  apply Agrees.peeked
  intro found
  split
  · exact advance_agrees.bind fun _ => .pure rfl
  · exact .pure rfl

theorem acceptAny?_agrees (kinds : List TokenKind) :
    Agrees f (Option.map f) (acceptAny? kinds : Parse σ τ _) (acceptAny? kinds : Parse ρ υ _) := by
  apply Agrees.peeked
  intro found
  split
  · exact advance_agrees.bind fun _ => .pure rfl
  · exact .pure rfl

theorem accept_agrees (kind : TokenKind) :
    Agrees f id (accept kind : Parse σ τ _) (accept kind : Parse ρ υ _) :=
  (accept?_agrees kind).bind fun _ => .pure (by simp)

/-- Corresponding programs that go on by whether a token was found. -/
theorem Agrees.found {g : α → β} {h : γ → δ} {program : Parse σ τ (Option α)}
    {image : Parse ρ υ (Option β)} {next : Option α → Parse σ τ γ}
    {nextImage : Option β → Parse ρ υ δ} (first : Agrees f (Option.map g) program image)
    (missing : Agrees f h (next none) (nextImage none))
    (found : ∀ value, Agrees f h (next (some value)) (nextImage (some (g value)))) :
    Agrees f h (program >>= next) (image >>= nextImage) := by
  apply first.bind
  intro token
  cases token with
  | none => exact missing
  | some value => exact found value

theorem Agrees.accepted {g : α → β} {kind : TokenKind} {found missing : Parse σ τ α}
    {foundImage missingImage : Parse ρ υ β} (first : Agrees f g found foundImage)
    (second : Agrees f g missing missingImage) :
    Agrees f g (accept kind >>= fun accepted => if accepted then found else missing)
      (accept kind >>= fun accepted => if accepted then foundImage else missingImage) :=
  (accept_agrees kind).bind fun
    | true => first
    | false => second

theorem complain_agrees (complaint : Complaint) :
    Agrees f id (complain complaint : Parse σ τ _) (complain complaint : Parse ρ υ _) := by
  intro state mirror mirrors
  have current := mirrors.current
  cases read : state.current with
  | some token =>
    simp only [read, Option.map_some] at current
    rw [complain_read read, complain_read current]
    exact ⟨rfl, mirrors.noting complaint token⟩
  | none =>
    simp only [read, Option.map_none] at current
    have previous := mirrors.previous read
    cases before : state.previous with
    | some token =>
      simp only [before, Option.map_some] at previous
      rw [complain_unread read before, complain_unread current previous]
      exact ⟨rfl, mirrors.noting complaint token⟩
    | none =>
      simp only [before, Option.map_none] at previous
      obtain ⟨same, after⟩ := lookahead_agrees state mirror mirrors
      rw [complain_first read before, complain_first current previous, same]
      exact ⟨rfl, after.noting complaint _⟩

theorem expect_agrees (kind : TokenKind) (what : String) :
    Agrees f f (expect kind what : Parse σ τ _) (expect kind what : Parse ρ υ _) := by
  intro state mirror mirrors
  obtain ⟨same, after⟩ := advance_agrees state mirror mirrors
  have kinds := mirrors.kinds (lookahead state).1
  change (lookahead mirror).1 = f (lookahead state).1 at same
  rw [expect_apply, expect_apply, same, kinds]
  split
  · exact ⟨same, after⟩
  · exact ⟨rfl, after.noting _ _⟩

def Round.map (g : α → β) : Round α → Round β
  | .stop => .stop
  | .last value => .last (g value)
  | .more value => .more (g value)

/-- Corresponding rounds make corresponding loops, each with its own number of rounds. -/
theorem Agrees.loop {g : α → β} {round : Parse σ τ (Round α)} {image : Parse ρ υ (Round β)}
    [Steps round] [Advancing round] [Steps image] [Advancing image]
    (rounds : Agrees f (Round.map g) round image) :
    Agrees f (List.map g) (loop round) (Parse.loop image) := by
  intro state mirror mirrors
  obtain ⟨count, -, left⟩ := mirrors.roomy
  induction count using Nat.strongRecOn generalizing state mirror with
  | ind count ih =>
    obtain ⟨same, after⟩ := rounds state mirror mirrors
    rw [loop_apply mirrors.roomy, loop_apply mirrors.mirrorRoomy, same]
    cases ending : (round state).1 with
    | stop => exact ⟨rfl, after⟩
    | last value => exact ⟨rfl, after⟩
    | more value =>
      obtain ⟨fewer, less, leftAfter⟩ := (Advancing.advances state value ending).left left
      obtain ⟨sameRest, afterRest⟩ := ih fewer less _ _ after leftAfter
      exact ⟨congrArg _ sameRest, afterRest⟩

theorem newlines_agrees : Agrees f id (newlines : Parse σ τ _) (newlines : Parse ρ υ _) := by
  have round : Agrees f (Round.map f) (newlineRound : Parse σ τ _) (newlineRound : Parse ρ υ _) :=
    .found (accept?_agrees .line) (.pure rfl) fun _ => .pure rfl
  exact (Agrees.loop round).bind fun _ => .pure (by simp)

theorem skipNewlines_agrees :
    Agrees f id (skipNewlines : Parse σ τ _) (skipNewlines : Parse ρ υ _) :=
  newlines_agrees.bind fun _ => .pure rfl

theorem expectNewline_agrees (what : String) :
    Agrees f id (expectNewline what : Parse σ τ _) (expectNewline what : Parse ρ υ _) :=
  (expect_agrees .line what).bind fun _ => skipNewlines_agrees

section Items
variable {g : α → β} {item : Parse σ τ α} {image : Parse ρ υ β} [Steps item] [Steps image]

theorem separated_agrees (items : Agrees f g item image) :
    Agrees f (List.map g) (separated item) (separated image) := by
  refine Agrees.loop (items.bind fun value => ?_)
  exact .accepted (skipNewlines_agrees.bind fun _ => .pure rfl) (.pure rfl)

theorem elements_agrees (closing : TokenKind) (items : Agrees f g item image) :
    Agrees f (List.map g) (elements closing item) (elements closing image) := by
  refine skipNewlines_agrees.bind fun _ => Agrees.loop (.peeked fun kind => ?_)
  split
  · exact .pure rfl
  · refine items.bind fun value => skipNewlines_agrees.bind fun _ => ?_
    exact .accepted (skipNewlines_agrees.bind fun _ => .pure rfl) (.pure rfl)

end Items

theorem parameterList_agrees :
    Agrees f (List.map f) (parameterList : Parse σ τ _) (parameterList : Parse ρ υ _) :=
  separated_agrees (expect_agrees .name _)

theorem importTail_agrees (keyword : τ) : Agrees f (Stmt.mapTokens f)
    (importTail keyword : Parse σ τ _) (importTail (f keyword) : Parse ρ υ _) := by
  refine (expect_agrees .string _).bind fun path => .accepted ?_ ?_
  · apply skipNewlines_agrees.bind
    intro _
    exact (separated_agrees (expect_agrees .name _)).bind fun imported => .pure (by simp [Stmt.mapTokens])
  · exact .pure (by simp [Stmt.mapTokens])

theorem refuse_agrees :
    Agrees f (Expr.mapTokens f) (refuse : Parse σ τ _) (refuse : Parse ρ υ _) := by
  apply lookahead_agrees.bind
  intro token
  exact (complain_agrees .nestedTooDeeply).bind fun _ => .pure (by simp [Expr.mapTokens])

theorem deeper_agrees {g : α → β} {rule : Parse σ τ α} {image : Parse ρ υ β}
    (agrees : Agrees f g rule image) : Agrees f g (deeper rule) (deeper image) := by
  intro state mirror mirrors
  have further : ParserState.Mirrors f { state with depth := state.depth + 1 }
      { mirror with depth := mirror.depth + 1 } :=
    ⟨mirrors.kinds, mirrors.feed, mirrors.current, mirrors.previous, mirrors.problems,
      congrArg (· + 1) mirrors.depth, mirrors.roomy, mirrors.mirrorRoomy⟩
  obtain ⟨same, after⟩ := agrees _ _ further
  exact ⟨same, after.kinds, after.feed, after.current, after.previous, after.problems,
    congrArg (· - 1) after.depth, after.roomy, after.mirrorRoomy⟩

end Parse

/-- Corresponding rules for the nested constructs. -/
structure Nested.Agrees (f : τ → υ) (nested : Nested σ τ) (image : Nested ρ υ) : Prop where
  expression : Parse.Agrees f (Expr.mapTokens f) nested.expression image.expression
  conditional : Parse.Agrees f (Expr.mapTokens f) nested.conditional image.conditional
  operand : Parse.Agrees f (Expr.mapTokens f) nested.operand image.operand
  statement : Parse.Agrees f (Stmt.mapTokens f) nested.statement image.statement
  classTail : ∀ foreign keyword, Parse.Agrees f (Stmt.mapTokens f)
    (nested.classTail foreign keyword) (image.classTail (foreign.map f) (f keyword))

namespace Parse
variable {nested : Nested σ τ} {image : Nested ρ υ}

theorem varTail_agrees (rules : nested.Agrees f image) (keyword : τ) :
    Agrees f (Stmt.mapTokens f) (varTail nested keyword) (varTail image (f keyword)) := by
  refine (expect_agrees .name _).bind fun name => .accepted ?_ ?_
  · exact rules.expression.bind fun initializer => .pure (by simp [Stmt.mapTokens])
  · exact .pure (by simp [Stmt.mapTokens])

theorem definition_agrees (rules : nested.Agrees f image) :
    Agrees f (Stmt.mapTokens f) (definition nested) (definition image) := by
  refine .found (accept?_agrees .kwClass) ?_ fun keyword => rules.classTail none keyword
  refine .found (accept?_agrees .kwForeign) ?_ fun foreign =>
    (expect_agrees .kwClass _).bind fun keyword => rules.classTail (some foreign) keyword
  refine .found (accept?_agrees .kwImport) ?_ fun keyword => importTail_agrees keyword
  exact .found (accept?_agrees .kwVar) rules.statement fun keyword => varTail_agrees rules keyword

theorem bodyElement_agrees (rules : nested.Agrees f image) :
    Agrees f (Stmt.mapTokens f) (bodyElement nested) (bodyElement image) := by
  apply Agrees.peeked
  intro kind
  split
  case h_6 => exact rules.expression.bind fun expression => .pure (by simp [Stmt.mapTokens])
  all_goals exact rules.statement

theorem groupingTail_agrees (rules : nested.Agrees f image) (leftParen : τ) :
    Agrees f (Expr.mapTokens f) (groupingTail nested leftParen)
      (groupingTail image (f leftParen)) := by
  apply rules.expression.bind
  intro expression
  exact (expect_agrees .rightParen _).bind fun _ => .pure (by simp [Expr.mapTokens])

theorem mapEntry_agrees (rules : nested.Agrees f image) :
    Agrees f (MapEntry.mapTokens f) (mapEntry nested) (mapEntry image) := by
  refine rules.expression.bind fun key => (expect_agrees .colon _).bind fun _ => ?_
  exact rules.expression.bind fun value => .pure (by simp [MapEntry.mapTokens])

theorem ifTail_agrees (rules : nested.Agrees f image) (keyword : τ) :
    Agrees f (Stmt.mapTokens f) (ifTail nested keyword) (ifTail image (f keyword)) := by
  refine (expect_agrees .leftParen _).bind fun _ => skipNewlines_agrees.bind fun _ => ?_
  refine rules.expression.bind fun condition => (expect_agrees .rightParen _).bind fun _ => ?_
  refine rules.statement.bind fun thenBranch => .accepted ?_ (.pure (by simp [Stmt.mapTokens]))
  exact rules.statement.bind fun elseBranch => .pure (by simp [Stmt.mapTokens])

theorem forTail_agrees (rules : nested.Agrees f image) (keyword : τ) :
    Agrees f (Stmt.mapTokens f) (forTail nested keyword) (forTail image (f keyword)) := by
  apply (expect_agrees .leftParen _).bind
  intro _
  apply (expect_agrees .name _).bind
  intro loopVariable
  refine (expect_agrees .kwIn _).bind fun _ => skipNewlines_agrees.bind fun _ => ?_
  refine rules.expression.bind fun iterator => (expect_agrees .rightParen _).bind fun _ => ?_
  exact rules.statement.bind fun body => .pure (by simp [Stmt.mapTokens])

theorem whileTail_agrees (rules : nested.Agrees f image) (keyword : τ) :
    Agrees f (Stmt.mapTokens f) (whileTail nested keyword) (whileTail image (f keyword)) := by
  refine (expect_agrees .leftParen _).bind fun _ => skipNewlines_agrees.bind fun _ => ?_
  refine rules.expression.bind fun condition => (expect_agrees .rightParen _).bind fun _ => ?_
  exact rules.statement.bind fun body => .pure (by simp [Stmt.mapTokens])

theorem returnTail_agrees (rules : nested.Agrees f image) (keyword : τ) :
    Agrees f (Stmt.mapTokens f) (returnTail nested keyword) (returnTail image (f keyword)) := by
  apply Agrees.peeked
  intro kind
  split
  case h_4 => exact rules.expression.bind fun value => .pure (by simp [Stmt.mapTokens])
  all_goals exact .pure (by simp [Stmt.mapTokens])

variable [nested.Steps] [image.Steps]

theorem bodyStatements_agrees (rules : nested.Agrees f image) :
    Agrees f (List.map (Stmt.mapTokens f)) (bodyStatements nested) (bodyStatements image) := by
  refine .accepted (.pure rfl) (Agrees.loop (.peeked fun kind => ?_))
  split
  · exact (expect_agrees .rightBrace _).bind fun _ => .pure rfl
  · refine (definition_agrees rules).bind fun statement => (expectNewline_agrees _).bind fun _ => ?_
    exact .accepted (.pure rfl) (.pure rfl)

theorem bodyTail_agrees (rules : nested.Agrees f image) (parameters : Option (List τ)) :
    Agrees f (Body.mapTokens f) (bodyTail nested parameters)
      (bodyTail image (parameters.map (·.map f))) := by
  refine .accepted (.pure (by simp [Body.mapTokens])) (newlines_agrees.bind fun lines => ?_)
  cases lines with
  | true =>
    exact (bodyStatements_agrees rules).bind fun statements => .pure (by simp [Body.mapTokens])
  | false =>
    refine (bodyElement_agrees rules).bind fun element => skipNewlines_agrees.bind fun _ => ?_
    exact (expect_agrees .rightBrace _).bind fun _ => .pure (by simp [Body.mapTokens])

theorem argumentList_agrees (rules : nested.Agrees f image) :
    Agrees f (List.map (Expr.mapTokens f)) (argumentList nested) (argumentList image) :=
  skipNewlines_agrees.bind fun _ => separated_agrees rules.expression

theorem callArguments_agrees (rules : nested.Agrees f image) :
    Agrees f (Option.map (List.map (Expr.mapTokens f))) (callArguments nested)
      (callArguments image) := by
  refine .accepted (.accepted (.pure rfl) ?_) (.pure rfl)
  apply (argumentList_agrees rules).bind
  intro arguments
  exact (expect_agrees .rightParen _).bind fun _ => .pure rfl

theorem blockParameters_agrees : Agrees f (Option.map (List.map f))
    (blockParameters : Parse σ τ _) (blockParameters : Parse ρ υ _) := by
  refine .accepted (parameterList_agrees.bind fun parameters => ?_) (.pure rfl)
  exact (expect_agrees .pipe _).bind fun _ => .pure rfl

theorem blockArgument_agrees (rules : nested.Agrees f image) :
    Agrees f (Option.map (Body.mapTokens f)) (blockArgument nested) (blockArgument image) := by
  refine .accepted (blockParameters_agrees.bind fun parameters => ?_) (.pure rfl)
  exact (bodyTail_agrees rules parameters).bind fun body => .pure rfl

theorem callTail_agrees (rules : nested.Agrees f image) (receiver : Option (Expr τ)) (name : τ) :
    Agrees f (Expr.mapTokens f) (callTail nested receiver name)
      (callTail image (receiver.map (·.mapTokens f)) (f name)) := by
  apply (callArguments_agrees rules).bind
  intro arguments
  exact (blockArgument_agrees rules).bind fun block => .pure (by simp [Expr.mapTokens])

theorem superTail_agrees (rules : nested.Agrees f image) (keyword : τ) :
    Agrees f (Expr.mapTokens f) (superTail nested keyword) (superTail image (f keyword)) := by
  have rest (name : Option τ) : Agrees f (Expr.mapTokens f)
      (callArguments nested >>= fun arguments => blockArgument nested >>= fun block =>
        Pure.pure (.superCall keyword name arguments block))
      (callArguments image >>= fun arguments => blockArgument image >>= fun block =>
        Pure.pure (.superCall (f keyword) (name.map f) arguments block)) := by
    apply (callArguments_agrees rules).bind
    intro arguments
    exact (blockArgument_agrees rules).bind fun block => .pure (by simp [Expr.mapTokens])
  exact .accepted ((expect_agrees .name _).bind fun name => rest (some name)) (rest none)

theorem listTail_agrees (rules : nested.Agrees f image) (leftBracket : τ) :
    Agrees f (Expr.mapTokens f) (listTail nested leftBracket) (listTail image (f leftBracket)) := by
  apply (elements_agrees .rightBracket rules.expression).bind
  intro items
  exact (expect_agrees .rightBracket _).bind fun _ => .pure (by simp [Expr.mapTokens])

theorem mapTail_agrees (rules : nested.Agrees f image) (leftBrace : τ) :
    Agrees f (Expr.mapTokens f) (mapTail nested leftBrace) (mapTail image (f leftBrace)) := by
  apply (elements_agrees .rightBrace (mapEntry_agrees rules)).bind
  intro entries
  exact (expect_agrees .rightBrace _).bind fun _ => .pure (by simp [Expr.mapTokens])

theorem interpolation_agrees (rules : nested.Agrees f image) :
    Agrees f (Expr.mapTokens f) (interpolation nested) (interpolation image) := by
  have round : Agrees f (Round.map (InterpolationPart.mapTokens f)) (interpolationRound nested)
      (interpolationRound image) :=
    .found (accept?_agrees .interpolation) (.pure rfl) fun segment =>
      rules.expression.bind fun expression => .pure (by simp [Round.map, InterpolationPart.mapTokens])
  apply (Agrees.loop round).bind
  intro parts
  exact (expect_agrees .string _).bind fun _ => .pure (by simp [Expr.mapTokens])

theorem primary_agrees (rules : nested.Agrees f image) :
    Agrees f (Expr.mapTokens f) (primary nested) (primary image) := by
  apply Agrees.peeked
  intro kind
  split
  · exact advance_agrees.bind (groupingTail_agrees rules)
  · exact advance_agrees.bind (listTail_agrees rules)
  · exact advance_agrees.bind (mapTail_agrees rules)
  · exact advance_agrees.bind (callTail_agrees rules none)
  · exact advance_agrees.bind (superTail_agrees rules)
  case h_14 => exact interpolation_agrees rules
  case h_15 =>
    apply lookahead_agrees.bind
    intro token
    exact (complain_agrees _).bind fun _ => .pure (by simp [Expr.mapTokens])
  all_goals exact advance_agrees.bind fun token => .pure (by simp [Expr.mapTokens])

def Link.mapTokens (f : τ → υ) : Link τ → Link υ
  | .subscript leftBracket arguments rightBracket =>
    .subscript (f leftBracket) (arguments.map (·.mapTokens f)) (f rightBracket)
  | .call name arguments block =>
    .call (f name) (arguments.map (·.map (·.mapTokens f))) (block.map (·.mapTokens f))

theorem Link.mapTokens_foldl (f : τ → υ) (links : List (Link τ)) (first : Expr τ) :
    (links.map (mapTokens f)).foldl attach (first.mapTokens f) =
      (links.foldl attach first).mapTokens f := by
  induction links generalizing first with
  | nil => rfl
  | cons link links ih =>
    rw [List.map_cons, List.foldl_cons, List.foldl_cons, ← ih]
    cases link <;> simp [mapTokens, attach, Expr.mapTokens]

theorem link_agrees (rules : nested.Agrees f image) :
    Agrees f (Round.map (Link.mapTokens f)) (link nested) (link image) := by
  refine .found (accept?_agrees .leftBracket) (.accepted ?_ (.pure rfl)) fun leftBracket => ?_
  · refine (expect_agrees .name _).bind fun name => (callArguments_agrees rules).bind fun arguments => ?_
    exact (blockArgument_agrees rules).bind fun block => .pure rfl
  · apply (argumentList_agrees rules).bind
    intro arguments
    exact (expect_agrees .rightBracket _).bind fun _ => .pure rfl

theorem chain_agrees (rules : nested.Agrees f image) :
    Agrees f (Expr.mapTokens f) (chain nested) (chain image) := by
  refine (primary_agrees rules).bind fun first => (Agrees.loop (link_agrees rules)).bind fun links => ?_
  exact .pure (Link.mapTokens_foldl f links first)

theorem operand_agrees (rules : nested.Agrees f image) :
    Agrees f (Expr.mapTokens f) (operand nested) (operand image) := by
  apply Agrees.peeked
  intro kind
  split
  · apply advance_agrees.bind
    intro operator
    exact rules.operand.bind fun operand => .pure (by simp [Expr.mapTokens])
  · exact chain_agrees rules

theorem infixChain_agrees (rules : nested.Agrees f image) (levels : List (List TokenKind))
    (before : ∀ operators ∈ levels, .eof ∉ operators) :
    Agrees f (Expr.mapTokens f) (infixChain nested levels) (infixChain image levels) := by
  induction levels with
  | nil => exact operand_agrees rules
  | cons operators tighter ih =>
    have operand := ih fun operators member => before operators (List.mem_cons_of_mem _ member)
    have advancing := infixRound_advancing (before operators List.mem_cons_self)
      (infixChain nested tighter)
    have imageAdvancing := infixRound_advancing (before operators List.mem_cons_self)
      (infixChain image tighter)
    have round : Agrees f (Round.map (Prod.map f (Expr.mapTokens f)))
        (infixRound operators (infixChain nested tighter))
        (infixRound operators (infixChain image tighter)) :=
      .found (acceptAny?_agrees operators) (.pure rfl) fun operator =>
        skipNewlines_agrees.bind fun _ => operand.bind fun right => .pure rfl
    refine operand.bind fun first => (Agrees.loop round).bind fun links => .pure ?_
    induction links generalizing first with
    | nil => rfl
    | cons link links ih =>
      rw [List.map_cons, List.foldl_cons, List.foldl_cons, ← ih]
      simp [Expr.mapTokens]

theorem conditional_agrees (rules : nested.Agrees f image) :
    Agrees f (Expr.mapTokens f) (conditional nested) (conditional image) := by
  apply (infixChain_agrees rules _ (by decide)).bind
  intro condition
  refine .found (accept?_agrees .question) (.pure rfl) fun question => ?_
  refine rules.conditional.bind fun thenBranch => (expect_agrees .colon _).bind fun colon => ?_
  exact rules.expression.bind fun elseBranch => .pure (by simp [Expr.mapTokens])

theorem assignment_agrees (rules : nested.Agrees f image) :
    Agrees f (Expr.mapTokens f) (assignment nested) (assignment image) := by
  refine (conditional_agrees rules).bind fun target => ?_
  refine .found (accept?_agrees .equal) (.pure rfl) fun equal => ?_
  exact rules.expression.bind fun value => .pure (by simp [Expr.mapTokens])

theorem blockTail_agrees (rules : nested.Agrees f image) (leftBrace : τ) :
    Agrees f (Stmt.mapTokens f) (blockTail nested leftBrace) (blockTail image (f leftBrace)) := by
  have round : Agrees f (Round.map (Stmt.mapTokens f)) (blockRound nested) (blockRound image) := by
    apply Agrees.peeked
    intro kind
    split
    · exact .pure rfl
    · refine (definition_agrees rules).bind fun statement => .peeked fun kind => ?_
      split
      · exact .pure rfl
      · exact (expectNewline_agrees _).bind fun _ => .pure rfl
  refine skipNewlines_agrees.bind fun _ => (Agrees.loop round).bind fun statements => ?_
  exact (expect_agrees .rightBrace _).bind fun _ => .pure (by simp [Stmt.mapTokens])

theorem statement_agrees (rules : nested.Agrees f image) :
    Agrees f (Stmt.mapTokens f) (statement nested) (statement image) := by
  refine .found (accept?_agrees .kwBreak) ?_ fun _ => .pure (by simp [Stmt.mapTokens])
  refine .found (accept?_agrees .kwIf) ?_ (ifTail_agrees rules)
  refine .found (accept?_agrees .kwFor) ?_ (forTail_agrees rules)
  refine .found (accept?_agrees .kwWhile) ?_ (whileTail_agrees rules)
  refine .found (accept?_agrees .kwReturn) ?_ (returnTail_agrees rules)
  refine .found (accept?_agrees .leftBrace) ?_ (blockTail_agrees rules)
  exact rules.expression.bind fun expression => .pure (by simp [Stmt.mapTokens])

def Signature.mapTokens (f : τ → υ) (signature : Signature τ) : Signature υ :=
  ⟨f signature.name, signature.parameters.map (·.map f), signature.takesList⟩

theorem signature_agrees : Agrees f (Signature.mapTokens f)
    (signature : Parse σ τ _) (signature : Parse ρ υ _) := by
  refine .found (accept?_agrees .leftBracket) (.peeked fun kind => ?_) fun leftBracket => ?_
  · split
    · exact advance_agrees.bind fun operator => .pure rfl
    · refine .found (acceptAny?_agrees _) ?_ fun operator => .pure rfl
      exact (expect_agrees .name _).bind fun name => .pure rfl
  · apply parameterList_agrees.bind
    intro parameters
    exact (expect_agrees .rightBracket _).bind fun _ => .pure rfl

theorem methodParameters_agrees (signature : Signature τ) : Agrees f (Option.map (List.map f))
    (methodParameters signature : Parse σ τ _)
    (methodParameters (signature.mapTokens f) : Parse ρ υ _) := by
  have rest : Agrees f (Option.map (List.map f))
      (skipNewlines >>= fun _ => accept .rightParen >>= fun empty =>
        if empty then Pure.pure (some []) else parameterList >>= fun parameters =>
          skipNewlines >>= fun _ => expect .rightParen "')' after parameters" >>= fun _ =>
            Pure.pure (some parameters) : Parse σ τ (Option (List τ)))
      (skipNewlines >>= fun _ => accept .rightParen >>= fun empty =>
        if empty then Pure.pure (some []) else parameterList >>= fun parameters =>
          skipNewlines >>= fun _ => expect .rightParen "')' after parameters" >>= fun _ =>
            Pure.pure (some parameters) : Parse ρ υ (Option (List υ))) := by
    refine skipNewlines_agrees.bind fun _ => .accepted (.pure rfl) ?_
    refine parameterList_agrees.bind fun parameters => skipNewlines_agrees.bind fun _ => ?_
    exact (expect_agrees .rightParen _).bind fun _ => .pure rfl
  refine .accepted ?_ (.pure rfl)
  change Agrees _ _ (if (!signature.takesList) then _ else _) (if (!signature.takesList) then _ else _)
  split
  · exact (complain_agrees _).bind fun _ => rest
  · exact rest

theorem method_agrees (rules : nested.Agrees f image) :
    Agrees f (Method.mapTokens f) (method nested) (method image) := by
  apply (accept?_agrees .kwForeign).bind
  intro foreign
  apply (accept?_agrees .kwStatic).bind
  intro static
  apply (accept?_agrees .kwConstruct).bind
  intro construct
  apply signature_agrees.bind
  intro signature
  apply (methodParameters_agrees signature).bind
  intro parameters
  cases foreign with
  | some keyword => exact .pure (by simp [Method.mapTokens, Signature.mapTokens])
  | none =>
    apply (expect_agrees .leftBrace _).bind
    intro _
    apply (bodyTail_agrees rules parameters).bind
    intro body
    exact .pure (by simp [Method.mapTokens, Signature.mapTokens])

theorem superclass_agrees :
    Agrees f (Option.map f) (superclass : Parse σ τ _) (superclass : Parse ρ υ _) :=
  .accepted ((expect_agrees .name _).bind fun _ => .pure rfl) (.pure rfl)

theorem methods_agrees (rules : nested.Agrees f image) :
    Agrees f (List.map (Method.mapTokens f)) (methods nested) (methods image) := by
  refine Agrees.loop (.accepted (.pure rfl) (.peeked fun kind => ?_))
  split
  · exact (expect_agrees .rightBrace _).bind fun _ => .pure rfl
  · refine (method_agrees rules).bind fun method => .accepted (.pure rfl) ?_
    exact (expectNewline_agrees _).bind fun _ => .pure rfl

theorem classTail_agrees (rules : nested.Agrees f image) (foreign : Option τ) (keyword : τ) :
    Agrees f (Stmt.mapTokens f) (classTail nested foreign keyword)
      (classTail image (foreign.map f) (f keyword)) := by
  refine (expect_agrees .name _).bind fun name => superclass_agrees.bind fun superclass => ?_
  refine (expect_agrees .leftBrace _).bind fun _ => skipNewlines_agrees.bind fun _ => ?_
  exact (methods_agrees rules).bind fun methods => .pure (by simp [Stmt.mapTokens])

end Parse

theorem Nested.within_agrees (levels : Nat) :
    (Nested.within levels : Nested σ τ).Agrees f (Nested.within levels : Nested ρ υ) := by
  induction levels with
  | zero =>
    have refused : Parse.Agrees f (Stmt.mapTokens f) (Stmt.expression <$> Parse.refuse : Parse σ τ _)
        (Stmt.expression <$> Parse.refuse : Parse ρ υ _) :=
      Parse.refuse_agrees.map fun _ => by simp only [Stmt.mapTokens]
    exact ⟨Parse.refuse_agrees, Parse.refuse_agrees, Parse.refuse_agrees, refused,
      fun _ _ => refused⟩
  | succ levels rules =>
    exact ⟨Parse.deeper_agrees (Parse.assignment_agrees rules),
      Parse.deeper_agrees (Parse.conditional_agrees rules),
      Parse.deeper_agrees (Parse.operand_agrees rules),
      Parse.deeper_agrees (Parse.statement_agrees rules),
      fun foreign keyword => Parse.deeper_agrees (Parse.classTail_agrees rules foreign keyword)⟩

theorem Parse.moduleRound_agrees (levels : Nat) : Parse.Agrees f (Round.map (Stmt.mapTokens f))
    (moduleRound (Nested.within levels) : Parse σ τ _)
    (moduleRound (Nested.within levels) : Parse ρ υ _) := by
  apply Agrees.peeked
  intro kind
  split
  · exact .pure rfl
  · refine (definition_agrees (Nested.within_agrees levels)).bind fun statement =>
      .peeked fun kind => ?_
    split
    · exact .pure rfl
    · exact (expectNewline_agrees _).bind fun _ => .pure rfl

/-- A module read from corresponding feeds has corresponding statements and problems. -/
theorem Parse.module_agrees : Parse.Agrees f (Module.mapTokens f)
    (Parse.module : Parse σ τ (Module τ)) (Parse.module : Parse ρ υ (Module υ)) := by
  intro state mirror mirrors
  have rest (levels : Nat) : Parse.Agrees f (Module.mapTokens f)
      (skipNewlines >>= fun _ => loop (moduleRound (Nested.within levels)) >>= fun statements =>
        expect .eof "end of input" >>= fun _ => Pure.pure ⟨statements⟩ : Parse σ τ (Module τ))
      (skipNewlines >>= fun _ => loop (moduleRound (Nested.within levels)) >>= fun statements =>
        expect .eof "end of input" >>= fun _ => Pure.pure ⟨statements⟩ : Parse ρ υ (Module υ)) := by
    refine skipNewlines_agrees.bind fun _ =>
      (Agrees.loop (moduleRound_agrees levels)).bind fun statements => ?_
    exact (expect_agrees .eof _).bind fun _ => .pure rfl
  have levels := rest (Nested.limit - state.depth) state mirror mirrors
  have same : Nested.limit - mirror.depth = Nested.limit - state.depth := by rw [mirrors.depth]
  simp only [Parse.module, bind_apply, get_apply, same] at levels ⊢
  exact levels

end WrenFront
