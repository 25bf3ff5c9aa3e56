import WrenFront.Proofs.CleanRuns

/-! What is read without a complaint follows the grammar. Each rule of the parser yields a derivation
of the grammar's rule of that name, given that the nested rules do; the levels of nesting that a
derivation uses are those that the parser had left. -/

set_option synthInstance.maxSize 1024

namespace WrenFront
open Grammar (front Newlines Lines Names Expression Conditional Operand Statement ClassTail)

namespace Parse
variable {α : Type}

/-- A run of newlines, with the tokens that it is made of. -/
def NewlineRun (input rest tokens : List Token) : Prop :=
  if tokens.isEmpty then rest = input else Lines input rest

theorem newlineRound_yields (input : List Token) :
    Yields input newlineRound (Round.Extends NewlineRun input) := by
  refine .found rfl (fun _ => .pure rfl) fun newline left cons line => .pure ?_
  intro rest tokens others
  refine ⟨newline, left, cons, line, ?_⟩
  unfold NewlineRun at others
  split at others
  · exact others ▸ .none
  · obtain ⟨second, after, rfl, lineToo, more⟩ := others
    exact .more lineToo more

theorem newlines_yields (input : List Token) : Yields input newlines fun found rest =>
    if found then Lines input rest else rest = input := by
  apply (Yields.loop newlineRound_yields input).bind
  intro tokens rest holds
  apply Yields.pure
  cases tokens <;> simpa [NewlineRun] using holds

theorem skipNewlines_yields (input : List Token) :
    Yields input skipNewlines fun _ rest => Newlines input rest := by
  apply (newlines_yields input).bind
  intro found rest holds
  apply Yields.pure
  cases found with
  | false => exact holds ▸ .none
  | true =>
    obtain ⟨newline, after, rfl, line, others⟩ := holds
    exact .more line others

theorem expectNewline_yields (what : String) (input : List Token) :
    Yields input (expectNewline what) fun _ rest => Lines input rest := by
  refine .expecting rfl fun newline after cons line => ?_
  exact (skipNewlines_yields after).mono fun _ rest others => ⟨newline, after, cons, line, others⟩

section Items
variable {item : Parse Reel Token α} [Steps item] {one : List Token → List Token → α → Prop}
  (rule : List Token → List Token → List α → Prop)

theorem separated_yields (items : ∀ input, Yields input item fun value rest => one input rest value)
    (last : ∀ {input rest value}, one input rest value → rule input rest [value])
    (more : ∀ {input comma middle start rest value values}, one input (comma :: middle) value →
      comma.kind = .comma → Newlines middle start → rule start rest values →
        rule input rest (value :: values)) (input : List Token) :
    Yields input (separated item) fun values rest => rule input rest values := by
  refine Yields.loop (fun input => ?_) input
  apply (items input).bind
  intro value middle holds
  refine .accepted rfl (fun comma after cons separated => ?_) fun _ => .pure (last holds)
  apply (skipNewlines_yields after).bind
  intro _ start lines
  apply Yields.pure
  intro rest values others
  subst cons
  exact more holds separated lines others

theorem elements_yields (closing : TokenKind)
    (items : ∀ input, Yields input item fun value rest => one input rest value)
    (none : ∀ {input}, rule input input [])
    (last : ∀ {input middle rest value}, one input middle value → Newlines middle rest →
      rule input rest [value])
    (more : ∀ {input middle comma after start rest value values}, one input middle value →
      Newlines middle (comma :: after) → comma.kind = .comma → Newlines after start →
        rule start rest values → rule input rest (value :: values)) (input : List Token) :
    Yields input (elements closing item) fun values rest =>
      ∃ start, Newlines input start ∧ rule start rest values := by
  apply (skipNewlines_yields input).bind
  intro _ start lines
  refine (Yields.loop (fun input => ?_) start).mono fun values rest holds => ⟨start, lines, holds⟩
  apply Yields.peeked
  split
  · exact .pure none
  · apply (items input).bind
    intro value middle holds
    apply (skipNewlines_yields middle).bind
    intro _ after linesAfter
    refine .accepted rfl (fun comma next cons separated => ?_) fun _ =>
      .pure (last holds linesAfter)
    apply (skipNewlines_yields next).bind
    intro _ begin linesNext
    apply Yields.pure
    intro rest values others
    subst cons
    exact more holds linesAfter separated linesNext others

end Items

theorem name_yields (what : String) (input : List Token) :
    Yields input (expect .name what) fun name rest => input = name :: rest ∧ name.kind = .name := by
  have same : Yields input (expect .name what >>= Pure.pure) fun name rest =>
      input = name :: rest ∧ name.kind = .name :=
    .expecting rfl fun name rest cons named => .pure ⟨cons, named⟩
  exact same

theorem names_yields (what : String) (input : List Token) :
    Yields input (separated (expect .name what)) fun names rest => Names input rest names := by
  refine separated_yields Names (name_yields what) ?_ ?_ input
  · rintro input rest name ⟨rfl, named⟩
    exact .last named
  · rintro input comma middle start rest name names ⟨rfl, named⟩ separated lines others
    exact .more named separated lines others

end Parse

/-- The nested rules follow the grammar, within that many levels. What is left after an expression
is not an equal sign, or the expression would have taken it. -/
structure Nested.Sound (nested : Nested Reel Token) (levels : Nat) : Prop where
  expression : ∀ input, Parse.Yields input nested.expression fun expression rest =>
    Expression levels input rest expression ∧ front rest ≠ .equal
  conditional : ∀ input, Parse.Yields input nested.conditional fun expression rest =>
    ∃ fewer, levels = fewer + 1 ∧ Conditional fewer input rest expression
  operand : ∀ input, Parse.Yields input nested.operand fun expression rest =>
    ∃ fewer, levels = fewer + 1 ∧ Operand fewer input rest expression
  statement : ∀ input, Parse.Yields input nested.statement fun statement rest =>
    Statement levels input rest statement
  classTail : ∀ foreign keyword input, Parse.Yields input (nested.classTail foreign keyword)
    fun statement rest => ClassTail levels foreign keyword input rest statement

namespace Parse
open Grammar

theorem importTail_yields {keyword : Token} (isKeyword : keyword.kind = .kwImport) (levels : Nat)
    (input : List Token) : Yields input (importTail keyword) fun statement rest =>
      Definition levels (keyword :: input) rest statement := by
  refine .expecting rfl ?_
  intro path after cons isPath
  subst cons
  refine .accepted rfl (fun forKeyword next cons isFor => ?_) fun _ =>
    .pure (.importAll isKeyword isPath)
  subst cons
  apply (skipNewlines_yields next).bind
  intro _ start lines
  apply (names_yields _ start).bind
  intro names rest imported
  apply Yields.pure
  exact .importNames isKeyword isPath isFor lines imported

section Rules
variable {nested : Nested Reel Token} {levels : Nat}

theorem expression_yields (sound : nested.Sound levels) (input : List Token) :
    Yields input nested.expression fun expression rest =>
      Expression levels input rest expression :=
  (sound.expression input).mono fun _ _ holds => holds.1

variable [nested.Steps]

theorem varTail_yields (sound : nested.Sound levels) {keyword : Token}
    (isKeyword : keyword.kind = .kwVar) (input : List Token) :
    Yields input (varTail nested keyword) fun statement rest =>
      Definition levels (keyword :: input) rest statement := by
  refine .expecting rfl ?_
  intro name after cons named
  subst cons
  refine .accepted rfl (fun equal next cons assigns => ?_) fun _ =>
    .pure (.declared isKeyword named)
  subst cons
  apply (expression_yields sound next).bind
  intro value rest initializer
  apply Yields.pure
  exact .initialized isKeyword named assigns initializer

theorem definition_yields (sound : nested.Sound levels) (input : List Token) :
    Yields input (definition nested) fun statement rest =>
      Definition levels input rest statement := by
  refine .found rfl (fun _ => ?_) fun keyword after cons isKeyword => ?_
  · refine .found rfl (fun _ => ?_) fun foreign after cons isForeign => ?_
    · refine .found rfl (fun _ => ?_) fun keyword after cons isKeyword => ?_
      · refine .found rfl (fun _ => ?_) fun keyword after cons isKeyword => ?_
        · exact (sound.statement input).mono fun _ _ value => .statement value
        · exact cons ▸ varTail_yields sound isKeyword after
      · exact cons ▸ importTail_yields isKeyword levels after
    · subst cons
      refine .expecting rfl ?_
      intro keyword rest cons isKeyword
      subst cons
      exact (sound.classTail _ keyword rest).mono fun _ _ tail =>
        .foreignClass isForeign isKeyword tail
  · subst cons
    exact (sound.classTail none keyword after).mono fun _ _ tail => .ownClass isKeyword tail

/-- Both ways out of the loop: a closing brace, or nothing after the last newline but one. -/
theorem bodyRound_yields (sound : nested.Sound levels) (input : List Token) :
    Yields input (bodyRound nested) (Round.Extends
      (fun input rest statements => ∃ right, right.kind = .rightBrace ∧
        LineStatements levels input (right :: rest) statements) input) := by
  apply Yields.peeked
  split
  · next atEnd =>
    refine .expecting rfl fun right rest cons closed => ?_
    rw [cons] at atEnd
    exact absurd (atEnd.symm.trans closed) (by decide)
  · apply (definition_yields sound input).bind
    intro statement middle value
    apply (expectNewline_yields _ middle).bind
    intro _ start lines
    refine .accepted rfl (fun right rest cons closed => .pure ?_) fun _ => .pure ?_
    · subst cons
      exact ⟨right, closed, .more value lines .none⟩
    · rintro rest statements ⟨right, closed, others⟩
      exact ⟨right, closed, .more value lines others⟩

theorem bodyStatements_yields (sound : nested.Sound levels) (input : List Token) :
    Yields input (bodyStatements nested) fun statements rest =>
      ∃ right, right.kind = .rightBrace ∧ LineStatements levels input (right :: rest) statements := by
  refine .accepted rfl (fun right rest cons closed => .pure ?_) fun _ => ?_
  · subst cons
    exact ⟨right, closed, .none⟩
  · exact Yields.loop (bodyRound_yields sound) input

theorem bodyElement_yields (sound : nested.Sound levels) (input : List Token) :
    Yields input (bodyElement nested) fun element rest => Element levels input rest element := by
  apply Yields.peeked
  split
  case h_6 =>
    apply (expression_yields sound input).bind
    intro expression rest value
    apply Yields.pure
    exact .expression value
  all_goals
    next begins =>
    exact (sound.statement input).mono fun _ _ value => .statement (begins ▸ by decide) value

theorem bodyTail_yields (sound : nested.Sound levels) (parameters : Option (List Token))
    (input : List Token) : Yields input (bodyTail nested parameters) fun body rest =>
      Content levels parameters input rest body := by
  refine .accepted rfl (fun right rest cons closed => .pure ?_) fun _ => ?_
  · subst cons
    exact .empty closed
  apply (newlines_yields input).bind
  intro found start lines
  cases found with
  | true =>
    apply (bodyStatements_yields sound start).bind
    intro statements rest holds
    apply Yields.pure
    obtain ⟨right, closed, items⟩ := holds
    exact .lines lines items closed
  | false =>
    have same : start = input := lines
    subst same
    apply (bodyElement_yields sound start).bind
    intro element middle value
    apply (skipNewlines_yields middle).bind
    intro _ after lines
    refine .expecting rfl ?_
    intro right rest cons closed
    subst cons
    apply Yields.pure
    exact .single value lines closed

theorem argumentList_yields (sound : nested.Sound levels) (input : List Token) :
    Yields input (argumentList nested) fun arguments rest =>
      ∃ start, Newlines input start ∧ Expressions levels start rest arguments := by
  apply (skipNewlines_yields input).bind
  intro _ start lines
  refine (separated_yields (Expressions levels) (expression_yields sound) .last .more start).mono ?_
  exact fun arguments rest items => ⟨start, lines, items⟩

theorem callArguments_yields (sound : nested.Sound levels) (input : List Token) :
    Yields input (callArguments nested) fun arguments rest =>
      CallArguments levels input rest arguments := by
  refine .accepted rfl (fun left after cons opened => ?_) fun _ => .pure .none
  subst cons
  refine .accepted rfl (fun right rest cons closed => .pure ?_) fun _ => ?_
  · subst cons
    exact .empty opened closed
  apply (argumentList_yields sound after).bind
  intro arguments middle holds
  obtain ⟨start, lines, items⟩ := holds
  refine .expecting rfl ?_
  intro right rest cons closed
  subst cons
  apply Yields.pure
  exact .some opened lines items closed

theorem blockParameters_yields (input : List Token) :
    Yields input blockParameters fun parameters rest => BlockParameters input rest parameters := by
  refine .accepted rfl (fun left after cons opened => ?_) fun _ => .pure .none
  subst cons
  apply (names_yields _ after).bind
  intro names middle holds
  refine .expecting rfl ?_
  intro right rest cons closed
  subst cons
  apply Yields.pure
  exact .some opened holds closed

theorem blockArgument_yields (sound : nested.Sound levels) (input : List Token) :
    Yields input (blockArgument nested) fun block rest => BlockArgument levels input rest block := by
  refine .accepted rfl (fun left after cons opened => ?_) fun _ => .pure .none
  subst cons
  apply (blockParameters_yields after).bind
  intro parameters middle bars
  apply (bodyTail_yields sound parameters middle).bind
  intro body rest content
  apply Yields.pure
  exact .some opened bars content

theorem callTail_yields (sound : nested.Sound levels) {name : Token} (named : name.kind = .name)
    (input : List Token) : Yields input (callTail nested none name) fun expression rest =>
      Primary levels (name :: input) rest expression := by
  apply (callArguments_yields sound input).bind
  intro arguments middle list
  apply (blockArgument_yields sound middle).bind
  intro block rest last
  apply Yields.pure
  exact .call named list last

theorem superTail_yields (sound : nested.Sound levels) {keyword : Token}
    (isKeyword : keyword.kind = .kwSuper) (input : List Token) :
    Yields input (superTail nested keyword) fun expression rest =>
      Primary levels (keyword :: input) rest expression := by
  have tail (name : Option Token) (input : List Token) : Yields input
      (callArguments nested >>= fun arguments => blockArgument nested >>= fun block =>
        Pure.pure (Expr.superCall keyword name arguments block))
      fun expression rest => ∃ middle arguments block,
        CallArguments levels input middle arguments ∧ BlockArgument levels middle rest block ∧
          expression = .superCall keyword name arguments block := by
    apply (callArguments_yields sound input).bind
    intro arguments middle list
    apply (blockArgument_yields sound middle).bind
    intro block rest last
    apply Yields.pure
    exact ⟨middle, arguments, block, list, last, rfl⟩
  refine .accepted rfl (fun dot after cons dotted => ?_) fun undotted => ?_
  · subst cons
    refine .expecting rfl ?_
    intro name next cons named
    subst cons
    refine (tail (some name) next).mono ?_
    rintro _ rest ⟨middle, arguments, block, list, last, rfl⟩
    exact .superMethod isKeyword dotted named list last
  · refine (tail none input).mono ?_
    rintro _ rest ⟨middle, arguments, block, list, last, rfl⟩
    exact .superCall isKeyword undotted list last

theorem groupingTail_yields (sound : nested.Sound levels) {left : Token}
    (opened : left.kind = .leftParen) (input : List Token) :
    Yields input (groupingTail nested left) fun expression rest =>
      Primary levels (left :: input) rest expression := by
  apply (expression_yields sound input).bind
  intro expression middle value
  refine .expecting rfl ?_
  intro right rest cons closed
  subst cons
  apply Yields.pure
  exact .grouping opened value closed

theorem listTail_yields (sound : nested.Sound levels) {left : Token}
    (opened : left.kind = .leftBracket) (input : List Token) :
    Yields input (listTail nested left) fun expression rest =>
      Primary levels (left :: input) rest expression := by
  have elements := elements_yields (Elements levels) .rightBracket (expression_yields sound) .none
    .last .more input
  apply elements.bind
  intro items middle holds
  obtain ⟨start, lines, items⟩ := holds
  refine .expecting rfl ?_
  intro right rest cons closed
  subst cons
  apply Yields.pure
  exact .list opened lines items closed

theorem mapEntry_yields (sound : nested.Sound levels) (input : List Token) :
    Yields input (mapEntry nested) fun entry rest => KeyValue levels input rest entry := by
  apply (expression_yields sound input).bind
  intro key middle first
  refine .expecting rfl ?_
  intro colon after cons divides
  subst cons
  apply (expression_yields sound after).bind
  intro value rest second
  apply Yields.pure
  exact .mk first divides second

theorem mapTail_yields (sound : nested.Sound levels) {left : Token}
    (opened : left.kind = .leftBrace) (input : List Token) :
    Yields input (mapTail nested left) fun expression rest =>
      Primary levels (left :: input) rest expression := by
  have elements := elements_yields (Entries levels) .rightBrace (mapEntry_yields sound) .none
    .last .more input
  apply elements.bind
  intro items middle holds
  obtain ⟨start, lines, items⟩ := holds
  refine .expecting rfl ?_
  intro right rest cons closed
  subst cons
  apply Yields.pure
  exact .map opened lines items closed

/-- The segments that a loop has read. None are read only where none begins. -/
def PartRun (levels : Nat) (input rest : List Token) (parts : List (InterpolationPart Token)) :
    Prop :=
  if parts.isEmpty then rest = input ∧ front input ≠ .interpolation else Parts levels input rest parts

theorem interpolationRound_yields (sound : nested.Sound levels) (input : List Token) :
    Yields input (interpolationRound nested) (Round.Extends (PartRun levels) input) := by
  refine .found rfl (fun other => .pure ⟨rfl, other⟩) fun segment after cons opens => ?_
  subst cons
  apply (expression_yields sound after).bind
  intro expression middle value
  apply Yields.pure
  intro rest parts others
  change Parts levels (segment :: after) rest _
  unfold PartRun at others
  split at others
  · next empty =>
    rw [List.isEmpty_iff.1 empty, others.1]
    exact .last opens value
  · exact .more opens value others

theorem interpolation_yields (sound : nested.Sound levels) {input : List Token}
    (opens : front input = .interpolation) : Yields input (interpolation nested)
      fun expression rest => Primary levels input rest expression := by
  have parts := Yields.loop (interpolationRound_yields sound) input
  apply parts.bind
  intro parts middle holds
  refine .expecting rfl ?_
  intro last rest cons ends
  subst cons
  apply Yields.pure
  unfold PartRun at holds
  split at holds
  · exact absurd opens holds.2
  · exact .interpolation holds ends

theorem primary_yields (sound : nested.Sound levels) (input : List Token) :
    Yields input (primary nested) fun expression rest =>
      Primary levels input rest expression := by
  apply Yields.peeked
  split
  case h_1 seen =>
    exact .advanced seen rfl fun left rest cons opened =>
      cons ▸ groupingTail_yields sound opened rest
  case h_2 seen =>
    exact .advanced seen rfl fun left rest cons opened =>
      cons ▸ listTail_yields sound opened rest
  case h_3 seen =>
    exact .advanced seen rfl fun left rest cons opened =>
      cons ▸ mapTail_yields sound opened rest
  case h_4 seen =>
    exact .advanced seen rfl fun name rest cons named =>
      cons ▸ callTail_yields sound named rest
  case h_5 seen =>
    exact .advanced seen rfl fun keyword rest cons isKeyword =>
      cons ▸ superTail_yields sound isKeyword rest
  case h_14 seen => exact interpolation_yields sound seen
  case h_15 => exact .missing
  all_goals
    next seen =>
    refine .advanced seen rfl fun token rest cons kind => .pure ?_
    subst cons
    exact .literal (by simp only [literal?, kind])

/-- Links that can be attached to any chain that ends where they begin. -/
def LinkRun (levels : Nat) (input rest : List Token) (links : List (Link Token)) : Prop :=
  ∀ origin first, Chain levels origin input first →
    Chain levels origin rest (links.foldl Link.attach first)

theorem link_yields (sound : nested.Sound levels) (input : List Token) :
    Yields input (link nested) (Round.Extends (LinkRun levels) input) := by
  refine .found rfl (fun _ => ?_) fun left after cons opened => ?_
  · refine .accepted rfl (fun dot after cons dotted => ?_) fun _ => .pure fun _ _ chain => chain
    subst cons
    refine .expecting rfl ?_
    intro name next cons named
    subst cons
    apply (callArguments_yields sound next).bind
    intro arguments middle list
    apply (blockArgument_yields sound middle).bind
    intro block rest last
    apply Yields.pure
    intro final links others origin first chain
    exact others origin _ (.call chain dotted named list last)
  · subst cons
    apply (argumentList_yields sound after).bind
    intro arguments middle holds
    obtain ⟨start, lines, items⟩ := holds
    refine .expecting rfl ?_
    intro right rest cons closed
    subst cons
    apply Yields.pure
    intro final links others origin first chain
    exact others origin _ (.subscript chain opened lines items closed)

theorem chain_yields (sound : nested.Sound levels) (input : List Token) :
    Yields input (chain nested) fun expression rest => Chain levels input rest expression := by
  apply (primary_yields sound input).bind
  intro first middle value
  apply (Yields.loop (link_yields sound) middle).bind
  intro links rest holds
  apply Yields.pure
  exact holds input first (.primary value)

theorem operand_yields (sound : nested.Sound levels) (input : List Token) :
    Yields input (operand nested) fun expression rest => Operand levels input rest expression := by
  apply Yields.peeked
  split
  · next known =>
    have before : front input ≠ .eof := fun atEnd => by rw [atEnd] at known; contradiction
    refine .advanced rfl (beq_false_of_ne before) fun operator after cons same => ?_
    subst cons
    apply (sound.operand after).bind
    intro expression rest holds
    apply Yields.pure
    obtain ⟨fewer, rfl, value⟩ := holds
    exact .negated known value
  · exact (chain_yields sound input).mono fun _ _ value => .chain value

/-- Operators and operands that can be joined to any infix expression that ends where they begin. -/
def InfixRun (levels : Nat) (operators : List TokenKind) (tighter : List (List TokenKind))
    (input rest : List Token) (links : List (Token × Expr Token)) : Prop :=
  ∀ origin first, Infix levels (operators :: tighter) origin input first →
    Infix levels (operators :: tighter) origin rest
      (links.foldl (fun left (operator, right) => .infixOp left operator right) first)

theorem infixChain_yields (sound : nested.Sound levels) (operators : List (List TokenKind))
    (before : ∀ level ∈ operators, .eof ∉ level) (input : List Token) :
    Yields input (infixChain nested operators) fun expression rest =>
      Infix levels operators input rest expression := by
  induction operators generalizing input with
  | nil => exact (operand_yields sound input).mono fun _ _ value => .operand value
  | cons level tighter ih =>
    have here := before level List.mem_cons_self
    have advancing := infixRound_advancing here (infixChain nested tighter)
    have operand := ih fun level member => before level (List.mem_cons_of_mem _ member)
    have round (input : List Token) : Yields input (infixRound level (infixChain nested tighter))
        (Round.Extends (InfixRun levels level tighter) input) := by
      refine .foundAny here (fun _ => .pure fun _ _ value => value) fun operator after cons joins => ?_
      subst cons
      apply (skipNewlines_yields after).bind
      intro _ start lines
      apply (operand start).bind
      intro right middle second
      apply Yields.pure
      intro rest links others origin first value
      exact others origin _ (.operator value joins lines second)
    apply (operand input).bind
    intro first middle value
    apply (Yields.loop round middle).bind
    intro links rest holds
    apply Yields.pure
    exact holds input first (.tighter value)

/-- A conditional has taken an equal sign that follows it. -/
theorem conditional_yields (sound : nested.Sound levels) (input : List Token) :
    Yields input (conditional nested) fun expression rest =>
      Conditional levels input rest expression ∧
        (expression.isConditional = true → front rest ≠ .equal) := by
  apply (infixChain_yields sound _ (by decide) input).bind
  intro condition middle test
  refine .found rfl (fun _ => .pure ⟨.plain test, ?_⟩) fun question after cons asks => ?_
  · simp [test.plain]
  · subst cons
    apply (sound.conditional after).bind
    intro thenBranch next holds
    obtain ⟨fewer, rfl, positive⟩ := holds
    refine .expecting rfl ?_
    intro colon second cons divides
    subst cons
    apply (sound.expression second).bind
    intro elseBranch rest holds
    apply Yields.pure
    obtain ⟨negative, other⟩ := holds
    exact ⟨.choice test asks positive divides negative, fun _ => other⟩

theorem assignment_yields (sound : nested.Sound levels) (input : List Token) :
    Yields input (assignment nested) fun expression rest =>
      Expression (levels + 1) input rest expression ∧ front rest ≠ .equal := by
  apply (conditional_yields sound input).bind
  intro target middle holds
  obtain ⟨left, taken⟩ := holds
  refine .found rfl (fun other => .pure ⟨.plain left, other⟩) fun equal after cons assigns => ?_
  subst cons
  have plain : target.isConditional = false := by
    cases shape : target.isConditional with
    | false => rfl
    | true => exact absurd assigns (taken shape)
  apply (sound.expression after).bind
  intro value rest holds
  apply Yields.pure
  obtain ⟨right, other⟩ := holds
  exact ⟨.assignment left assigns plain right, other⟩

theorem ifTail_yields (sound : nested.Sound levels) {keyword : Token}
    (isKeyword : keyword.kind = .kwIf) (input : List Token) :
    Yields input (ifTail nested keyword) fun statement rest =>
      Statement (levels + 1) (keyword :: input) rest statement := by
  refine .expecting rfl ?_
  intro left after cons opened
  subst cons
  apply (skipNewlines_yields after).bind
  intro _ start lines
  apply (expression_yields sound start).bind
  intro condition middle test
  refine .expecting rfl ?_
  intro right next cons closed
  subst cons
  apply (sound.statement next).bind
  intro thenBranch final positive
  refine .accepted rfl (fun otherwise last cons isElse => ?_) fun complete => .pure ?_
  · subst cons
    apply (sound.statement last).bind
    intro elseBranch rest negative
    apply Yields.pure
    exact .ifElse isKeyword opened lines test closed positive isElse negative
  · exact .ifOnly isKeyword opened lines test closed positive complete

theorem forTail_yields (sound : nested.Sound levels) {keyword : Token}
    (isKeyword : keyword.kind = .kwFor) (input : List Token) :
    Yields input (forTail nested keyword) fun statement rest =>
      Statement (levels + 1) (keyword :: input) rest statement := by
  refine .expecting rfl ?_
  intro left after cons opened
  subst cons
  refine .expecting rfl ?_
  intro name after cons named
  subst cons
  refine .expecting rfl ?_
  intro inKeyword after cons isIn
  subst cons
  apply (skipNewlines_yields after).bind
  intro _ start lines
  apply (expression_yields sound start).bind
  intro iterator middle ranges
  refine .expecting rfl ?_
  intro right next cons closed
  subst cons
  apply (sound.statement next).bind
  intro body rest repeated
  apply Yields.pure
  exact .forIn isKeyword opened named isIn lines ranges closed repeated

theorem whileTail_yields (sound : nested.Sound levels) {keyword : Token}
    (isKeyword : keyword.kind = .kwWhile) (input : List Token) :
    Yields input (whileTail nested keyword) fun statement rest =>
      Statement (levels + 1) (keyword :: input) rest statement := by
  refine .expecting rfl ?_
  intro left after cons opened
  subst cons
  apply (skipNewlines_yields after).bind
  intro _ start lines
  apply (expression_yields sound start).bind
  intro condition middle test
  refine .expecting rfl ?_
  intro right next cons closed
  subst cons
  apply (sound.statement next).bind
  intro body rest repeated
  apply Yields.pure
  exact .whileDo isKeyword opened lines test closed repeated

theorem returnTail_yields (sound : nested.Sound levels) {keyword : Token}
    (isKeyword : keyword.kind = .kwReturn) (input : List Token) :
    Yields input (returnTail nested keyword) fun statement rest =>
      Statement (levels + 1) (keyword :: input) rest statement := by
  apply Yields.peeked
  split
  case h_4 =>
    apply (expression_yields sound input).bind
    intro value rest result
    apply Yields.pure
    exact .returnValue isKeyword result
  all_goals
    next ends => exact .pure (.returnNothing isKeyword (by simp [ends]))

theorem blockRound_yields (sound : nested.Sound levels) (input : List Token) :
    Yields input (blockRound nested) (Round.Extends (Definitions levels) input) := by
  apply Yields.peeked
  split
  · exact .pure .none
  · refine (definition_yields sound input).bind fun statement middle value => .peeked ?_
    split
    · exact .pure (.last value)
    · apply (expectNewline_yields _ middle).bind
      intro _ start lines
      apply Yields.pure
      exact fun rest statements others => .more value lines others

theorem blockTail_yields (sound : nested.Sound levels) {left : Token}
    (opened : left.kind = .leftBrace) (input : List Token) :
    Yields input (blockTail nested left) fun statement rest =>
      Statement (levels + 1) (left :: input) rest statement := by
  apply (skipNewlines_yields input).bind
  intro _ start lines
  apply (Yields.loop (blockRound_yields sound) start).bind
  intro statements middle items
  refine .expecting rfl ?_
  intro right rest cons closed
  subst cons
  apply Yields.pure
  exact .block opened lines items closed

theorem statement_yields (sound : nested.Sound levels) (input : List Token) :
    Yields input (statement nested) fun statement rest =>
      Statement (levels + 1) input rest statement := by
  refine .found rfl (fun _ => ?_) fun keyword rest cons isKeyword => .pure ?_
  · refine .found rfl (fun _ => ?_) fun keyword rest cons isKeyword =>
      cons ▸ ifTail_yields sound isKeyword rest
    refine .found rfl (fun _ => ?_) fun keyword rest cons isKeyword =>
      cons ▸ forTail_yields sound isKeyword rest
    refine .found rfl (fun _ => ?_) fun keyword rest cons isKeyword =>
      cons ▸ whileTail_yields sound isKeyword rest
    refine .found rfl (fun _ => ?_) fun keyword rest cons isKeyword =>
      cons ▸ returnTail_yields sound isKeyword rest
    refine .found rfl (fun unbraced => ?_) fun left rest cons opened =>
      cons ▸ blockTail_yields sound opened rest
    apply (expression_yields sound input).bind
    intro expression rest value
    apply Yields.pure
    exact .expression unbraced value
  · exact cons ▸ .breakLoop isKeyword

end Rules

/-- The head of a method before its parameter list, if it may have one, or else all of it. -/
def Headed (input : List Token) (signature : Parse.Signature Token) (rest : List Token) : Prop :=
  if signature.takesList then input = signature.name :: rest ∧ signature.parameters = none ∧
    (signature.name.kind.isInfixOperator ∨ signature.name.kind = .name)
  else Grammar.Signature input rest signature.name signature.parameters

theorem signature_yields (input : List Token) :
    Yields input signature fun signature rest => Headed input signature rest := by
  refine .found rfl (fun _ => .peeked ?_) fun left after cons opened => ?_
  · split
    · next known =>
      have before : front input ≠ .eof := fun atEnd => by rw [atEnd] at known; contradiction
      refine .advanced rfl (beq_false_of_ne before) fun operator rest cons same => .pure ?_
      exact ⟨cons, rfl, .inl (same ▸ known)⟩
    · refine .foundAny (by decide) (fun _ => ?_) fun operator rest cons known => .pure ?_
      · exact .expecting rfl fun name rest cons named => .pure ⟨cons, rfl, .inr named⟩
      · subst cons
        exact .prefixOperator known
  · subst cons
    apply (names_yields _ after).bind
    intro names middle parameters
    refine .expecting rfl ?_
    intro right rest cons closed
    subst cons
    apply Yields.pure
    exact .subscript opened parameters closed

/-- A parameter list where one is allowed. -/
theorem parameterList_yields {left : Token} (opened : left.kind = .leftParen) (input : List Token) :
    Yields input (skipNewlines >>= fun _ => accept .rightParen >>= fun empty =>
        if empty then Pure.pure (some []) else parameterList >>= fun parameters =>
          skipNewlines >>= fun _ => expect .rightParen "')' after parameters" >>= fun _ =>
            Pure.pure (some parameters))
      fun parameters rest => ParameterList (left :: input) rest parameters := by
  apply (skipNewlines_yields input).bind
  intro _ start lines
  refine .accepted rfl (fun right rest cons closed => .pure ?_) fun _ => ?_
  · subst cons
    exact .empty opened lines closed
  · apply (names_yields _ start).bind
    intro names middle parameters
    apply (skipNewlines_yields middle).bind
    intro _ final after
    refine .expecting rfl ?_
    intro right rest cons closed
    subst cons
    apply Yields.pure
    exact .some opened lines parameters after closed

theorem methodParameters_yields {input middle : List Token} {signature : Parse.Signature Token}
    (headed : Headed input signature middle) : Yields middle (methodParameters signature)
      fun parameters rest => Grammar.Signature input rest signature.name parameters := by
  obtain ⟨name, known, takesList⟩ := signature
  cases takesList with
  | false =>
    refine .accepted rfl (fun left after cons opened => ?_) fun _ => .pure headed
    exact .complains
  | true =>
    obtain ⟨cons, none, kind⟩ := headed
    subst cons
    have complete {rest parameters} (list : ParameterList middle rest parameters) :
        Grammar.Signature (name :: middle) rest name parameters := by
      rcases kind with operator | named
      · exact .infixOperator operator list
      · exact .named named list
    refine .accepted rfl (fun left after cons opened => ?_) fun _ => .pure (none ▸ complete .none)
    subst cons
    exact (parameterList_yields opened after).mono fun _ _ list => complete list

theorem optional_yields {kind : TokenKind} (before : (kind == .eof) = false) (input : List Token) :
    Yields input (accept? kind) fun token rest => Optional kind input rest token := by
  have same : Yields input (accept? kind >>= Pure.pure) fun token rest =>
      Optional kind input rest token := by
    refine .found before (fun _ => .pure .absent) fun token rest cons same => .pure ?_
    subst cons
    exact .present same
  exact same

section Rules
variable {nested : Nested Reel Token} {levels : Nat} [nested.Steps]

theorem method_yields (sound : nested.Sound levels) (input : List Token) :
    Yields input (method nested) fun method rest => MethodDefinition levels input rest method := by
  apply (optional_yields rfl input).bind
  intro foreign start isForeign
  apply (optional_yields rfl start).bind
  intro static first shared
  apply (optional_yields rfl first).bind
  intro construct second constructs
  apply (signature_yields second).bind
  intro signature after headed
  apply (methodParameters_yields headed).bind
  intro parameters final head
  cases isForeign with
  | present isForeign => exact .pure (.foreign isForeign shared constructs head)
  | absent =>
    refine .expecting rfl ?_
    intro left middle cons opened
    subst cons
    apply (bodyTail_yields sound parameters middle).bind
    intro body rest content
    apply Yields.pure
    exact .own shared constructs head opened content

theorem superclass_yields (input : List Token) :
    Yields input superclass fun name rest => Superclass input rest name := by
  refine .accepted rfl (fun keyword after cons isKeyword => ?_) fun _ => .pure .none
  subst cons
  refine .expecting rfl ?_
  intro name rest cons named
  subst cons
  apply Yields.pure
  exact .named isKeyword named

theorem methodsRound_yields (sound : nested.Sound levels) (input : List Token) :
    Yields input (methodsRound nested) (Round.Extends
      (fun input rest methods => ∃ right, right.kind = .rightBrace ∧
        Methods levels input (right :: rest) methods) input) := by
  refine .accepted rfl (fun right rest cons closed => .pure ?_) fun _ => .peeked ?_
  · subst cons
    exact ⟨right, closed, .none⟩
  split
  · next atEnd =>
    refine .expecting rfl fun right rest cons closed => ?_
    rw [cons] at atEnd
    exact absurd (atEnd.symm.trans closed) (by decide)
  · apply (method_yields sound input).bind
    intro method middle value
    refine .accepted rfl (fun right rest cons closed => .pure ?_) fun _ => ?_
    · subst cons
      exact ⟨right, closed, .last value⟩
    · apply (expectNewline_yields _ middle).bind
      intro _ start lines
      apply Yields.pure
      rintro rest methods ⟨right, closed, others⟩
      exact ⟨right, closed, .more value lines others⟩

theorem classTail_yields (sound : nested.Sound levels) (foreign : Option Token) (keyword : Token)
    (input : List Token) : Yields input (classTail nested foreign keyword) fun statement rest =>
      ClassTail (levels + 1) foreign keyword input rest statement := by
  refine .expecting rfl ?_
  intro name after cons named
  subst cons
  apply (superclass_yields after).bind
  intro superclass middle parent
  refine .expecting rfl ?_
  intro left inside cons opened
  subst cons
  apply (skipNewlines_yields inside).bind
  intro _ start lines
  apply (Yields.loop (methodsRound_yields sound) start).bind
  intro methods rest holds
  apply Yields.pure
  obtain ⟨right, closed, items⟩ := holds
  exact .mk named parent opened lines items closed

theorem moduleRound_yields (sound : nested.Sound levels) (input : List Token) :
    Yields input (moduleRound nested) (Round.Extends
      (fun input rest statements => Definitions levels input rest statements ∧ front rest = .eof)
      input) := by
  apply Yields.peeked
  split
  · next atEnd => exact .pure ⟨.none, atEnd⟩
  · refine (definition_yields sound input).bind fun statement middle value => .peeked ?_
    split
    · next atEnd => exact .pure ⟨.last value, atEnd⟩
    · apply (expectNewline_yields _ middle).bind
      intro _ start lines
      apply Yields.pure
      exact fun rest statements others => ⟨.more value lines others.1, others.2⟩

end Rules
end Parse

theorem Nested.within_sound (levels : Nat) :
    (Nested.within levels : Nested Reel Token).Sound levels := by
  induction levels with
  | zero =>
    -- Where no level is left every construct is refused, and a refusal is a complaint.
    exact ⟨fun _ => .missing, fun _ => .missing, fun _ => .missing, fun _ => .map .missing,
      fun _ _ _ => .map .missing⟩
  | succ levels sound =>
    refine ⟨fun input => .deeper (Parse.assignment_yields sound input), fun input => .deeper ?_,
      fun input => .deeper ?_, fun input => .deeper (Parse.statement_yields sound input),
      fun foreign keyword input => .deeper (Parse.classTail_yields sound foreign keyword input)⟩
    · exact (Parse.conditional_yields sound input).mono fun _ _ holds => ⟨levels, rfl, holds.1⟩
    · exact (Parse.operand_yields sound input).mono fun _ _ value => ⟨levels, rfl, value⟩

/-- The end token is left for last, so it is all that is left after the statements. -/
theorem Parse.module_derives {state : ParserState Reel Token} (fed : state.Fed)
    (clean : (Parse.module state).2.problems = state.problems) :
    Grammar.Script (Nested.limit - state.depth) state.ahead (Parse.module state).1 := by
  let statements : Parse Reel Token (List (Stmt Token)) :=
    skipNewlines >>= fun _ => loop (moduleRound (Nested.within (Nested.limit - state.depth)))
  obtain ⟨_, begins⟩ := takes statements state
  have ends := expect_takes .eof "end of input" (statements state).2
  have yields : Yields state.ahead statements fun statements rest => ∃ start,
      Newlines state.ahead start ∧
        Grammar.Definitions (Nested.limit - state.depth) start rest statements ∧
          front rest = .eof := by
    apply (skipNewlines_yields _).bind
    intro _ start lines
    refine (Yields.loop (moduleRound_yields (Nested.within_sound _)) start).mono ?_
    exact fun statements rest holds => ⟨start, lines, holds⟩
  obtain ⟨⟨start, lines, items, atEnd⟩, after⟩ :=
    yields state fed rfl (begins.clean ends clean)
  have ended := after.ended
  generalize (statements state).2.ahead = rest at items atEnd ended
  cases ended with
  | last ends => exact .mk lines items ends
  | more before => exact absurd atEnd before

/-- A script that parses without a problem is derived by the grammar, with its module as the tree.
The derivation nests no deeper than the parser may go. -/
theorem Source.parse_sound (source : Source) (clean : source.parse.problems = []) :
    Grammar.Script Nested.limit source.tokens source.parse.module := by
  obtain ⟨module, problems⟩ := source.parse_reel
  obtain ⟨fed, ahead, depth, none⟩ := Parse.ofReel_fed source
  have derives := Parse.module_derives fed ((problems.symm.trans clean).trans none.symm)
  rw [ahead, depth, ← module] at derives
  exact derives

/-- A script with a conditional, a block argument, and an interpolated string. -/
def Source.sample : Source where
  id := "sample"
  bytes := Text.Utf8.encode "var x = (1 +\n 2) ? a.b { |c| d } : \"u%(v)w\"\n"

theorem Source.sample_sound : Source.sample.parse.problems = [] ∧
    Grammar.Script Nested.limit Source.sample.tokens Source.sample.parse.module :=
  ⟨by decide +kernel, Source.parse_sound Source.sample (by decide +kernel)⟩

end WrenFront
