import WrenFront.Proofs.CleanRuns

/-! Whatever the grammar derives is read without a complaint, as the tree of the derivation. The
parser sees one token ahead and never goes back, so each optional part has to be shown not to take a
token that belongs to what comes after it. That follows from the few kinds that can stand after an
expression or a statement, and from the kinds that each rule begins with. -/

set_option synthInstance.maxSize 1024

namespace WrenFront
open Grammar

namespace Grammar

/-- What may stand right after an expression. -/
def expressionEnds : List TokenKind :=
  [.comma, .rightParen, .rightBracket, .rightBrace, .colon, .line, .eof, .kwElse, .string,
    .interpolation]

/-- What may stand right after a statement. -/
def statementEnds : List TokenKind :=
  [.line, .rightBrace, .eof, .kwElse]

/-- What may stand right after a definition. -/
def definitionEnds : List TokenKind :=
  [.line, .rightBrace, .eof]

/-- What goes on with a call, if it stands right after one. -/
def callOpeners : List TokenKind :=
  [.leftParen, .leftBrace, .leftBracket, .dot]

theorem Newlines.front {input rest : List Token} (lines : Newlines input rest) :
    front input = .line ∨ front input = front rest := by
  cases lines with
  | none => exact .inr rfl
  | more line => exact .inl line

theorem Lines.front {input rest : List Token} (lines : Lines input rest) : front input = .line := by
  obtain ⟨newline, after, rfl, line, -⟩ := lines
  exact line

/-- Newlines before a closing token leave one of two kinds in front. -/
theorem Newlines.ends {input rest : List Token} {token : Token} {kind : TokenKind}
    (lines : Newlines input (token :: rest)) (kinds : List TokenKind) (same : token.kind = kind)
    (line : kinds.contains .line) (listed : kinds.contains kind) :
    Grammar.front input ∈ kinds := by
  rcases lines.front with first | first
  · rw [first]
    exact List.contains_iff_mem.1 line
  · rw [first]
    exact kind_mem same listed

/-- An expression after newlines leaves one of a few kinds in front. -/
theorem Newlines.opens {input start : List Token} {kind : TokenKind} (lines : Newlines input start)
    (begins : Grammar.front start ∈ expressionFronts)
    (unlisted : (.line :: expressionFronts).contains kind = false) :
    Grammar.front input ≠ kind := by
  apply kind_ne _ unlisted
  rcases lines.front with first | first
  · exact first ▸ List.mem_cons_self
  · exact first ▸ List.mem_cons_of_mem _ begins

/-- A body never begins with a bar, so bars after its opening brace hold parameters. -/
theorem Content.unbarred {levels : Nat} {parameters : Option (List Token)}
    {input rest : List Token} {body : Body Token}
    (derived : Content levels parameters input rest body) : Grammar.front input ≠ .pipe := by
  cases derived with
  | empty closed => exact kind_other closed rfl
  | lines opened => exact kind_other opened.front rfl
  | single value =>
    cases value with
    | statement _ value => exact kind_ne value.front rfl
    | expression value => exact kind_ne value.front rfl

theorem BlockArgument.unparenthesized {levels : Nat} {input rest : List Token}
    {block : Option (Body Token)} (derived : BlockArgument levels input rest block)
    (stops : Grammar.front rest ≠ .leftParen) : Grammar.front input ≠ .leftParen := by
  cases derived with
  | none => exact stops
  | some opened => exact kind_other opened rfl

theorem Elements.unlined {levels : Nat} {input rest : List Token} {expressions : List (Expr Token)}
    (derived : Elements levels input rest expressions) (stops : Grammar.front rest ≠ .line) :
    Grammar.front input ≠ .line := by
  cases derived with
  | none => exact stops
  | last value => exact kind_ne value.front rfl
  | more value => exact kind_ne value.front rfl

theorem Entries.unlined {levels : Nat} {input rest : List Token} {entries : List (MapEntry Token)}
    (derived : Entries levels input rest entries) (stops : Grammar.front rest ≠ .line) :
    Grammar.front input ≠ .line := by
  cases derived with
  | none => exact stops
  | last value => exact kind_ne value.front rfl
  | more value => exact kind_ne value.front rfl

theorem Definitions.unlined {levels : Nat} {input rest : List Token}
    {statements : List (Stmt Token)} (derived : Definitions levels input rest statements)
    (stops : Grammar.front rest ≠ .line) : Grammar.front input ≠ .line := by
  cases derived with
  | none => exact stops
  | last value => exact kind_ne value.front rfl
  | more value => exact kind_ne value.front rfl

theorem Methods.unlined {levels : Nat} {input rest : List Token} {methods : List (Method Token)}
    (derived : Methods levels input rest methods) (stops : Grammar.front rest ≠ .line) :
    Grammar.front input ≠ .line := by
  cases derived with
  | none => exact stops
  | last value => exact kind_ne value.front rfl
  | more value => exact kind_ne value.front rfl

end Grammar

namespace Parse
variable {α : Type}

theorem newlinesLoop_runs {input rest : List Token} (lines : Newlines input rest)
    (stops : front rest ≠ .line) :
    ∃ tokens, Runs input (loop newlineRound) tokens rest ∧ (tokens = [] ↔ front input ≠ .line) := by
  induction lines with
  | none => exact ⟨[], .stop (.missing stops .pure), iff_of_true rfl stops⟩
  | more line _ ih =>
    obtain ⟨tokens, runs, -⟩ := ih stops
    exact ⟨_, .more (.found line rfl .pure) runs, iff_of_false (List.cons_ne_nil _ _) (· line)⟩

theorem newlines_run {input rest : List Token} (lines : Lines input rest)
    (stops : front rest ≠ .line) : Runs input newlines true rest := by
  have first := lines.front
  obtain ⟨newline, after, rfl, line, others⟩ := lines
  obtain ⟨tokens, runs, empty⟩ := newlinesLoop_runs (.more line others) stops
  have some : (!tokens.isEmpty) = true := by
    cases tokens with
    | nil => exact absurd first (empty.1 rfl)
    | cons => rfl
  exact runs.bind (some ▸ .pure)

theorem newlines_none {input : List Token} (stops : front input ≠ .line) :
    Runs input newlines false input := by
  obtain ⟨tokens, runs, empty⟩ := newlinesLoop_runs .none stops
  rw [empty.2 stops] at runs
  exact runs.bind .pure

theorem skipNewlines_runs {input rest : List Token} (lines : Newlines input rest)
    (stops : front rest ≠ .line) : Runs input skipNewlines ⟨⟩ rest := by
  obtain ⟨tokens, runs, -⟩ := newlinesLoop_runs lines stops
  have found : Runs input newlines (!tokens.isEmpty) rest := runs.bind .pure
  exact found.bind .pure

theorem expectNewline_runs {input rest : List Token} {what : String} (lines : Lines input rest)
    (stops : front rest ≠ .line) : Runs input (expectNewline what) ⟨⟩ rest := by
  obtain ⟨newline, after, rfl, line, others⟩ := lines
  exact (Runs.expected line rfl).bind (skipNewlines_runs others stops)

section Items
variable {item : Parse Reel Token α} [Steps item] {value : α} {values : List α} {comma : Token}
  {closing : TokenKind} {input middle after start rest : List Token}

theorem separated_last (runs : Runs input item value rest) (stops : front rest ≠ .comma) :
    Runs input (separated item) [value] rest :=
  .last (runs.bind (.declined stops .pure))

theorem separated_more (runs : Runs input item value (comma :: middle))
    (isComma : comma.kind = .comma) (lines : Newlines middle start) (stops : front start ≠ .line)
    (others : Runs start (separated item) values rest) :
    Runs input (separated item) (value :: values) rest :=
  .more (runs.bind (.accepted isComma rfl ((skipNewlines_runs lines stops).bind .pure))) others

theorem elements_none (closed : front input = closing) :
    Runs input (loop (elementsRound closing item)) [] input := by
  refine .stop (.peeked ?_)
  rw [if_pos closed]
  exact .pure

theorem elements_last (opens : front input ≠ closing) (runs : Runs input item value middle)
    (lines : Newlines middle rest) (stops : front rest ∉ [.line, .comma]) :
    Runs input (loop (elementsRound closing item)) [value] rest := by
  simp only [List.mem_cons, List.not_mem_nil, or_false, not_or] at stops
  refine .last (.peeked ?_)
  rw [if_neg opens]
  exact runs.bind ((skipNewlines_runs lines stops.1).bind (.declined stops.2 .pure))

theorem elements_more (opens : front input ≠ closing) (runs : Runs input item value middle)
    (lines : Newlines middle (comma :: after)) (isComma : comma.kind = .comma)
    (linesAfter : Newlines after start) (stops : front start ≠ .line)
    (others : Runs start (loop (elementsRound closing item)) values rest) :
    Runs input (loop (elementsRound closing item)) (value :: values) rest := by
  have before : front (comma :: after) ≠ .line := kind_other isComma rfl
  refine .more (.peeked ?_) others
  rw [if_neg opens]
  refine runs.bind ((skipNewlines_runs lines before).bind ?_)
  exact .accepted isComma rfl ((skipNewlines_runs linesAfter stops).bind .pure)

end Items

theorem names_run {what : String} {input rest names : List Token} (derived : Names input rest names)
    (stops : front rest ≠ .comma) : Runs input (separated (expect .name what)) names rest := by
  induction derived with
  | last named => exact separated_last (.expected named rfl) stops
  | more named isComma lines others ih =>
    refine separated_more (.expected named rfl) isComma lines ?_ (ih stops)
    cases others with
    | last named => exact kind_other named rfl
    | more named => exact kind_other named rfl

end Parse

/-- The nested rules read whatever the grammar derives within that many levels, where it is followed
by what may follow it. -/
structure Nested.Complete (nested : Nested Reel Token) (levels : Nat) : Prop where
  expression : ∀ {input rest expression}, Expression levels input rest expression →
    front rest ∈ expressionEnds → Parse.Runs input nested.expression expression rest
  conditional : ∀ {fewer input rest expression}, levels = fewer + 1 →
    Conditional fewer input rest expression → front rest = .colon →
      Parse.Runs input nested.conditional expression rest
  operand : ∀ {fewer input rest expression}, levels = fewer + 1 →
    Operand fewer input rest expression → front rest ∉ callOpeners →
      Parse.Runs input nested.operand expression rest
  statement : ∀ {input rest statement}, Statement levels input rest statement →
    front rest ∈ statementEnds → Parse.Runs input nested.statement statement rest
  classTail : ∀ {foreign keyword input rest statement},
    ClassTail levels foreign keyword input rest statement →
      Parse.Runs input (nested.classTail foreign keyword) statement rest

namespace Parse
variable {nested : Nested Reel Token} {levels : Nat} {input rest : List Token}

theorem importTail_runs {keyword path : Token} (isPath : path.kind = .string)
    (stops : front rest ∈ definitionEnds) :
    Runs (path :: rest) (importTail keyword) (.importDef keyword path none) rest :=
  (Runs.expected isPath rfl).bind (.declined (kind_ne stops rfl) .pure)

theorem importNames_run {keyword path forKeyword : Token} {start names : List Token}
    (isPath : path.kind = .string) (isFor : forKeyword.kind = .kwFor)
    (lines : Newlines input start) (imported : Names start rest names)
    (stops : front rest ∈ definitionEnds) :
    Runs (path :: forKeyword :: input) (importTail keyword)
      (.importDef keyword path (some names)) rest := by
  have first : front start ≠ .line := by
    cases imported with
    | last named => exact kind_other named rfl
    | more named => exact kind_other named rfl
  refine (Runs.expected isPath rfl).bind (.accepted isFor rfl ?_)
  apply (skipNewlines_runs lines first).bind
  exact (names_run imported (kind_ne stops rfl)).bind .pure

theorem definition_runs (complete : nested.Complete levels) {statement : Stmt Token}
    (derived : Definition levels input rest statement) (stops : front rest ∈ definitionEnds) :
    Runs input (definition nested) statement rest := by
  have ends : definitionEnds ⊆ statementEnds := by decide
  have endsToo : definitionEnds ⊆ expressionEnds := by decide
  cases derived with
  | ownClass isKeyword tail => exact .found isKeyword rfl (complete.classTail tail)
  | foreignClass isForeign isKeyword tail =>
    refine .missing (kind_other isForeign rfl) (.found isForeign rfl ?_)
    exact (Runs.expected isKeyword rfl).bind (complete.classTail tail)
  | importAll isKeyword isPath =>
    refine .missing (kind_other isKeyword rfl) (.missing (kind_other isKeyword rfl) ?_)
    exact .found isKeyword rfl (importTail_runs isPath stops)
  | importNames isKeyword isPath isFor lines imported =>
    refine .missing (kind_other isKeyword rfl) (.missing (kind_other isKeyword rfl) ?_)
    exact .found isKeyword rfl (importNames_run isPath isFor lines imported stops)
  | declared isKeyword named =>
    refine .missing (kind_other isKeyword rfl) (.missing (kind_other isKeyword rfl) ?_)
    refine .missing (kind_other isKeyword rfl) (.found isKeyword rfl ?_)
    exact (Runs.expected named rfl).bind (.declined (kind_ne stops rfl) .pure)
  | initialized isKeyword named assigns initializer =>
    refine .missing (kind_other isKeyword rfl) (.missing (kind_other isKeyword rfl) ?_)
    refine .missing (kind_other isKeyword rfl) (.found isKeyword rfl ?_)
    refine (Runs.expected named rfl).bind (.accepted assigns rfl ?_)
    exact (complete.expression initializer (endsToo stops)).bind .pure
  | statement value =>
    refine .missing (kind_ne value.front rfl) (.missing (kind_ne value.front rfl) ?_)
    refine .missing (kind_ne value.front rfl) (.missing (kind_ne value.front rfl) ?_)
    exact complete.statement value (ends stops)

theorem bodyElement_runs (complete : nested.Complete levels) {element : Stmt Token}
    (derived : Element levels input rest element) (stops : front rest ∈ [.line, .rightBrace]) :
    Runs input (bodyElement nested) element rest := by
  have ends : [TokenKind.line, .rightBrace] ⊆ statementEnds := by decide
  have endsToo : [TokenKind.line, .rightBrace] ⊆ expressionEnds := by decide
  apply Runs.peeked
  cases derived with
  | statement begins value =>
    split
    case h_6 => simp_all [elementKeywords]
    all_goals exact complete.statement value (ends stops)
  | expression value =>
    split
    case h_6 => exact (complete.expression value (endsToo stops)).bind .pure
    all_goals next same => exact absurd same (kind_ne value.front rfl)

theorem bodyRound_runs (complete : nested.Complete levels) {middle start : List Token}
    {statement : Stmt Token} {ending : Round (Stmt Token)}
    (value : Definition levels input middle statement) (lines : Lines middle start)
    (stops : front start ≠ .line)
    (goesOn : Runs start (accept .rightBrace >>= fun closed =>
      if closed then Pure.pure (.last statement) else Pure.pure (.more statement)) ending rest) :
    Runs input (bodyRound nested) ending rest := by
  have follows : front middle ∈ definitionEnds := lines.front ▸ List.mem_cons_self
  apply Runs.peeked
  rw [if_neg (kind_ne value.front rfl)]
  apply (definition_runs complete value follows).bind
  exact (expectNewline_runs lines stops).bind goesOn

theorem bodyStatements_run [nested.Steps] (complete : nested.Complete levels) {right : Token}
    (closed : right.kind = .rightBrace) {statement : Stmt Token} {statements : List (Stmt Token)}
    (derived : LineStatements levels input (right :: rest) (statement :: statements)) :
    Runs input (loop (bodyRound nested)) (statement :: statements) rest := by
  induction statements generalizing input statement with
  | nil =>
    cases derived with
    | more value lines others =>
      cases others with
      | none =>
        have round := bodyRound_runs complete value lines (kind_other closed rfl)
          (.accepted closed rfl .pure)
        exact .last round
  | cons second statements ih =>
    cases derived with
    | more value lines others =>
      have begins := others.front
      have round := bodyRound_runs complete value lines (kind_ne begins rfl)
        (.declined (kind_ne begins rfl) .pure)
      exact .more round (ih others)

theorem bodyTail_runs [nested.Steps] (complete : nested.Complete levels)
    {parameters : Option (List Token)} {body : Body Token}
    (derived : Content levels parameters input rest body) :
    Runs input (bodyTail nested parameters) body rest := by
  cases derived with
  | empty closed => exact .accepted closed rfl .pure
  | single value lines closed =>
    have follows := lines.ends [.line, .rightBrace] closed rfl rfl
    have begins : front input ∈ statementFronts := by
      cases value with
      | statement _ value => exact value.front
      | expression value => exact List.mem_append_left _ value.front
    refine .declined (kind_ne begins rfl) ((newlines_none (kind_ne begins rfl)).bind ?_)
    apply (bodyElement_runs complete value follows).bind
    exact (skipNewlines_runs lines (kind_other closed rfl)).bind ((Runs.expected closed rfl).bind .pure)
  | lines opened items closed =>
    have first := opened.front
    refine .declined (kind_other first rfl) ?_
    cases items with
    | none =>
      apply (newlines_run opened (kind_other closed rfl)).bind
      exact (Runs.accepted closed rfl .pure).bind .pure
    | more value lines others =>
      apply (newlines_run opened (kind_ne value.front rfl)).bind
      refine Runs.bind (.declined (kind_ne value.front rfl) ?_) .pure
      exact bodyStatements_run complete closed (.more value lines others)

section Calls
variable [nested.Steps]

theorem expressions_run (complete : nested.Complete levels) {expressions : List (Expr Token)}
    (derived : Expressions levels input rest expressions) (stops : front rest ∈ expressionEnds)
    (last : front rest ≠ .comma) : Runs input (separated nested.expression) expressions rest := by
  induction expressions generalizing input with
  | nil => cases derived
  | cons expression expressions ih =>
    cases derived with
    | last value => exact separated_last (complete.expression value stops) last
    | more value isComma lines others =>
      have first := complete.expression value (kind_mem isComma rfl)
      exact separated_more first isComma lines (kind_ne others.front rfl) (ih others)

theorem argumentList_runs (complete : nested.Complete levels) {start : List Token} {right : Token}
    {arguments : List (Expr Token)} (lines : Newlines input start)
    (items : Expressions levels start (right :: rest) arguments)
    (closed : right.kind ∈ [.rightParen, .rightBracket]) :
    Runs input (argumentList nested) arguments (right :: rest) := by
  have ends : [TokenKind.rightParen, .rightBracket] ⊆ expressionEnds := by decide
  apply (skipNewlines_runs lines (kind_ne items.front rfl)).bind
  exact expressions_run complete items (ends closed) (kind_ne closed rfl)

theorem callArguments_run (complete : nested.Complete levels) {arguments : Option (List (Expr Token))}
    (derived : CallArguments levels input rest arguments) (stops : front rest ≠ .leftParen) :
    Runs input (callArguments nested) arguments rest := by
  cases derived with
  | none => exact .declined stops .pure
  | empty opened closed => exact .accepted opened rfl (.accepted closed rfl .pure)
  | some opened lines items closed =>
    refine .accepted opened rfl (.declined (lines.opens items.front rfl) ?_)
    apply (argumentList_runs complete lines items (by simp [closed])).bind
    exact (Runs.expected closed rfl).bind .pure

omit [nested.Steps] in
theorem blockParameters_run {parameters : Option (List Token)}
    (derived : BlockParameters input rest parameters) (stops : front rest ≠ .pipe) :
    Runs input blockParameters parameters rest := by
  cases derived with
  | none => exact .declined stops .pure
  | some opened parameters closed =>
    refine .accepted opened rfl ((names_run parameters (kind_other closed rfl)).bind ?_)
    exact (Runs.expected closed rfl).bind .pure

theorem blockArgument_runs (complete : nested.Complete levels) {block : Option (Body Token)}
    (derived : BlockArgument levels input rest block) (stops : front rest ≠ .leftBrace) :
    Runs input (blockArgument nested) block rest := by
  cases derived with
  | none => exact .declined stops .pure
  | some opened bars content =>
    refine .accepted opened rfl ((blockParameters_run bars content.unbarred).bind ?_)
    exact (bodyTail_runs complete content).bind .pure

/-- The arguments and the block of a call, whatever is made of them. -/
theorem call_runs {α : Type} (complete : nested.Complete levels) {middle : List Token}
    {arguments : Option (List (Expr Token))} {block : Option (Body Token)}
    (make : Option (List (Expr Token)) → Option (Body Token) → α)
    (list : CallArguments levels input middle arguments)
    (last : BlockArgument levels middle rest block)
    (stops : front rest ∉ [.leftParen, .leftBrace]) :
    Runs input (callArguments nested >>= fun arguments => blockArgument nested >>= fun block =>
      Pure.pure (make arguments block)) (make arguments block) rest := by
  simp only [List.mem_cons, List.not_mem_nil, or_false, not_or] at stops
  apply (callArguments_run complete list (last.unparenthesized stops.1)).bind
  exact (blockArgument_runs complete last stops.2).bind .pure

theorem elements_run (complete : nested.Complete levels) {right : Token}
    (closed : right.kind = .rightBracket) {expressions : List (Expr Token)}
    (derived : Elements levels input (right :: rest) expressions) :
    Runs input (loop (elementsRound .rightBracket nested.expression)) expressions
      (right :: rest) := by
  induction expressions generalizing input with
  | nil =>
    cases derived with
    | none => exact elements_none closed
  | cons expression expressions ih =>
    cases derived with
    | last value lines =>
      have runs := complete.expression value (lines.ends expressionEnds closed rfl rfl)
      exact elements_last (kind_ne value.front rfl) runs lines (by simp [front, closed])
    | more value lines isComma linesAfter others =>
      have runs := complete.expression value (lines.ends expressionEnds isComma rfl rfl)
      have stops := others.unlined (kind_other closed rfl)
      exact elements_more (kind_ne value.front rfl) runs lines isComma linesAfter stops (ih others)

omit [nested.Steps] in
theorem mapEntry_runs (complete : nested.Complete levels) {entry : MapEntry Token}
    (derived : KeyValue levels input rest entry) (stops : front rest ∈ expressionEnds) :
    Runs input (mapEntry nested) entry rest := by
  cases derived with
  | mk first divides second =>
    refine (complete.expression first (kind_mem divides rfl)).bind ((Runs.expected divides rfl).bind ?_)
    exact (complete.expression second stops).bind .pure

theorem entries_run (complete : nested.Complete levels) {right : Token}
    (closed : right.kind = .rightBrace) {entries : List (MapEntry Token)}
    (derived : Entries levels input (right :: rest) entries) :
    Runs input (loop (elementsRound .rightBrace (mapEntry nested))) entries (right :: rest) := by
  induction entries generalizing input with
  | nil =>
    cases derived with
    | none => exact elements_none closed
  | cons entry entries ih =>
    cases derived with
    | last value lines =>
      have runs := mapEntry_runs complete value (lines.ends expressionEnds closed rfl rfl)
      exact elements_last (kind_ne value.front rfl) runs lines (by simp [front, closed])
    | more value lines isComma linesAfter others =>
      have runs := mapEntry_runs complete value (lines.ends expressionEnds isComma rfl rfl)
      have stops := others.unlined (kind_other closed rfl)
      exact elements_more (kind_ne value.front rfl) runs lines isComma linesAfter stops (ih others)

theorem parts_run (complete : nested.Complete levels) {parts : List (InterpolationPart Token)}
    (derived : Parts levels input rest parts) (ends : front rest = .string) :
    Runs input (loop (interpolationRound nested)) parts rest := by
  induction parts generalizing input with
  | nil => cases derived
  | cons part parts ih =>
    cases derived with
    | last opens value =>
      have follows : front rest ∈ expressionEnds := kind_mem ends rfl
      have stops : front rest ≠ .interpolation := kind_other ends rfl
      refine .more (.found opens rfl ?_) (.stop (.missing stops .pure))
      exact (complete.expression value follows).bind .pure
    | more opens value others =>
      have follows := complete.expression value (kind_mem others.front rfl)
      exact .more (.found opens rfl (follows.bind .pure)) (ih others)

theorem listTail_runs (complete : nested.Complete levels) {left right : Token} {start : List Token}
    {expressions : List (Expr Token)} (lines : Newlines input start)
    (items : Elements levels start (right :: rest) expressions)
    (closed : right.kind = .rightBracket) :
    Runs input (listTail nested left) (.list left expressions right) rest := by
  have opens := skipNewlines_runs lines (items.unlined (kind_other closed rfl))
  have runs : Runs input (elements .rightBracket nested.expression) expressions (right :: rest) :=
    opens.bind (elements_run complete closed items)
  exact runs.bind ((Runs.expected closed rfl).bind .pure)

theorem mapTail_runs (complete : nested.Complete levels) {left right : Token} {start : List Token}
    {entries : List (MapEntry Token)} (lines : Newlines input start)
    (items : Entries levels start (right :: rest) entries) (closed : right.kind = .rightBrace) :
    Runs input (mapTail nested left) (.map left entries right) rest := by
  have opens := skipNewlines_runs lines (items.unlined (kind_other closed rfl))
  have runs : Runs input (elements .rightBrace (mapEntry nested)) entries (right :: rest) :=
    opens.bind (entries_run complete closed items)
  exact runs.bind ((Runs.expected closed rfl).bind .pure)

/-- A bare `super` is not followed by a dot, so a dot never takes part in this. -/
theorem superTail_runs (complete : nested.Complete levels) {keyword : Token} {middle : List Token}
    {arguments : Option (List (Expr Token))} {block : Option (Body Token)}
    (undotted : front input ≠ .dot) (list : CallArguments levels input middle arguments)
    (last : BlockArgument levels middle rest block)
    (stops : front rest ∉ [.leftParen, .leftBrace]) :
    Runs input (superTail nested keyword) (.superCall keyword none arguments block) rest := by
  have tail := call_runs complete (Expr.superCall keyword none) list last stops
  exact .declined undotted tail

theorem superMethod_runs (complete : nested.Complete levels) {keyword dot name : Token}
    {middle : List Token} {arguments : Option (List (Expr Token))} {block : Option (Body Token)}
    (dotted : dot.kind = .dot) (named : name.kind = .name)
    (list : CallArguments levels input middle arguments)
    (last : BlockArgument levels middle rest block)
    (stops : front rest ∉ [.leftParen, .leftBrace]) :
    Runs (dot :: name :: input) (superTail nested keyword)
      (.superCall keyword (some name) arguments block) rest := by
  have tail := call_runs complete (Expr.superCall keyword (some name)) list last stops
  exact .accepted dotted rfl ((Runs.expected named rfl).bind tail)

theorem primary_runs (complete : nested.Complete levels) {expression : Expr Token}
    (derived : Primary levels input rest expression)
    (stops : front rest ∉ [.leftParen, .leftBrace]) :
    Runs input (primary nested) expression rest := by
  apply Runs.peeked
  cases derived with
  | literal stands =>
    unfold literal? at stands
    split at stands
    case h_9 => cases stands
    all_goals
      next same =>
      cases stands
      rw [front, same]
      exact .advanced same rfl .pure
  | grouping opened value closed =>
    rw [front, opened]
    refine .advanced opened rfl ?_
    exact (complete.expression value (kind_mem closed rfl)).bind ((Runs.expected closed rfl).bind .pure)
  | list opened lines items closed =>
    rw [front, opened]
    refine .advanced opened rfl ?_
    exact listTail_runs complete lines items closed
  | map opened lines items closed =>
    rw [front, opened]
    refine .advanced opened rfl ?_
    exact mapTail_runs complete lines items closed
  | call named list last =>
    rw [front, named]
    refine .advanced named rfl ?_
    exact call_runs complete (Expr.call none _) list last stops
  | superCall isKeyword undotted list last =>
    rw [front, isKeyword]
    refine .advanced isKeyword rfl ?_
    exact superTail_runs complete undotted list last stops
  | superMethod isKeyword dotted named list last =>
    rw [front, isKeyword]
    refine .advanced isKeyword rfl ?_
    exact superMethod_runs complete dotted named list last stops
  | interpolation segments ends =>
    rw [segments.front]
    exact (parts_run complete segments ends).bind ((Runs.expected ends rfl).bind .pure)

theorem subscript_runs (complete : nested.Complete levels) {left right : Token} {start : List Token}
    {arguments : List (Expr Token)} (opened : left.kind = .leftBracket)
    (lines : Newlines input start) (items : Expressions levels start (right :: rest) arguments)
    (closed : right.kind = .rightBracket) :
    Runs (left :: input) (link nested) (.more (.subscript left arguments right)) rest := by
  have arguments := argumentList_runs complete lines items (by simp [closed])
  exact .found opened rfl (arguments.bind ((Runs.expected closed rfl).bind .pure))

theorem methodCall_runs (complete : nested.Complete levels) {dot name : Token} {middle : List Token}
    {arguments : Option (List (Expr Token))} {block : Option (Body Token)}
    (dotted : dot.kind = .dot) (named : name.kind = .name)
    (list : CallArguments levels input middle arguments)
    (last : BlockArgument levels middle rest block)
    (stops : front rest ∉ [.leftParen, .leftBrace]) :
    Runs (dot :: name :: input) (link nested) (.more (.call name arguments block)) rest := by
  have tail := call_runs complete (fun arguments block => Round.more (Link.call name arguments block))
    list last stops
  exact .missing (kind_other dotted rfl) (.accepted dotted rfl ((Runs.expected named rfl).bind tail))

/-- A chain is read from its first link on, while its derivation ends with the last one, so the
induction hands the links that have been split off to the loop. -/
theorem chain_goes_on (complete : nested.Complete levels) {input middle rest : List Token}
    {expression : Expr Token} {links : List (Link Token)} :
    Chain levels input middle expression → front middle ∉ [.leftParen, .leftBrace] →
      Runs middle (loop (link nested)) links rest →
      Runs input (chain nested) (links.foldl Link.attach expression) rest
  | .primary value, stops, later => (primary_runs complete value stops).bind (later.bind .pure)
  | .subscript first opened lines items closed, _, later => by
    have round := subscript_runs complete opened lines items closed
    have whole := chain_goes_on complete first (kind_not_mem opened rfl) (.more round later)
    exact whole
  | .call first dotted named list last, stops, later => by
    have round := methodCall_runs complete dotted named list last stops
    have whole := chain_goes_on complete first (kind_not_mem dotted rfl) (.more round later)
    exact whole

theorem chain_runs (complete : nested.Complete levels) {expression : Expr Token}
    (derived : Chain levels input rest expression) (stops : front rest ∉ callOpeners) :
    Runs input (chain nested) expression rest := by
  simp only [callOpeners, List.mem_cons, List.not_mem_nil, or_false, not_or] at stops
  have ends : Runs rest (loop (link nested)) [] rest :=
    .stop (.missing stops.2.2.1 (.declined stops.2.2.2 .pure))
  exact chain_goes_on complete derived (by simp [stops]) ends

theorem operand_runs (complete : nested.Complete levels) {expression : Expr Token}
    (derived : Operand levels input rest expression) (stops : front rest ∉ callOpeners) :
    Runs input (operand nested) expression rest := by
  apply Runs.peeked
  cases derived with
  | @negated _ operator _ _ _ known value =>
    rw [front, if_pos known]
    have before : operator.kind ≠ .eof := fun atEnd => by rw [atEnd] at known; contradiction
    exact .advanced rfl (beq_false_of_ne before) ((complete.operand rfl value stops).bind .pure)
  | chain value =>
    have plain : ∀ kind ∈ primaryFronts, ¬kind.isPrefixOperator := by decide
    rw [if_neg (plain _ value.front)]
    exact chain_runs complete value stops

omit [nested.Steps] in
theorem infixRound_runs {operators : List TokenKind} {program : Parse Reel Token (Expr Token)}
    {operator : Token} {right : Expr Token} {start : List Token} (before : .eof ∉ operators)
    (joins : operator.kind ∈ operators) (lines : Newlines input start)
    (stops : front start ≠ .line) (runs : Runs start program right rest) :
    Runs (operator :: input) (infixRound operators program) (.more (operator, right)) rest :=
  .foundAny joins before ((skipNewlines_runs lines stops).bind (runs.bind .pure))

/-- As in a chain, the operands that have been split off are handed to the loop of their level. The
levels have no operator in common, so an operand of the tighter levels stops before it. -/
theorem infix_goes_on {operators : List TokenKind} {tighter : List (List TokenKind)}
    (before : .eof ∉ operators) (apart : ∀ kind ∈ operators, kind ∉ tighter.flatten)
    (calls : ∀ kind ∈ operators, kind ∉ callOpeners)
    (tight : ∀ {input rest expression}, Infix levels tighter input rest expression →
      front rest ∉ tighter.flatten → front rest ∉ callOpeners →
        Runs input (infixChain nested tighter) expression rest)
    {input middle rest : List Token} {expression : Expr Token} {links : List (Token × Expr Token)} :
    Infix levels (operators :: tighter) input middle expression → front middle ∉ tighter.flatten →
      front middle ∉ callOpeners →
      Runs middle (loop (infixRound operators (infixChain nested tighter))) links rest →
      Runs input (infixChain nested (operators :: tighter))
        (links.foldl (fun left (operator, right) => .infixOp left operator right) expression) rest
  | .tighter value, stops, ends, later => (tight value stops ends).bind (later.bind .pure)
  | .operator first joins lines second, stops, ends, later => by
    have advancing := infixRound_advancing before (infixChain nested tighter)
    have round := infixRound_runs before joins lines (kind_ne second.front rfl)
      (tight second stops ends)
    have whole := infix_goes_on before apart calls tight first (apart _ joins) (calls _ joins)
      (.more round later)
    exact whole

theorem infixChain_runs (complete : nested.Complete levels) {operators : List (List TokenKind)}
    (before : ∀ level ∈ operators, .eof ∉ level) (apart : operators.flatten.Nodup)
    (calls : ∀ kind ∈ operators.flatten, kind ∉ callOpeners) {expression : Expr Token}
    (derived : Infix levels operators input rest expression)
    (stops : front rest ∉ operators.flatten) (ends : front rest ∉ callOpeners) :
    Runs input (infixChain nested operators) expression rest := by
  induction operators generalizing input rest expression with
  | nil =>
    cases derived with
    | operand value => exact operand_runs complete value ends
  | cons level tighter ih =>
    rw [List.flatten_cons] at apart calls stops
    obtain ⟨-, apartTighter, disjoint⟩ := List.nodup_append.1 apart
    have here := before level List.mem_cons_self
    have advancing := infixRound_advancing here (infixChain nested tighter)
    have last : Runs rest (loop (infixRound level (infixChain nested tighter))) [] rest :=
      .stop (.missingAny (fun member => stops (List.mem_append_left _ member)) .pure)
    have whole := infix_goes_on here (fun kind member other => disjoint kind member kind other rfl)
      (fun kind member => calls kind (List.mem_append_left _ member))
      (ih (fun level member => before level (List.mem_cons_of_mem _ member)) apartTighter
        (fun kind member => calls kind (List.mem_append_right _ member)))
      derived (fun member => stops (List.mem_append_right _ member)) ends last
    exact whole

/-- An operator or an equal sign may follow an expression within a larger one. -/
theorem infixLevels_run (complete : nested.Complete levels) {expression : Expr Token}
    (derived : Infix levels TokenKind.infixLevels input rest expression)
    (stops : front rest ∈ .equal :: .question :: expressionEnds) :
    Runs input (infixChain nested TokenKind.infixLevels) expression rest := by
  have apart : ∀ kind ∈ .equal :: .question :: expressionEnds,
      kind ∉ TokenKind.infixLevels.flatten ∧ kind ∉ callOpeners := by decide
  exact infixChain_runs complete (by decide) (by decide) (by decide) derived (apart _ stops).1
    (apart _ stops).2

theorem conditional_runs (complete : nested.Complete levels) {expression : Expr Token}
    (derived : Conditional levels input rest expression)
    (stops : front rest ∈ .equal :: expressionEnds)
    (taken : expression.isConditional = true → front rest ≠ .equal) :
    Runs input (conditional nested) expression rest := by
  have listed : .equal :: expressionEnds ⊆ .equal :: .question :: expressionEnds := by decide
  cases derived with
  | plain value =>
    apply (infixLevels_run complete value (listed stops)).bind
    exact .missing (kind_ne stops rfl) .pure
  | choice test asks positive divides negative =>
    have ends : front rest ∈ expressionEnds := List.mem_of_ne_of_mem (taken rfl) stops
    refine (infixLevels_run complete test (kind_mem asks rfl)).bind (.found asks rfl ?_)
    refine (complete.conditional rfl positive divides).bind ((Runs.expected divides rfl).bind ?_)
    exact (complete.expression negative ends).bind .pure

theorem assignment_runs (complete : nested.Complete levels) {expression : Expr Token}
    (derived : Expression (levels + 1) input rest expression)
    (stops : front rest ∈ expressionEnds) : Runs input (assignment nested) expression rest := by
  cases derived with
  | plain value =>
    refine (conditional_runs complete value (List.mem_cons_of_mem _ stops)
      fun _ => kind_ne stops rfl).bind ?_
    exact .missing (kind_ne stops rfl) .pure
  | assignment left assigns plain right =>
    apply (conditional_runs complete left (kind_mem assigns rfl) (by simp [plain])).bind
    exact .found assigns rfl ((complete.expression right stops).bind .pure)

/-- Definitions with newlines between them, for a loop that ends at a token of some kind. -/
theorem definitions_run {round : Parse Reel Token (Round (Stmt Token))} [Steps round]
    [Advancing round] (closing : TokenKind) (unlined : closing ≠ .line)
    (stops : ∀ {rest}, front rest = closing → Runs rest round .stop rest)
    (lasts : ∀ {input rest statement}, Definition levels input rest statement →
      front rest = closing → Runs input round (.last statement) rest)
    (mores : ∀ {input middle start statement}, Definition levels input middle statement →
      Lines middle start → front start ≠ .line → Runs input round (.more statement) start)
    {statements : List (Stmt Token)} (derived : Definitions levels input rest statements)
    (ends : front rest = closing) : Runs input (loop round) statements rest := by
  induction statements generalizing input with
  | nil =>
    cases derived with
    | none => exact .stop (stops ends)
  | cons statement statements ih =>
    cases derived with
    | last value => exact .last (lasts value ends)
    | more value lines others =>
      exact .more (mores value lines (others.unlined (ends ▸ unlined))) (ih others)

theorem blockTail_runs (complete : nested.Complete levels) {left right : Token} {start : List Token}
    {statements : List (Stmt Token)} (lines : Newlines input start)
    (items : Definitions levels start (right :: rest) statements)
    (closed : right.kind = .rightBrace) :
    Runs input (blockTail nested left) (.block left statements right) rest := by
  have opens {input rest : List Token} {statement : Stmt Token}
      (value : Definition levels input rest statement) :
      ¬[TokenKind.rightBrace, .eof].contains (front input) := by
    have others : ∀ kind ∈ definitionFronts, ¬[TokenKind.rightBrace, .eof].contains kind := by decide
    exact others _ value.front
  apply (skipNewlines_runs lines (items.unlined (kind_other closed rfl))).bind
  refine Runs.bind (definitions_run .rightBrace (by decide) ?_ ?_ ?_ items closed)
    ((Runs.expected closed rfl).bind .pure)
  · intro rest ends
    apply Runs.peeked
    rw [ends]
    exact .pure
  · intro input rest statement value ends
    apply Runs.peeked
    rw [if_neg (opens value)]
    refine (definition_runs complete value (kind_mem ends rfl)).bind (.peeked ?_)
    rw [if_pos ends]
    exact .pure
  · intro input middle start statement value lines stops
    have first := lines.front
    apply Runs.peeked
    rw [if_neg (opens value)]
    refine (definition_runs complete value (kind_mem first rfl)).bind (.peeked ?_)
    rw [if_neg (kind_other first rfl)]
    exact (expectNewline_runs lines stops).bind .pure

omit [nested.Steps] in
theorem ifTail_runs (complete : nested.Complete levels) {keyword left right : Token}
    {start middle : List Token} {condition : Expr Token} {thenBranch statement : Stmt Token}
    {final : List Token} (opened : left.kind = .leftParen) (lines : Newlines input start)
    (test : Expression levels start (right :: middle) condition)
    (closed : right.kind = .rightParen) (positive : Statement levels middle final thenBranch)
    (stops : front final ∈ statementEnds)
    (goesOn : Runs final (accept .kwElse >>= fun otherwise => if otherwise
      then nested.statement >>= fun elseBranch =>
        Pure.pure (.ifElse keyword condition thenBranch (some elseBranch))
      else Pure.pure (.ifElse keyword condition thenBranch none)) statement rest) :
    Runs (left :: input) (ifTail nested keyword) statement rest := by
  refine (Runs.expected opened rfl).bind ((skipNewlines_runs lines (kind_ne test.front rfl)).bind ?_)
  refine (complete.expression test (kind_mem closed rfl)).bind ((Runs.expected closed rfl).bind ?_)
  exact (complete.statement positive stops).bind goesOn

theorem statement_runs (complete : nested.Complete levels) {statement : Stmt Token}
    (derived : Statement (levels + 1) input rest statement) (stops : front rest ∈ statementEnds) :
    Runs input (Parse.statement nested) statement rest := by
  have ends : statementEnds ⊆ expressionEnds := by decide
  cases derived with
  | breakLoop isKeyword => exact .found isKeyword rfl .pure
  | ifOnly isKeyword opened lines test closed positive whole =>
    refine .missing (kind_other isKeyword rfl) (.found isKeyword rfl ?_)
    exact ifTail_runs complete opened lines test closed positive stops (.declined whole .pure)
  | ifElse isKeyword opened lines test closed positive isElse negative =>
    refine .missing (kind_other isKeyword rfl) (.found isKeyword rfl ?_)
    refine ifTail_runs complete opened lines test closed positive (kind_mem isElse rfl) ?_
    exact .accepted isElse rfl ((complete.statement negative stops).bind .pure)
  | forIn isKeyword opened named isIn lines ranges closed repeated =>
    refine .missing (kind_other isKeyword rfl) (.missing (kind_other isKeyword rfl) ?_)
    refine .found isKeyword rfl ((Runs.expected opened rfl).bind ((Runs.expected named rfl).bind ?_))
    refine (Runs.expected isIn rfl).bind ((skipNewlines_runs lines (kind_ne ranges.front rfl)).bind ?_)
    refine (complete.expression ranges (kind_mem closed rfl)).bind ((Runs.expected closed rfl).bind ?_)
    exact (complete.statement repeated stops).bind .pure
  | whileDo isKeyword opened lines test closed repeated =>
    refine .missing (kind_other isKeyword rfl) (.missing (kind_other isKeyword rfl) ?_)
    refine .missing (kind_other isKeyword rfl) (.found isKeyword rfl ?_)
    refine (Runs.expected opened rfl).bind ((skipNewlines_runs lines (kind_ne test.front rfl)).bind ?_)
    refine (complete.expression test (kind_mem closed rfl)).bind ((Runs.expected closed rfl).bind ?_)
    exact (complete.statement repeated stops).bind .pure
  | returnNothing isKeyword nothing =>
    refine .missing (kind_other isKeyword rfl) (.missing (kind_other isKeyword rfl) ?_)
    refine .missing (kind_other isKeyword rfl) (.missing (kind_other isKeyword rfl) ?_)
    refine .found isKeyword rfl (.peeked ?_)
    split
    case h_4 => simp_all
    all_goals exact .pure
  | returnValue isKeyword result =>
    refine .missing (kind_other isKeyword rfl) (.missing (kind_other isKeyword rfl) ?_)
    refine .missing (kind_other isKeyword rfl) (.missing (kind_other isKeyword rfl) ?_)
    refine .found isKeyword rfl (.peeked ?_)
    split
    case h_4 => exact (complete.expression result (ends stops)).bind .pure
    all_goals next same => exact absurd same (kind_ne result.front rfl)
  | block opened lines items closed =>
    refine .missing (kind_other opened rfl) (.missing (kind_other opened rfl) ?_)
    refine .missing (kind_other opened rfl) (.missing (kind_other opened rfl) ?_)
    refine .missing (kind_other opened rfl) (.found opened rfl ?_)
    exact blockTail_runs complete lines items closed
  | expression unbraced value =>
    refine .missing (kind_ne value.front rfl) (.missing (kind_ne value.front rfl) ?_)
    refine .missing (kind_ne value.front rfl) (.missing (kind_ne value.front rfl) ?_)
    refine .missing (kind_ne value.front rfl) (.missing unbraced ?_)
    exact (complete.expression value (ends stops)).bind .pure

end Calls

section Classes

theorem optional_runs {kind : TokenKind} {token : Option Token}
    (derived : Optional kind input rest token) (stops : front rest ≠ kind)
    (before : (kind == .eof) = false) : Runs input (accept? kind) token rest := by
  cases derived with
  | absent =>
    have same : Runs input (accept? kind >>= Pure.pure) none input := .missing stops .pure
    exact same
  | @present token rest isKind =>
    have same : Runs (token :: rest) (accept? kind >>= Pure.pure) (some token) rest :=
      .found isKind before .pure
    exact same

theorem superclass_runs {name : Option Token} (derived : Superclass input rest name)
    (stops : front rest ≠ .kwIs) : Runs input superclass name rest := by
  cases derived with
  | none => exact .declined stops .pure
  | named isKeyword named => exact .accepted isKeyword rfl ((Runs.expected named rfl).bind .pure)

theorem methodParameters_run {name : Token} {parameters : Option (List Token)}
    (derived : ParameterList input rest parameters) (stops : front rest ≠ .leftParen) :
    Runs input (methodParameters ⟨name, none, true⟩) parameters rest := by
  cases derived with
  | none => exact .declined stops .pure
  | empty opened lines closed =>
    refine .accepted opened rfl ((skipNewlines_runs lines (kind_other closed rfl)).bind ?_)
    exact .accepted closed rfl .pure
  | some opened lines parameters after closed =>
    have first := parameters.front
    refine .accepted opened rfl ((skipNewlines_runs lines (kind_other first rfl)).bind ?_)
    refine .declined (kind_other first rfl) ?_
    have follows := after.ends [.line, .rightParen] closed rfl rfl
    apply (names_run parameters (kind_ne follows rfl)).bind
    apply (skipNewlines_runs after (kind_other closed rfl)).bind
    exact (Runs.expected closed rfl).bind .pure

/-- The head of a method, in the two steps that read it. -/
theorem signature_runs {name : Token} {parameters : Option (List Token)}
    (derived : Grammar.Signature input rest name parameters) (stops : front rest ≠ .leftParen) :
    ∃ middle known takesList, Runs input signature ⟨name, known, takesList⟩ middle ∧
      Runs middle (methodParameters ⟨name, known, takesList⟩) parameters rest := by
  cases derived with
  | subscript opened parameters closed =>
    refine ⟨rest, _, false, .found opened rfl ?_, .declined stops .pure⟩
    apply (names_run parameters (kind_other closed rfl)).bind
    exact (Runs.expected closed rfl).bind .pure
  | infixOperator known list =>
    have listed := mem_infixLevels known
    refine ⟨_, none, true, .missing (kind_ne listed rfl) (.peeked ?_),
      methodParameters_run list stops⟩
    rw [front, if_pos known]
    exact .advanced rfl (beq_false_of_ne (kind_ne listed rfl)) .pure
  | prefixOperator known =>
    have plain : ∀ kind ∈ [TokenKind.bang, .tilde], ¬kind.isInfixOperator ∧ kind ≠ .leftBracket := by
      decide
    refine ⟨rest, none, false, .missing (plain _ known).2 (.peeked ?_), .declined stops .pure⟩
    rw [front, if_neg (plain _ known).1]
    exact .foundAny known (by decide) .pure
  | named named list =>
    refine ⟨_, none, true, .missing (kind_other named rfl) (.peeked ?_),
      methodParameters_run list stops⟩
    rw [front, named]
    refine .missingAny (kind_not_mem named rfl) ?_
    exact (Runs.expected named rfl).bind .pure

variable [nested.Steps]

theorem method_runs (complete : nested.Complete levels) {method : Method Token}
    (derived : MethodDefinition levels input rest method) (stops : front rest ∈ [.line, .rightBrace]) :
    Runs input (Parse.method nested) method rest := by
  cases derived with
  | foreign isForeign shared constructs head =>
    have begins := constructs.front head.front
    obtain ⟨middle, known, takesList, name, parameters⟩ := signature_runs head (kind_ne stops rfl)
    apply (optional_runs (.present isForeign) (kind_ne (shared.front begins) rfl) rfl).bind
    apply (optional_runs shared (kind_ne begins rfl) rfl).bind
    apply (optional_runs constructs (kind_ne head.front rfl) rfl).bind
    exact name.bind (parameters.bind .pure)
  | own shared constructs head opened content =>
    have begins := constructs.front head.front
    obtain ⟨middle, known, takesList, name, parameters⟩ :=
      signature_runs head (kind_other opened rfl)
    have unforeign : front input ≠ .kwForeign := kind_ne (shared.front begins) rfl
    apply (optional_runs .absent unforeign rfl).bind
    apply (optional_runs shared (kind_ne begins rfl) rfl).bind
    apply (optional_runs constructs (kind_ne head.front rfl) rfl).bind
    refine name.bind (parameters.bind ((Runs.expected opened rfl).bind ?_))
    exact (bodyTail_runs complete content).bind .pure

theorem methodsRound_runs (complete : nested.Complete levels) {middle : List Token}
    {method : Method Token} {ending : Round (Method Token)}
    (value : MethodDefinition levels input middle method)
    (stops : front middle ∈ [.line, .rightBrace])
    (goesOn : Runs middle (accept .rightBrace >>= fun closed => if closed
      then Pure.pure (.last method) else expectNewline "newline after definition in class" >>=
        fun _ => Pure.pure (.more method)) ending rest) :
    Runs input (methodsRound nested) ending rest := by
  refine .declined (kind_ne value.front rfl) (.peeked ?_)
  rw [if_neg (kind_ne value.front rfl)]
  exact (method_runs complete value stops).bind goesOn

theorem methods_run (complete : nested.Complete levels) {right : Token}
    (closed : right.kind = .rightBrace) {methods : List (Method Token)}
    (derived : Methods levels input (right :: rest) methods) :
    Runs input (loop (methodsRound nested)) methods rest := by
  induction methods generalizing input with
  | nil =>
    cases derived with
    | none => exact .stop (.accepted closed rfl .pure)
  | cons method methods ih =>
    cases derived with
    | last value =>
      exact .last (methodsRound_runs complete value (kind_mem closed rfl) (.accepted closed rfl .pure))
    | more value lines others =>
      have first := lines.front
      have stops := others.unlined (kind_other closed rfl)
      have round := methodsRound_runs complete value (kind_mem first rfl)
        (.declined (kind_other first rfl) ((expectNewline_runs lines stops).bind .pure))
      exact .more round (ih others)

theorem classTail_runs (complete : nested.Complete levels) {foreign : Option Token} {keyword : Token}
    {statement : Stmt Token}
    (derived : ClassTail (levels + 1) foreign keyword input rest statement) :
    Runs input (classTail nested foreign keyword) statement rest := by
  cases derived with
  | mk named parent opened lines items closed =>
    refine (Runs.expected named rfl).bind ((superclass_runs parent (kind_other opened rfl)).bind ?_)
    apply (Runs.expected opened rfl).bind
    apply (skipNewlines_runs lines (items.unlined (kind_other closed rfl))).bind
    exact (methods_run complete closed items).bind .pure

end Classes
end Parse

/-- No rule that takes a level derives anything without one. -/
theorem Nested.complete_zero (nested : Nested Reel Token) : nested.Complete 0 := by
  constructor
  case expression => intro _ _ _ derived; cases derived
  case conditional => intro _ _ _ _ same; cases same
  case operand => intro _ _ _ _ same; cases same
  case statement => intro _ _ _ derived; cases derived
  case classTail => intro _ _ _ _ _ derived; cases derived

theorem Nested.within_complete (most levels : Nat) (bound : levels ≤ most) :
    (Nested.within most : Nested Reel Token).Complete levels := by
  induction most generalizing levels with
  | zero =>
    obtain rfl := Nat.le_zero.1 bound
    exact Nested.complete_zero _
  | succ most ih =>
    cases levels with
    | zero => exact Nested.complete_zero _
    | succ levels =>
      have complete := ih levels (Nat.le_of_succ_le_succ bound)
      refine ⟨fun derived stops => .deeper (Parse.assignment_runs complete derived stops), ?_, ?_,
        fun derived stops => .deeper (Parse.statement_runs complete derived stops),
        fun derived => .deeper (Parse.classTail_runs complete derived)⟩
      · rintro _ input rest expression ⟨⟩ derived stops
        have other : front rest ≠ .equal := kind_other stops rfl
        exact .deeper (Parse.conditional_runs complete derived (kind_mem stops rfl) fun _ => other)
      · rintro _ input rest expression ⟨⟩ derived stops
        exact .deeper (Parse.operand_runs complete derived stops)

theorem Parse.moduleRound_more {nested : Nested Reel Token} {levels : Nat}
    (complete : nested.Complete levels) {input middle start : List Token} {statement : Stmt Token}
    (value : Definition levels input middle statement) (lines : Lines middle start)
    (stops : front start ≠ .line) : Runs input (moduleRound nested) (.more statement) start := by
  have first := lines.front
  apply Runs.peeked
  rw [if_neg (kind_ne value.front rfl)]
  refine (definition_runs complete value (kind_mem first rfl)).bind (.peeked ?_)
  rw [if_neg (kind_other first rfl)]
  exact (expectNewline_runs lines stops).bind .pure

theorem Parse.moduleStatements_run {nested : Nested Reel Token} [nested.Steps] {levels : Nat}
    (complete : nested.Complete levels) {input rest : List Token} {statements : List (Stmt Token)}
    (items : Definitions levels input rest statements) (ends : front rest = .eof) :
    Runs input (loop (moduleRound nested)) statements rest := by
  refine definitions_run .eof (by decide) ?_ ?_ (moduleRound_more complete) items ends
  · intro rest ends
    apply Runs.peeked
    rw [if_pos ends]
    exact .pure
  · intro input rest statement value ends
    apply Runs.peeked
    rw [if_neg (kind_ne value.front rfl)]
    refine (definition_runs complete value (kind_mem ends rfl)).bind (.peeked ?_)
    rw [if_pos ends]
    exact .pure

theorem Parse.module_reads {state : ParserState Reel Token} (fed : state.Fed) {levels : Nat}
    (bound : levels ≤ Nested.limit - state.depth) {module : Module Token}
    (derived : Script levels state.ahead module) :
    (Parse.module state).1 = module ∧ (Parse.module state).2.problems = state.problems := by
  have complete := Nested.within_complete (Nested.limit - state.depth) levels bound
  let read : Parse Reel Token (List (Stmt Token)) :=
    skipNewlines >>= fun _ => loop (moduleRound (Nested.within (Nested.limit - state.depth)))
  generalize same : state.ahead = input at derived
  cases derived with
  | mk lines items ends =>
    have opens := skipNewlines_runs lines (items.unlined (kind_other ends rfl))
    have runs : Runs input read _ [_] := opens.bind (moduleStatements_run complete items ends)
    obtain ⟨statements, ahead, clean, -⟩ := runs state fed same
    have atEnd : Feed.kind Reel (lookahead (read state).2).1 = .eof := by
      rw [(lookahead_ahead ahead).1]
      exact ends
    have last : expect .eof "end of input" (read state).2 = advance (read state).2 := by
      rw [expect_apply, if_pos atEnd]
    refine ⟨congrArg Module.mk statements, ?_⟩
    change (expect .eof "end of input" (read state).2).2.problems = state.problems
    rw [last, advance_problems, clean]

/-- A script that the grammar derives within the limit on nesting parses without a problem, and its
module is the tree of the derivation. -/
theorem Source.parse_complete (source : Source) (module : Module Token) (levels : Nat)
    (bound : levels ≤ Nested.limit) (derived : Grammar.Script levels source.tokens module) :
    source.parse.problems = [] ∧ source.parse.module = module := by
  obtain ⟨sameModule, sameProblems⟩ := source.parse_reel
  obtain ⟨fed, ahead, depth, none⟩ := Parse.ofReel_fed source
  rw [← ahead] at derived
  obtain ⟨reads, clean⟩ := Parse.module_reads fed (depth ▸ bound) derived
  exact ⟨(sameProblems.trans clean).trans none, sameModule.trans reads⟩

namespace Grammar

theorem Operand.atLevels {levels : Nat} {input rest : List Token} {expression : Expr Token}
    (value : Operand levels input rest expression) (operators : List (List TokenKind)) :
    Infix levels operators input rest expression := by
  induction operators with
  | nil => exact .operand value
  | cons level tighter ih => exact .tighter ih

theorem Expression.ofName {levels : Nat} {name : Token} {rest : List Token}
    (named : name.kind = .name) :
    Expression (levels + 1) (name :: rest) rest (.call none name none none) := by
  have value : Operand levels (name :: rest) rest (.call none name none none) :=
    .chain (.primary (.call named .none .none))
  exact .plain (.plain (value.atLevels _))

theorem Statement.ofName {levels : Nat} {name : Token} {rest : List Token}
    (named : name.kind = .name) :
    Statement (levels + 2) (name :: rest) rest (.expression (.call none name none none)) :=
  .expression (kind_other named rfl) (.ofName named)

end Grammar

/-- A script with one statement in another. -/
def Source.branching : Source where
  id := "branching"
  bytes := Text.Utf8.encode "if (a) b else c"

def Source.branchingModule : Module Token :=
  ⟨[.ifElse ⟨.kwIf, 0, 2⟩ (.call none ⟨.name, 4, 1⟩ none none)
    (.expression (.call none ⟨.name, 7, 1⟩ none none))
    (some (.expression (.call none ⟨.name, 14, 1⟩ none none)))]⟩

theorem Source.branching_derived :
    Grammar.Script 3 Source.branching.tokens Source.branchingModule := by
  have tokens : Source.branching.tokens = [⟨.kwIf, 0, 2⟩, ⟨.leftParen, 3, 1⟩, ⟨.name, 4, 1⟩,
      ⟨.rightParen, 5, 1⟩, ⟨.name, 7, 1⟩, ⟨.kwElse, 9, 4⟩, ⟨.name, 14, 1⟩, ⟨.eof, 15, 0⟩] := by
    decide +kernel
  rw [tokens]
  apply Grammar.Script.mk .none
  · apply Grammar.Definitions.last
    apply Grammar.Definition.statement
    refine .ifElse ?_ ?_ .none (.ofName ?_) ?_ (.ofName ?_) ?_ (.ofName ?_) <;> rfl
  · rfl

theorem Source.branching_complete : 3 ≤ Nested.limit ∧
    Grammar.Script 3 Source.branching.tokens Source.branchingModule ∧
    Source.branching.parse.problems = [] ∧
    Source.branching.parse.module = Source.branchingModule :=
  ⟨by decide, Source.branching_derived,
    Source.parse_complete Source.branching Source.branchingModule 3 (by decide)
      Source.branching_derived⟩

end WrenFront
