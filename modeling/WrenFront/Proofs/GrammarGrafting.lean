import WrenFront.Proofs.Grammar
import WrenFront.Proofs.LexerJoining

/-! A derivation goes on to hold if its end token gives way to a newline and other tokens after it. No
rule takes the end token, and where a rule looks at the token after it, an end and a newline are the
same to it. -/

set_option linter.unusedSectionVars false

namespace WrenFront

theorem graft_cons {more rest : List Token} {token : Token} (before : token.kind ≠ .eof) :
    graft more (token :: rest) = token :: graft more rest :=
  if_neg before

theorem graft_kind {more rest : List Token} {token : Token} {kind : TokenKind}
    (same : token.kind = kind) (before : (kind == .eof) = false) :
    graft more (token :: rest) = token :: graft more rest :=
  graft_cons (Grammar.kind_other same before)

namespace Grammar

section Front
variable {more input : List Token}

theorem front_graft (newline : front more = .line) :
    front (graft more input) = if front input = .eof then .line else front input := by
  cases input with
  | nil => exact newline
  | cons token rest =>
    rw [graft]
    by_cases ends : token.kind = .eof
    · rw [if_pos ends, newline, front, if_pos ends]
    · rw [if_neg ends, front, front, if_neg ends]

/-- A kind other than a newline is in front afterwards only if it was before. -/
theorem front_graft_ne (newline : front more = .line) {kind : TokenKind}
    (other : front input ≠ kind) (unlined : (kind == .line) = false) :
    front (graft more input) ≠ kind := by
  rw [front_graft newline]
  split
  · exact (ne_of_beq_false unlined).symm
  · exact other

theorem front_graft_eq (newline : front more = .line) (before : front input ≠ .eof) :
    front (graft more input) = front input := by
  rw [front_graft newline, if_neg before]

end Front

theorem Newlines.grafted (more : List Token) {input rest : List Token} :
    Newlines input rest → Newlines (graft more input) (graft more rest)
  | .none => .none
  | .more line others => by
    rw [graft_kind line rfl]
    exact .more line (others.grafted more)

theorem Lines.grafted (more : List Token) {input rest : List Token} (lines : Lines input rest) :
    Lines (graft more input) (graft more rest) := by
  obtain ⟨newline, after, rfl, line, others⟩ := lines
  rw [graft_kind line rfl]
  exact ⟨newline, _, rfl, line, others.grafted more⟩

theorem Names.grafted (more : List Token) {input rest names : List Token} :
    Names input rest names → Names (graft more input) (graft more rest) names
  | .last named => by
    rw [graft_kind named rfl]
    exact .last named
  | .more named separated lines others => by
    rw [graft_kind named rfl, graft_kind separated rfl]
    exact .more named separated (lines.grafted more) (others.grafted more)

theorem Optional.grafted (more : List Token) {kind : TokenKind} {input rest : List Token}
    {token : Option Token} (optional : Optional kind input rest token)
    (before : (kind == .eof) = false) :
    Optional kind (graft more input) (graft more rest) token := by
  cases optional with
  | absent => exact .absent
  | present same =>
    rw [graft_kind same before]
    exact .present same

theorem Superclass.grafted (more : List Token) {input rest : List Token} {name : Option Token}
    (parent : Superclass input rest name) :
    Superclass (graft more input) (graft more rest) name := by
  cases parent with
  | none => exact .none
  | named isKeyword named =>
    rw [graft_kind isKeyword rfl, graft_kind named rfl]
    exact .named isKeyword named

theorem BlockParameters.grafted (more : List Token) {input rest : List Token}
    {parameters : Option (List Token)} (bars : BlockParameters input rest parameters) :
    BlockParameters (graft more input) (graft more rest) parameters := by
  cases bars with
  | none => exact .none
  | some opened parameters closed =>
    have names := parameters.grafted more
    rw [graft_kind closed rfl] at names
    rw [graft_kind opened rfl]
    exact .some opened names closed

theorem ParameterList.grafted (more : List Token) {input rest : List Token}
    {parameters : Option (List Token)} (list : ParameterList input rest parameters) :
    ParameterList (graft more input) (graft more rest) parameters := by
  cases list with
  | none => exact .none
  | empty opened lines closed =>
    have inside := lines.grafted more
    rw [graft_kind closed rfl] at inside
    rw [graft_kind opened rfl]
    exact .empty opened inside closed
  | some opened lines parameters after closed =>
    have inside := after.grafted more
    rw [graft_kind closed rfl] at inside
    rw [graft_kind opened rfl]
    exact .some opened (lines.grafted more) (parameters.grafted more) inside closed

theorem infixLevels_before : ∀ kind ∈ TokenKind.infixLevels.flatten, kind ≠ .eof := by
  decide

theorem Signature.grafted (more : List Token) {input rest : List Token} {name : Token}
    {parameters : Option (List Token)} (head : Signature input rest name parameters) :
    Signature (graft more input) (graft more rest) name parameters := by
  cases head with
  | subscript opened parameters closed =>
    have names := parameters.grafted more
    rw [graft_kind closed rfl] at names
    rw [graft_kind opened rfl]
    exact .subscript opened names closed
  | infixOperator known list =>
    rw [graft_cons (infixLevels_before _ (mem_infixLevels known))]
    exact .infixOperator known (list.grafted more)
  | prefixOperator known =>
    rw [graft_cons (kind_ne known rfl)]
    exact .prefixOperator known
  | named named list =>
    rw [graft_kind named rfl]
    exact .named named (list.grafted more)

theorem isPrefixOperator_before {kind : TokenKind} (known : kind.isPrefixOperator) :
    kind ≠ .eof := by
  rintro rfl
  cases known

section Rules
variable {more : List Token} (newline : front more = .line)
include newline

mutual

theorem Expression.grafted {levels : Nat} {input rest : List Token} {tree : Expr Token} :
    Expression levels input rest tree → Expression levels (graft more input) (graft more rest) tree
  | .plain value => .plain value.grafted
  | .assignment left assigns plain right => by
    have target := left.grafted
    rw [graft_kind assigns rfl] at target
    exact .assignment target assigns plain right.grafted

theorem Conditional.grafted {levels : Nat} {input rest : List Token} {tree : Expr Token} :
    Conditional levels input rest tree →
      Conditional levels (graft more input) (graft more rest) tree
  | .plain value => .plain (value.grafted infixLevels_before)
  | .choice test asks positive divides negative => by
    have condition := test.grafted infixLevels_before
    have thenBranch := positive.grafted
    rw [graft_kind asks rfl] at condition
    rw [graft_kind divides rfl] at thenBranch
    exact .choice condition asks thenBranch divides negative.grafted

theorem Infix.grafted {levels : Nat} {operators : List (List TokenKind)} {input rest : List Token}
    {tree : Expr Token} :
    Infix levels operators input rest tree → (∀ kind ∈ operators.flatten, kind ≠ .eof) →
      Infix levels operators (graft more input) (graft more rest) tree
  | .operand value, _ => .operand value.grafted
  | .tighter value, before =>
    .tighter (value.grafted fun kind member => before kind (List.mem_append_right _ member))
  | .operator first joins lines second, before => by
    have left := first.grafted before
    have right := second.grafted fun kind member => before kind (List.mem_append_right _ member)
    rw [graft_cons (before _ (List.mem_append_left _ joins))] at left
    exact .operator left joins (lines.grafted more) right

theorem Operand.grafted {levels : Nat} {input rest : List Token} {tree : Expr Token} :
    Operand levels input rest tree → Operand levels (graft more input) (graft more rest) tree
  | .chain value => .chain value.grafted
  | .negated known value => by
    rw [graft_cons (isPrefixOperator_before known)]
    exact .negated known value.grafted

theorem Chain.grafted {levels : Nat} {input rest : List Token} {tree : Expr Token} :
    Chain levels input rest tree → Chain levels (graft more input) (graft more rest) tree
  | .primary value => .primary value.grafted
  | .subscript first opened lines items closed => by
    have receiver := first.grafted
    have arguments := items.grafted
    rw [graft_kind opened rfl] at receiver
    rw [graft_kind closed rfl] at arguments
    exact .subscript receiver opened (lines.grafted more) arguments closed
  | .call first dotted named list last => by
    have receiver := first.grafted
    rw [graft_kind dotted rfl, graft_kind named rfl] at receiver
    exact .call receiver dotted named list.grafted last.grafted

theorem Primary.grafted {levels : Nat} {input rest : List Token} {tree : Expr Token} :
    Primary levels input rest tree → Primary levels (graft more input) (graft more rest) tree
  | .literal stands => by
    rw [graft_cons (kind_ne (literal?_front stands) rfl)]
    exact .literal stands
  | .grouping opened value closed => by
    have inside := value.grafted
    rw [graft_kind closed rfl] at inside
    rw [graft_kind opened rfl]
    exact .grouping opened inside closed
  | .list opened lines items closed => by
    have elements := items.grafted
    rw [graft_kind closed rfl] at elements
    rw [graft_kind opened rfl]
    exact .list opened (lines.grafted more) elements closed
  | .map opened lines items closed => by
    have entries := items.grafted
    rw [graft_kind closed rfl] at entries
    rw [graft_kind opened rfl]
    exact .map opened (lines.grafted more) entries closed
  | .call named list last => by
    rw [graft_kind named rfl]
    exact .call named list.grafted last.grafted
  | .superCall isKeyword undotted list last => by
    rw [graft_kind isKeyword rfl]
    exact .superCall isKeyword (front_graft_ne newline undotted rfl) list.grafted last.grafted
  | .superMethod isKeyword dotted named list last => by
    rw [graft_kind isKeyword rfl, graft_kind dotted rfl, graft_kind named rfl]
    exact .superMethod isKeyword dotted named list.grafted last.grafted
  | .interpolation segments ends => by
    have parts := segments.grafted
    rw [graft_kind ends rfl] at parts
    exact .interpolation parts ends

theorem Expressions.grafted {levels : Nat} {input rest : List Token} {trees : List (Expr Token)} :
    Expressions levels input rest trees →
      Expressions levels (graft more input) (graft more rest) trees
  | .last value => .last value.grafted
  | .more value separated lines others => by
    have first := value.grafted
    rw [graft_kind separated rfl] at first
    exact .more first separated (lines.grafted more) others.grafted

theorem CallArguments.grafted {levels : Nat} {input rest : List Token}
    {arguments : Option (List (Expr Token))} :
    CallArguments levels input rest arguments →
      CallArguments levels (graft more input) (graft more rest) arguments
  | .none => .none
  | .empty opened closed => by
    rw [graft_kind opened rfl, graft_kind closed rfl]
    exact .empty opened closed
  | .some opened lines items closed => by
    have arguments := items.grafted
    rw [graft_kind closed rfl] at arguments
    rw [graft_kind opened rfl]
    exact .some opened (lines.grafted more) arguments closed

theorem BlockArgument.grafted {levels : Nat} {input rest : List Token} {block : Option (Body Token)}
    :
    BlockArgument levels input rest block →
      BlockArgument levels (graft more input) (graft more rest) block
  | .none => .none
  | .some opened bars content => by
    rw [graft_kind opened rfl]
    exact .some opened (bars.grafted more) content.grafted

theorem Elements.grafted {levels : Nat} {input rest : List Token} {trees : List (Expr Token)} :
    Elements levels input rest trees → Elements levels (graft more input) (graft more rest) trees
  | .none => .none
  | .last value lines => .last value.grafted (lines.grafted more)
  | .more value lines separated linesAfter others => by
    have after := lines.grafted more
    rw [graft_kind separated rfl] at after
    exact .more value.grafted after separated (linesAfter.grafted more)
      others.grafted

theorem KeyValue.grafted {levels : Nat} {input rest : List Token} {entry : MapEntry Token} :
    KeyValue levels input rest entry → KeyValue levels (graft more input) (graft more rest) entry
  | .mk first divides second => by
    have key := first.grafted
    rw [graft_kind divides rfl] at key
    exact .mk key divides second.grafted

theorem Entries.grafted {levels : Nat} {input rest : List Token} {entries : List (MapEntry Token)} :
    Entries levels input rest entries → Entries levels (graft more input) (graft more rest) entries
  | .none => .none
  | .last value lines => .last value.grafted (lines.grafted more)
  | .more value lines separated linesAfter others => by
    have after := lines.grafted more
    rw [graft_kind separated rfl] at after
    exact .more value.grafted after separated (linesAfter.grafted more)
      others.grafted

theorem Parts.grafted {levels : Nat} {input rest : List Token}
    {parts : List (InterpolationPart Token)} :
    Parts levels input rest parts → Parts levels (graft more input) (graft more rest) parts
  | .last opens value => by
    rw [graft_kind opens rfl]
    exact .last opens value.grafted
  | .more opens value others => by
    rw [graft_kind opens rfl]
    exact .more opens value.grafted others.grafted

theorem Content.grafted {levels : Nat} {parameters : Option (List Token)} {input rest : List Token}
    {body : Body Token} :
    Content levels parameters input rest body →
      Content levels parameters (graft more input) (graft more rest) body
  | .empty closed => by
    rw [graft_kind closed rfl]
    exact .empty closed
  | .single value lines closed => by
    have after := lines.grafted more
    rw [graft_kind closed rfl] at after
    exact .single value.grafted after closed
  | .lines opened items closed => by
    have statements := items.grafted
    rw [graft_kind closed rfl] at statements
    exact .lines (opened.grafted more) statements closed

theorem Element.grafted {levels : Nat} {input rest : List Token} {element : Stmt Token} :
    Element levels input rest element → Element levels (graft more input) (graft more rest) element
  | .statement begins value => by
    refine .statement ?_ value.grafted
    rw [front_graft_eq newline (kind_ne begins rfl)]
    exact begins
  | .expression value => .expression value.grafted

theorem LineStatements.grafted {levels : Nat} {input rest : List Token}
    {statements : List (Stmt Token)} :
    LineStatements levels input rest statements →
      LineStatements levels (graft more input) (graft more rest) statements
  | .none => .none
  | .more value lines others =>
    .more value.grafted (lines.grafted more) others.grafted

theorem Definitions.grafted {levels : Nat} {input rest : List Token}
    {statements : List (Stmt Token)} :
    Definitions levels input rest statements →
      Definitions levels (graft more input) (graft more rest) statements
  | .none => .none
  | .last value => .last value.grafted
  | .more value lines others =>
    .more value.grafted (lines.grafted more) others.grafted

theorem Definition.grafted {levels : Nat} {input rest : List Token} {statement : Stmt Token} :
    Definition levels input rest statement →
      Definition levels (graft more input) (graft more rest) statement
  | .ownClass isKeyword tail => by
    rw [graft_kind isKeyword rfl]
    exact .ownClass isKeyword tail.grafted
  | .foreignClass isForeign isKeyword tail => by
    rw [graft_kind isForeign rfl, graft_kind isKeyword rfl]
    exact .foreignClass isForeign isKeyword tail.grafted
  | .importAll isKeyword isPath => by
    rw [graft_kind isKeyword rfl, graft_kind isPath rfl]
    exact .importAll isKeyword isPath
  | .importNames isKeyword isPath isFor lines imported => by
    rw [graft_kind isKeyword rfl, graft_kind isPath rfl, graft_kind isFor rfl]
    exact .importNames isKeyword isPath isFor (lines.grafted more) (imported.grafted more)
  | .declared isKeyword named => by
    rw [graft_kind isKeyword rfl, graft_kind named rfl]
    exact .declared isKeyword named
  | .initialized isKeyword named assigns initializer => by
    rw [graft_kind isKeyword rfl, graft_kind named rfl, graft_kind assigns rfl]
    exact .initialized isKeyword named assigns initializer.grafted
  | .statement value => .statement value.grafted

theorem Statement.grafted {levels : Nat} {input rest : List Token} {statement : Stmt Token} :
    Statement levels input rest statement →
      Statement levels (graft more input) (graft more rest) statement
  | .breakLoop isKeyword => by
    rw [graft_kind isKeyword rfl]
    exact .breakLoop isKeyword
  | .ifOnly isKeyword opened lines test closed positive complete => by
    have condition := test.grafted
    rw [graft_kind closed rfl] at condition
    rw [graft_kind isKeyword rfl, graft_kind opened rfl]
    exact .ifOnly isKeyword opened (lines.grafted more) condition closed positive.grafted
      (front_graft_ne newline complete rfl)
  | .ifElse isKeyword opened lines test closed positive isElse negative => by
    have condition := test.grafted
    have thenBranch := positive.grafted
    rw [graft_kind closed rfl] at condition
    rw [graft_kind isElse rfl] at thenBranch
    rw [graft_kind isKeyword rfl, graft_kind opened rfl]
    exact .ifElse isKeyword opened (lines.grafted more) condition closed thenBranch isElse
      negative.grafted
  | .forIn isKeyword opened named isIn lines ranges closed repeated => by
    have iterator := ranges.grafted
    rw [graft_kind closed rfl] at iterator
    rw [graft_kind isKeyword rfl, graft_kind opened rfl, graft_kind named rfl, graft_kind isIn rfl]
    exact .forIn isKeyword opened named isIn (lines.grafted more) iterator closed
      repeated.grafted
  | .whileDo isKeyword opened lines test closed repeated => by
    have condition := test.grafted
    rw [graft_kind closed rfl] at condition
    rw [graft_kind isKeyword rfl, graft_kind opened rfl]
    exact .whileDo isKeyword opened (lines.grafted more) condition closed repeated.grafted
  | .returnNothing isKeyword ends => by
    rw [graft_kind isKeyword rfl]
    refine .returnNothing isKeyword ?_
    -- The end of the input becomes a newline, which ends the statement as well.
    rw [front_graft newline]
    split
    · decide
    · exact ends
  | .returnValue isKeyword result => by
    rw [graft_kind isKeyword rfl]
    exact .returnValue isKeyword result.grafted
  | .block opened lines items closed => by
    have statements := items.grafted
    rw [graft_kind closed rfl] at statements
    rw [graft_kind opened rfl]
    exact .block opened (lines.grafted more) statements closed
  | .expression unbraced value =>
    .expression (front_graft_ne newline unbraced rfl) value.grafted

theorem ClassTail.grafted {levels : Nat} {foreign : Option Token} {keyword : Token}
    {input rest : List Token} {statement : Stmt Token} :
    ClassTail levels foreign keyword input rest statement →
      ClassTail levels foreign keyword (graft more input) (graft more rest) statement
  | .mk named parent opened lines items closed => by
    have superclass := parent.grafted more
    have methods := items.grafted
    rw [graft_kind opened rfl] at superclass
    rw [graft_kind closed rfl] at methods
    rw [graft_kind named rfl]
    exact .mk named superclass opened (lines.grafted more) methods closed

theorem Methods.grafted {levels : Nat} {input rest : List Token} {methods : List (Method Token)} :
    Methods levels input rest methods → Methods levels (graft more input) (graft more rest) methods
  | .none => .none
  | .last value => .last value.grafted
  | .more value lines others =>
    .more value.grafted (lines.grafted more) others.grafted

theorem MethodDefinition.grafted {levels : Nat} {input rest : List Token} {method : Method Token} :
    MethodDefinition levels input rest method →
      MethodDefinition levels (graft more input) (graft more rest) method
  | .foreign isForeign shared constructs head => by
    rw [graft_kind isForeign rfl]
    exact .foreign isForeign (shared.grafted more rfl) (constructs.grafted more rfl)
      (head.grafted more)
  | .own shared constructs head opened content => by
    have signature := head.grafted more
    rw [graft_kind opened rfl] at signature
    exact .own (shared.grafted more rfl) (constructs.grafted more rfl) signature opened
      content.grafted

end

end Rules

end Grammar
end WrenFront
