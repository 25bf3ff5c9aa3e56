import WrenFront.Proofs.Grammar
import WrenFront.Proofs.LexerBalance

/-! The string segments of a tree, each with the part it plays there. Only the parser decides it: a
whole literal and what follows the last interpolation of one are tokens of the same kind. -/

namespace WrenFront

variable {τ : Type}

/-- Whether a string segment begins a literal, or goes on with one after an interpolation. -/
inductive SegmentPlace where
  | beginning
  | resuming
  deriving DecidableEq, Repr

/-- The byte that a segment should begin with: a quote, or the parenthesis that closes the
interpolation before it. -/
def SegmentPlace.delimiter : SegmentPlace → UInt8
  | .beginning => 34
  | .resuming => 41

mutual
/-- The string segments in an expression, in the order they are written. -/
def Expr.strings : Expr τ → List (SegmentPlace × τ)
  | .list _ elements _ => exprStrings elements
  | .map _ entries _ => entryStrings entries
  | .grouping _ expression _ => expression.strings
  | .this _ | .null _ | .bool _ | .number _ | .field _ | .staticField _ => []
  | .string token => [(.beginning, token)]
  | .assignment target _ value => target.strings ++ value.strings
  | .conditional condition _ thenBranch _ elseBranch =>
    condition.strings ++ thenBranch.strings ++ elseBranch.strings
  | .infixOp left _ right => left.strings ++ right.strings
  | .prefixOp _ operand => operand.strings
  | .call receiver _ arguments block =>
    expr?Strings receiver ++ argumentStrings arguments ++ blockStrings block
  | .superCall _ _ arguments block => argumentStrings arguments ++ blockStrings block
  | .subscript receiver _ arguments _ => receiver.strings ++ exprStrings arguments
  | .interpolation parts last => partStrings .beginning parts ++ [(.resuming, last)]

def exprStrings : List (Expr τ) → List (SegmentPlace × τ)
  | [] => []
  | expression :: rest => expression.strings ++ exprStrings rest

def expr?Strings : Option (Expr τ) → List (SegmentPlace × τ)
  | none => []
  | some expression => expression.strings

def argumentStrings : Option (List (Expr τ)) → List (SegmentPlace × τ)
  | none => []
  | some arguments => exprStrings arguments

def MapEntry.strings : MapEntry τ → List (SegmentPlace × τ)
  | .mk key value => key.strings ++ value.strings

def entryStrings : List (MapEntry τ) → List (SegmentPlace × τ)
  | [] => []
  | entry :: rest => entry.strings ++ entryStrings rest

/-- Only the first of the segments can begin the literal. -/
def partStrings (place : SegmentPlace) : List (InterpolationPart τ) → List (SegmentPlace × τ)
  | [] => []
  | .mk segment expression :: rest =>
    (place, segment) :: expression.strings ++ partStrings .resuming rest

def Body.strings : Body τ → List (SegmentPlace × τ)
  | .single _ element => element.strings
  | .sequence _ statements => stmtStrings statements

def blockStrings : Option (Body τ) → List (SegmentPlace × τ)
  | none => []
  | some body => body.strings

def Method.strings : Method τ → List (SegmentPlace × τ)
  | .mk _ _ _ _ _ body => blockStrings body

def methodStrings : List (Method τ) → List (SegmentPlace × τ)
  | [] => []
  | method :: rest => method.strings ++ methodStrings rest

/-- The path of an import is a literal. -/
def Stmt.strings : Stmt τ → List (SegmentPlace × τ)
  | .classDef _ _ _ _ methods => methodStrings methods
  | .importDef _ path _ => [(.beginning, path)]
  | .varDef _ _ initializer => expr?Strings initializer
  | .ifElse _ condition thenBranch elseBranch =>
    condition.strings ++ thenBranch.strings ++ stmt?Strings elseBranch
  | .forIn _ _ iterator body => iterator.strings ++ body.strings
  | .whileDo _ condition body => condition.strings ++ body.strings
  | .returnValue _ value => expr?Strings value
  | .breakLoop _ => []
  | .block _ statements _ => stmtStrings statements
  | .expression expression => expression.strings

def stmt?Strings : Option (Stmt τ) → List (SegmentPlace × τ)
  | none => []
  | some statement => statement.strings

def stmtStrings : List (Stmt τ) → List (SegmentPlace × τ)
  | [] => []
  | statement :: rest => statement.strings ++ stmtStrings rest
end

def Module.strings (module : Module τ) : List (SegmentPlace × τ) :=
  stmtStrings module.statements

namespace Grammar

def isString (token : Token) : Bool :=
  stringKinds.contains token.kind

/-- The strings are those among the tokens between `input` and `rest`, and each segment that opens
an interpolation has one that goes on after it. -/
structure Accounts (input rest : List Token) (strings : List (SegmentPlace × Token)) : Prop where
  same : input.filter isString = strings.map Prod.snd ++ rest.filter isString
  paired : strings.countP (·.2.opens) = strings.countP (·.1 = .resuming)

namespace Accounts
variable {input middle rest : List Token} {strings others : List (SegmentPlace × Token)}

theorem refl : Accounts input input [] :=
  ⟨rfl, rfl⟩

theorem trans (first : Accounts input middle strings) (second : Accounts middle rest others) :
    Accounts input rest (strings ++ others) := by
  constructor
  · rw [first.same, second.same, List.map_append, List.append_assoc]
  · rw [List.countP_append, List.countP_append, first.paired, second.paired]

theorem before {token : Token} {kind : TokenKind} (accounts : Accounts input rest strings)
    (same : token.kind = kind) (other : stringKinds.contains kind = false) :
    Accounts (token :: input) rest strings := by
  have plain : ¬ isString token := by rw [isString, same, other]; exact Bool.false_ne_true
  refine ⟨?_, accounts.paired⟩
  rw [List.filter_cons_of_neg plain, accounts.same]

theorem after {token : Token} {kind : TokenKind} (accounts : Accounts input (token :: rest) strings)
    (same : token.kind = kind) (other : stringKinds.contains kind = false) :
    Accounts input rest strings := by
  have plain : ¬ isString token := by rw [isString, same, other]; exact Bool.false_ne_true
  refine ⟨?_, accounts.paired⟩
  rw [accounts.same, List.filter_cons_of_neg plain]

/-- A segment that ends its literal and stands at its beginning needs no other. -/
theorem whole {token : Token} (isString : token.kind = .string) :
    Accounts (token :: rest) rest [(.beginning, token)] := by
  constructor
  · simp [Grammar.isString, isString, stringKinds]
  · simp [Token.opens, isString]

/-- A segment between two interpolations ends the one and opens the other. -/
theorem between {segment : Token} (opens : segment.kind = .interpolation)
    (accounts : Accounts input rest strings) :
    Accounts (segment :: input) rest ((.resuming, segment) :: strings) := by
  constructor
  · simp [Grammar.isString, opens, stringKinds, accounts.same]
  · simp [Token.opens, opens, ← accounts.paired]

/-- The first segment of a literal opens the interpolation that the last one goes on after. -/
theorem around {segment last : Token} (opens : segment.kind = .interpolation)
    (accounts : Accounts input (last :: rest) strings) (ends : last.kind = .string) :
    Accounts (segment :: input) rest ((.beginning, segment) :: strings ++ [(.resuming, last)]) := by
  constructor
  · simp [Grammar.isString, opens, ends, stringKinds, accounts.same]
  · simp [Token.opens, opens, ends, List.countP_append, ← accounts.paired]

end Accounts

theorem Newlines.accounts {input rest : List Token} :
    Newlines input rest → Accounts input rest []
  | .none => .refl
  | .more line others => others.accounts.before line rfl

theorem Lines.accounts {input rest : List Token} (lines : Lines input rest) :
    Accounts input rest [] := by
  obtain ⟨newline, after, rfl, line, others⟩ := lines
  exact others.accounts.before line rfl

theorem Names.accounts {input rest names : List Token} :
    Names input rest names → Accounts input rest []
  | .last named => Accounts.refl.before named rfl
  | .more named separated lines others =>
    ((lines.accounts.trans others.accounts).before separated rfl).before named rfl

theorem Optional.accounts {kind : TokenKind} {input rest : List Token} {token : Option Token}
    (optional : Optional kind input rest token) (other : stringKinds.contains kind = false) :
    Accounts input rest [] := by
  cases optional with
  | absent => exact .refl
  | present same => exact Accounts.refl.before same other

theorem Superclass.accounts {input rest : List Token} {name : Option Token}
    (parent : Superclass input rest name) : Accounts input rest [] := by
  cases parent with
  | none => exact .refl
  | named isKeyword named => exact (Accounts.refl.before named rfl).before isKeyword rfl

theorem BlockParameters.accounts {input rest : List Token} {parameters : Option (List Token)}
    (bars : BlockParameters input rest parameters) : Accounts input rest [] := by
  cases bars with
  | none => exact .refl
  | some opened parameters closed => exact (parameters.accounts.after closed rfl).before opened rfl

theorem ParameterList.accounts {input rest : List Token} {parameters : Option (List Token)}
    (list : ParameterList input rest parameters) : Accounts input rest [] := by
  cases list with
  | none => exact .refl
  | empty opened lines closed => exact (lines.accounts.after closed rfl).before opened rfl
  | some opened lines parameters after closed =>
    have inside := (lines.accounts.trans parameters.accounts).trans after.accounts
    exact (inside.after closed rfl).before opened rfl

theorem infixLevels_plain :
    ∀ kind ∈ TokenKind.infixLevels.flatten, stringKinds.contains kind = false := by
  decide

theorem Signature.accounts {input rest : List Token} {name : Token}
    {parameters : Option (List Token)} (head : Signature input rest name parameters) :
    Accounts input rest [] := by
  cases head with
  | subscript opened parameters closed => exact (parameters.accounts.after closed rfl).before opened rfl
  | infixOperator known list =>
    exact list.accounts.before rfl (infixLevels_plain _ (mem_infixLevels known))
  | prefixOperator known =>
    have plain : ∀ kind ∈ [TokenKind.bang, .tilde], stringKinds.contains kind = false := by decide
    exact Accounts.refl.before rfl (plain _ known)
  | named named list => exact list.accounts.before named rfl

theorem literal?_accounts {token : Token} {rest : List Token} {expression : Expr Token}
    (stands : literal? token = some expression) :
    Accounts (token :: rest) rest expression.strings := by
  unfold literal? at stands
  split at stands
  all_goals
    cases stands
  case h_8 isString =>
    exact .whole isString
  all_goals
    next same => exact Accounts.refl.before same rfl

theorem isPrefixOperator_plain {kind : TokenKind} (known : kind.isPrefixOperator) :
    stringKinds.contains kind = false := by
  simp only [TokenKind.isPrefixOperator, Bool.or_eq_true, beq_iff_eq] at known
  rcases known with (rfl | rfl) | rfl <;> rfl

mutual

theorem Expression.accounts {levels : Nat} {input rest : List Token} {tree : Expr Token} :
    Expression levels input rest tree → Accounts input rest tree.strings
  | .plain value => value.accounts
  | .assignment left assigns _ right => by
    rw [Expr.strings]
    exact (left.accounts.after assigns rfl).trans right.accounts

theorem Conditional.accounts {levels : Nat} {input rest : List Token} {tree : Expr Token} :
    Conditional levels input rest tree → Accounts input rest tree.strings
  | .plain value => value.accounts infixLevels_plain
  | .choice test asks positive divides negative => by
    rw [Expr.strings]
    have chosen := (positive.accounts.after divides rfl).trans negative.accounts
    rw [List.append_assoc]
    exact ((test.accounts infixLevels_plain).after asks rfl).trans chosen

theorem Infix.accounts {levels : Nat} {operators : List (List TokenKind)}
    {input rest : List Token} {tree : Expr Token} :
    Infix levels operators input rest tree →
      (∀ kind ∈ operators.flatten, stringKinds.contains kind = false) → Accounts input rest tree.strings
  | .operand value, _ => value.accounts
  | .tighter value, plain =>
    value.accounts fun kind member => plain kind (List.mem_append_right _ member)
  | .operator first joins lines second, plain => by
    rw [Expr.strings]
    have other := plain _ (List.mem_append_left _ joins)
    have right := second.accounts fun kind member => plain kind (List.mem_append_right _ member)
    exact ((first.accounts plain).after rfl other).trans (lines.accounts.trans right)

theorem Operand.accounts {levels : Nat} {input rest : List Token} {tree : Expr Token} :
    Operand levels input rest tree → Accounts input rest tree.strings
  | .chain value => value.accounts
  | .negated known value => by
    rw [Expr.strings]
    exact value.accounts.before rfl (isPrefixOperator_plain known)

theorem Chain.accounts {levels : Nat} {input rest : List Token} {tree : Expr Token} :
    Chain levels input rest tree → Accounts input rest tree.strings
  | .primary value => value.accounts
  | .subscript first opened lines items closed => by
    rw [Expr.strings]
    exact (first.accounts.after opened rfl).trans ((lines.accounts.trans items.accounts).after closed rfl)
  | .call first dotted named list last => by
    rw [Expr.strings, expr?Strings, List.append_assoc]
    have receiver := (first.accounts.after dotted rfl).after named rfl
    exact receiver.trans (list.accounts.trans last.accounts)

theorem Primary.accounts {levels : Nat} {input rest : List Token} {tree : Expr Token} :
    Primary levels input rest tree → Accounts input rest tree.strings
  | .literal stands => literal?_accounts stands
  | .grouping opened value closed => by
    rw [Expr.strings]
    exact (value.accounts.after closed rfl).before opened rfl
  | .list opened lines items closed => by
    rw [Expr.strings]
    exact ((lines.accounts.trans items.accounts).after closed rfl).before opened rfl
  | .map opened lines items closed => by
    rw [Expr.strings]
    exact ((lines.accounts.trans items.accounts).after closed rfl).before opened rfl
  | .call named list last => by
    rw [Expr.strings, expr?Strings, List.nil_append]
    exact (list.accounts.trans last.accounts).before named rfl
  | .superCall isKeyword _ list last => by
    rw [Expr.strings]
    exact (list.accounts.trans last.accounts).before isKeyword rfl
  | .superMethod isKeyword dotted named list last => by
    rw [Expr.strings]
    exact (((list.accounts.trans last.accounts).before named rfl).before dotted rfl).before isKeyword rfl
  | .interpolation (.last opens value) ends => by
    rw [Expr.strings, partStrings, partStrings, List.append_nil]
    exact value.accounts.around opens ends
  | .interpolation (.more opens value others) ends => by
    rw [Expr.strings, partStrings]
    exact (value.accounts.trans others.accounts).around opens ends

theorem Expressions.accounts {levels : Nat} {input rest : List Token}
    {trees : List (Expr Token)} :
    Expressions levels input rest trees → Accounts input rest (exprStrings trees)
  | .last value => by
    rw [exprStrings, exprStrings, List.append_nil]
    exact value.accounts
  | .more value separated lines others => by
    rw [exprStrings]
    exact (value.accounts.after separated rfl).trans (lines.accounts.trans others.accounts)

theorem CallArguments.accounts {levels : Nat} {input rest : List Token}
    {arguments : Option (List (Expr Token))} :
    CallArguments levels input rest arguments → Accounts input rest (argumentStrings arguments)
  | .none => .refl
  | .empty opened closed => (Accounts.refl.before closed rfl).before opened rfl
  | .some opened lines items closed =>
    ((lines.accounts.trans items.accounts).after closed rfl).before opened rfl

theorem BlockArgument.accounts {levels : Nat} {input rest : List Token}
    {block : Option (Body Token)} :
    BlockArgument levels input rest block → Accounts input rest (blockStrings block)
  | .none => .refl
  | .some opened bars content => (bars.accounts.trans content.accounts).before opened rfl

theorem Elements.accounts {levels : Nat} {input rest : List Token} {trees : List (Expr Token)} :
    Elements levels input rest trees → Accounts input rest (exprStrings trees)
  | .none => .refl
  | .last value lines => value.accounts.trans lines.accounts
  | .more value lines separated linesAfter others => by
    rw [exprStrings]
    have first := (value.accounts.trans lines.accounts).after separated rfl
    rw [List.append_nil] at first
    exact first.trans (linesAfter.accounts.trans others.accounts)

theorem KeyValue.accounts {levels : Nat} {input rest : List Token} {entry : MapEntry Token} :
    KeyValue levels input rest entry → Accounts input rest entry.strings
  | .mk first divides second => (first.accounts.after divides rfl).trans second.accounts

theorem Entries.accounts {levels : Nat} {input rest : List Token}
    {entries : List (MapEntry Token)} :
    Entries levels input rest entries → Accounts input rest (entryStrings entries)
  | .none => .refl
  | .last value lines => value.accounts.trans lines.accounts
  | .more value lines separated linesAfter others => by
    rw [entryStrings]
    have first := (value.accounts.trans lines.accounts).after separated rfl
    rw [List.append_nil] at first
    exact first.trans (linesAfter.accounts.trans others.accounts)

theorem Parts.accounts {levels : Nat} {input rest : List Token}
    {parts : List (InterpolationPart Token)} :
    Parts levels input rest parts → Accounts input rest (partStrings .resuming parts)
  | .last opens value => by
    rw [partStrings, partStrings, List.append_nil]
    exact .between opens value.accounts
  | .more opens value others => by
    rw [partStrings]
    exact .between opens (value.accounts.trans others.accounts)

theorem Content.accounts {levels : Nat} {parameters : Option (List Token)}
    {input rest : List Token} {body : Body Token} :
    Content levels parameters input rest body → Accounts input rest body.strings
  | .empty closed => Accounts.refl.before closed rfl
  | .single value lines closed => by
    have inside := (value.accounts.trans lines.accounts).after closed rfl
    rw [List.append_nil] at inside
    exact inside
  | .lines opened items closed => (opened.accounts.trans items.accounts).after closed rfl

theorem Element.accounts {levels : Nat} {input rest : List Token} {element : Stmt Token} :
    Element levels input rest element → Accounts input rest element.strings
  | .statement _ value => value.accounts
  | .expression value => value.accounts

theorem LineStatements.accounts {levels : Nat} {input rest : List Token}
    {statements : List (Stmt Token)} :
    LineStatements levels input rest statements → Accounts input rest (stmtStrings statements)
  | .none => .refl
  | .more value lines others => value.accounts.trans (lines.accounts.trans others.accounts)

theorem Definitions.accounts {levels : Nat} {input rest : List Token}
    {statements : List (Stmt Token)} :
    Definitions levels input rest statements → Accounts input rest (stmtStrings statements)
  | .none => .refl
  | .last value => value.accounts.trans .refl
  | .more value lines others => value.accounts.trans (lines.accounts.trans others.accounts)

theorem Definition.accounts {levels : Nat} {input rest : List Token} {statement : Stmt Token} :
    Definition levels input rest statement → Accounts input rest statement.strings
  | .ownClass isKeyword tail => tail.accounts.before isKeyword rfl
  | .foreignClass isForeign isKeyword tail => (tail.accounts.before isKeyword rfl).before isForeign rfl
  | .importAll isKeyword isPath => (Accounts.whole isPath).before isKeyword rfl
  | .importNames isKeyword isPath isFor lines imported => by
    have names := (lines.accounts.trans imported.accounts).before isFor rfl
    exact ((Accounts.whole isPath).trans names).before isKeyword rfl
  | .declared isKeyword named => (Accounts.refl.before named rfl).before isKeyword rfl
  | .initialized isKeyword named assigns initializer =>
    ((initializer.accounts.before assigns rfl).before named rfl).before isKeyword rfl
  | .statement value => value.accounts

theorem Statement.accounts {levels : Nat} {input rest : List Token} {statement : Stmt Token} :
    Statement levels input rest statement → Accounts input rest statement.strings
  | .breakLoop isKeyword => Accounts.refl.before isKeyword rfl
  | .ifOnly isKeyword opened lines test closed positive _ => by
    rw [Stmt.strings, stmt?Strings, List.append_nil]
    have condition := (lines.accounts.trans test.accounts).after closed rfl
    exact ((condition.trans positive.accounts).before opened rfl).before isKeyword rfl
  | .ifElse isKeyword opened lines test closed positive isElse negative => by
    rw [Stmt.strings, stmt?Strings]
    have condition := (lines.accounts.trans test.accounts).after closed rfl
    have branches := (condition.trans positive.accounts).after isElse rfl
    exact ((branches.trans negative.accounts).before opened rfl).before isKeyword rfl
  | .forIn isKeyword opened named isIn lines ranges closed repeated => by
    rw [Stmt.strings]
    have iterator := (lines.accounts.trans ranges.accounts).after closed rfl
    have loop := (iterator.trans repeated.accounts).before isIn rfl
    exact ((loop.before named rfl).before opened rfl).before isKeyword rfl
  | .whileDo isKeyword opened lines test closed repeated => by
    rw [Stmt.strings]
    have condition := (lines.accounts.trans test.accounts).after closed rfl
    exact ((condition.trans repeated.accounts).before opened rfl).before isKeyword rfl
  | .returnNothing isKeyword _ => Accounts.refl.before isKeyword rfl
  | .returnValue isKeyword result => result.accounts.before isKeyword rfl
  | .block opened lines items closed =>
    ((lines.accounts.trans items.accounts).after closed rfl).before opened rfl
  | .expression _ value => value.accounts

theorem ClassTail.accounts {levels : Nat} {foreign : Option Token} {keyword : Token}
    {input rest : List Token} {statement : Stmt Token} :
    ClassTail levels foreign keyword input rest statement →
      Accounts input rest statement.strings
  | .mk named parent opened lines items closed => by
    have head := parent.accounts.after opened rfl
    have inside := (lines.accounts.trans items.accounts).after closed rfl
    exact (head.trans inside).before named rfl

theorem Methods.accounts {levels : Nat} {input rest : List Token}
    {methods : List (Method Token)} :
    Methods levels input rest methods → Accounts input rest (methodStrings methods)
  | .none => .refl
  | .last value => value.accounts.trans .refl
  | .more value lines others => value.accounts.trans (lines.accounts.trans others.accounts)

theorem MethodDefinition.accounts {levels : Nat} {input rest : List Token}
    {method : Method Token} :
    MethodDefinition levels input rest method → Accounts input rest method.strings
  | .foreign isForeign shared constructs head => by
    have signature := (constructs.accounts rfl).trans head.accounts
    exact ((shared.accounts rfl).trans signature).before isForeign rfl
  | .own shared constructs head opened content => by
    have signature := (constructs.accounts rfl).trans (head.accounts.after opened rfl)
    exact ((shared.accounts rfl).trans signature).trans content.accounts

end

theorem Script.accounts {levels : Nat} {input : List Token} {module : Module Token}
    (script : Script levels input module) : Accounts input [] module.strings := by
  cases script with
  | mk lines items ends => exact (lines.accounts.trans items.accounts).after ends rfl

end Grammar
end WrenFront
