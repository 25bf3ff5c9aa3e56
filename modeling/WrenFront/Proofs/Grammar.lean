import WrenFront.Parser

/-! The grammar of scripts. A rule relates the tokens it begins at, the tokens that it leaves, and the
tree in between; what a rule says about the tokens it leaves decides between two readings of one
text. The number is how many levels of nesting the rule may use: an expression, the middle of a
conditional, the operand of a prefix operator, a statement and a class each take one. -/

namespace WrenFront.Grammar

/-- The kind of the next token. -/
def front : List Token → TokenKind
  | [] => .eof
  | token :: _ => token.kind

inductive Newlines : List Token → List Token → Prop where
  | none {input} : Newlines input input
  | more {newline input rest} (line : newline.kind = .line) (others : Newlines input rest) :
      Newlines (newline :: input) rest

/-- One newline or more. -/
def Lines (input rest : List Token) : Prop :=
  ∃ newline after, input = newline :: after ∧ newline.kind = .line ∧ Newlines after rest

/-- One name or more with commas between them. -/
inductive Names : List Token → List Token → List Token → Prop where
  | last {name rest} (named : name.kind = .name) : Names (name :: rest) rest [name]
  | more {name comma input start rest names} (named : name.kind = .name)
      (separated : comma.kind = .comma) (lines : Newlines input start)
      (others : Names start rest names) : Names (name :: comma :: input) rest (name :: names)

/-- A token that may be left out. -/
inductive Optional (kind : TokenKind) : List Token → List Token → Option Token → Prop where
  | absent {input} : Optional kind input input none
  | present {token rest} (same : token.kind = kind) :
      Optional kind (token :: rest) rest (some token)

inductive Superclass : List Token → List Token → Option Token → Prop where
  | none {input} : Superclass input input none
  | named {keyword name rest} (isKeyword : keyword.kind = .kwIs) (named : name.kind = .name) :
      Superclass (keyword :: name :: rest) rest (some name)

/-- The parameters of a block argument, between bars. -/
inductive BlockParameters : List Token → List Token → Option (List Token) → Prop where
  | none {input} : BlockParameters input input none
  | some {left right input rest names} (opened : left.kind = .pipe)
      (parameters : Names input (right :: rest) names) (closed : right.kind = .pipe) :
      BlockParameters (left :: input) rest (some names)

/-- The parenthesised parameters of a method, which may be left out. -/
inductive ParameterList : List Token → List Token → Option (List Token) → Prop where
  | none {input} : ParameterList input input none
  | empty {left right input rest} (opened : left.kind = .leftParen)
      (lines : Newlines input (right :: rest)) (closed : right.kind = .rightParen) :
      ParameterList (left :: input) rest (some [])
  | some {left right input start middle rest names} (opened : left.kind = .leftParen)
      (lines : Newlines input start) (parameters : Names start middle names)
      (after : Newlines middle (right :: rest)) (closed : right.kind = .rightParen) :
      ParameterList (left :: input) rest (some names)

/-- The name of a method and its parameters. -/
inductive Signature : List Token → List Token → Token → Option (List Token) → Prop where
  | subscript {left right input rest names} (opened : left.kind = .leftBracket)
      (parameters : Names input (right :: rest) names) (closed : right.kind = .rightBracket) :
      Signature (left :: input) rest left (some names)
  | infixOperator {operator input rest parameters} (known : operator.kind.isInfixOperator)
      (list : ParameterList input rest parameters) :
      Signature (operator :: input) rest operator parameters
  | prefixOperator {operator rest} (known : operator.kind ∈ [.bang, .tilde]) :
      Signature (operator :: rest) rest operator none
  | named {name input rest parameters} (named : name.kind = .name)
      (list : ParameterList input rest parameters) :
      Signature (name :: input) rest name parameters

/-- The expression that a token is by itself. -/
def literal? (token : Token) : Option (Expr Token) :=
  match token.kind with
  | .kwTrue | .kwFalse => some (.bool token)
  | .kwNull => some (.null token)
  | .kwThis => some (.this token)
  | .field => some (.field token)
  | .staticField => some (.staticField token)
  | .number => some (.number token)
  | .string => some (.string token)
  | _ => none

/-- The kinds that a statement begins with where an expression may stand as well. -/
def elementKeywords : List TokenKind :=
  [.kwReturn, .kwBreak, .kwIf, .kwFor, .kwWhile]

end WrenFront.Grammar

namespace WrenFront

def Expr.isConditional {τ : Type} : Expr τ → Bool
  | .conditional .. => true
  | _ => false

namespace Grammar

mutual

/-- An equal sign after a conditional belongs to its last branch. -/
inductive Expression : Nat → List Token → List Token → Expr Token → Prop where
  | plain {levels input rest expression} (value : Conditional levels input rest expression) :
      Expression (levels + 1) input rest expression
  | assignment {levels input middle rest target equal value}
      (left : Conditional levels input (equal :: middle) target)
      (assigns : equal.kind = .equal) (plain : target.isConditional = false)
      (right : Expression levels middle rest value) :
      Expression (levels + 1) input rest (.assignment target equal value)

inductive Conditional : Nat → List Token → List Token → Expr Token → Prop where
  | plain {levels input rest expression}
      (value : Infix levels TokenKind.infixLevels input rest expression) :
      Conditional levels input rest expression
  | choice {levels input first second rest condition question thenBranch colon elseBranch}
      (test : Infix (levels + 1) TokenKind.infixLevels input (question :: first) condition)
      (asks : question.kind = .question)
      (positive : Conditional levels first (colon :: second) thenBranch)
      (divides : colon.kind = .colon)
      (negative : Expression (levels + 1) second rest elseBranch) :
      Conditional (levels + 1) input rest
        (.conditional condition question thenBranch colon elseBranch)

/-- Operators of one level associate to the left, and hold those of the tighter levels. -/
inductive Infix :
    Nat → List (List TokenKind) → List Token → List Token → Expr Token → Prop where
  | operand {levels input rest expression} (value : Operand levels input rest expression) :
      Infix levels [] input rest expression
  | tighter {levels operators tighter input rest expression}
      (value : Infix levels tighter input rest expression) :
      Infix levels (operators :: tighter) input rest expression
  | operator {levels operators tighter input middle start rest left operator right}
      (first : Infix levels (operators :: tighter) input (operator :: middle) left)
      (joins : operator.kind ∈ operators) (lines : Newlines middle start)
      (second : Infix levels tighter start rest right) :
      Infix levels (operators :: tighter) input rest (.infixOp left operator right)

inductive Operand : Nat → List Token → List Token → Expr Token → Prop where
  | chain {levels input rest expression} (value : Chain levels input rest expression) :
      Operand levels input rest expression
  | negated {levels operator input rest expression} (known : operator.kind.isPrefixOperator)
      (value : Operand levels input rest expression) :
      Operand (levels + 1) (operator :: input) rest (.prefixOp operator expression)

inductive Chain : Nat → List Token → List Token → Expr Token → Prop where
  | primary {levels input rest expression} (value : Primary levels input rest expression) :
      Chain levels input rest expression
  | subscript {levels input middle start rest receiver left arguments right}
      (first : Chain levels input (left :: middle) receiver) (opened : left.kind = .leftBracket)
      (lines : Newlines middle start)
      (items : Expressions levels start (right :: rest) arguments)
      (closed : right.kind = .rightBracket) :
      Chain levels input rest (.subscript receiver left arguments right)
  | call {levels input middle after rest receiver dot name arguments block}
      (first : Chain levels input (dot :: name :: middle) receiver) (dotted : dot.kind = .dot)
      (named : name.kind = .name) (list : CallArguments levels middle after arguments)
      (last : BlockArgument levels after rest block) :
      Chain levels input rest (.call (some receiver) name arguments block)

/-- A dot after `super` belongs to it. -/
inductive Primary : Nat → List Token → List Token → Expr Token → Prop where
  | literal {levels token rest expression} (stands : literal? token = some expression) :
      Primary levels (token :: rest) rest expression
  | grouping {levels left input right rest expression} (opened : left.kind = .leftParen)
      (value : Expression levels input (right :: rest) expression)
      (closed : right.kind = .rightParen) :
      Primary levels (left :: input) rest (.grouping left expression right)
  | list {levels left input start right rest elements} (opened : left.kind = .leftBracket)
      (lines : Newlines input start) (items : Elements levels start (right :: rest) elements)
      (closed : right.kind = .rightBracket) :
      Primary levels (left :: input) rest (.list left elements right)
  | map {levels left input start right rest entries} (opened : left.kind = .leftBrace)
      (lines : Newlines input start) (items : Entries levels start (right :: rest) entries)
      (closed : right.kind = .rightBrace) :
      Primary levels (left :: input) rest (.map left entries right)
  | call {levels name input middle rest arguments block} (named : name.kind = .name)
      (list : CallArguments levels input middle arguments)
      (last : BlockArgument levels middle rest block) :
      Primary levels (name :: input) rest (.call none name arguments block)
  | superCall {levels keyword input middle rest arguments block}
      (isKeyword : keyword.kind = .kwSuper) (undotted : front input ≠ .dot)
      (list : CallArguments levels input middle arguments)
      (last : BlockArgument levels middle rest block) :
      Primary levels (keyword :: input) rest (.superCall keyword none arguments block)
  | superMethod {levels keyword dot name input middle rest arguments block}
      (isKeyword : keyword.kind = .kwSuper) (dotted : dot.kind = .dot) (named : name.kind = .name)
      (list : CallArguments levels input middle arguments)
      (last : BlockArgument levels middle rest block) :
      Primary levels (keyword :: dot :: name :: input) rest
        (.superCall keyword (some name) arguments block)
  | interpolation {levels input last rest parts} (segments : Parts levels input (last :: rest) parts)
      (ends : last.kind = .string) : Primary levels input rest (.interpolation parts last)

/-- One expression or more with commas between them. -/
inductive Expressions : Nat → List Token → List Token → List (Expr Token) → Prop where
  | last {levels input rest expression} (value : Expression levels input rest expression) :
      Expressions levels input rest [expression]
  | more {levels input comma middle start rest expression expressions}
      (value : Expression levels input (comma :: middle) expression)
      (separated : comma.kind = .comma) (lines : Newlines middle start)
      (others : Expressions levels start rest expressions) :
      Expressions levels input rest (expression :: expressions)

inductive CallArguments : Nat → List Token → List Token → Option (List (Expr Token)) → Prop where
  | none {levels input} : CallArguments levels input input none
  | empty {levels left right rest} (opened : left.kind = .leftParen)
      (closed : right.kind = .rightParen) :
      CallArguments levels (left :: right :: rest) rest (some [])
  | some {levels left input start right rest arguments} (opened : left.kind = .leftParen)
      (lines : Newlines input start)
      (items : Expressions levels start (right :: rest) arguments)
      (closed : right.kind = .rightParen) :
      CallArguments levels (left :: input) rest (some arguments)

inductive BlockArgument : Nat → List Token → List Token → Option (Body Token) → Prop where
  | none {levels input} : BlockArgument levels input input none
  | some {levels left input middle rest parameters body} (opened : left.kind = .leftBrace)
      (bars : BlockParameters input middle parameters)
      (content : Content levels parameters middle rest body) :
      BlockArgument levels (left :: input) rest (some body)

/-- The items of a list. A comma may follow the last one. -/
inductive Elements : Nat → List Token → List Token → List (Expr Token) → Prop where
  | none {levels input} : Elements levels input input []
  | last {levels input middle rest expression}
      (value : Expression levels input middle expression) (lines : Newlines middle rest) :
      Elements levels input rest [expression]
  | more {levels input middle comma after start rest expression expressions}
      (value : Expression levels input middle expression)
      (lines : Newlines middle (comma :: after)) (separated : comma.kind = .comma)
      (linesAfter : Newlines after start) (others : Elements levels start rest expressions) :
      Elements levels input rest (expression :: expressions)

inductive KeyValue : Nat → List Token → List Token → MapEntry Token → Prop where
  | mk {levels input colon middle rest key value}
      (first : Expression levels input (colon :: middle) key) (divides : colon.kind = .colon)
      (second : Expression levels middle rest value) : KeyValue levels input rest (.mk key value)

/-- The entries of a map. A comma may follow the last one. -/
inductive Entries : Nat → List Token → List Token → List (MapEntry Token) → Prop where
  | none {levels input} : Entries levels input input []
  | last {levels input middle rest entry} (value : KeyValue levels input middle entry)
      (lines : Newlines middle rest) : Entries levels input rest [entry]
  | more {levels input middle comma after start rest entry entries}
      (value : KeyValue levels input middle entry) (lines : Newlines middle (comma :: after))
      (separated : comma.kind = .comma) (linesAfter : Newlines after start)
      (others : Entries levels start rest entries) :
      Entries levels input rest (entry :: entries)

/-- String segments, each with the expression that follows it. -/
inductive Parts : Nat → List Token → List Token → List (InterpolationPart Token) → Prop where
  | last {levels segment input rest expression} (opens : segment.kind = .interpolation)
      (value : Expression levels input rest expression) :
      Parts levels (segment :: input) rest [.mk segment expression]
  | more {levels segment input middle rest expression parts}
      (opens : segment.kind = .interpolation)
      (value : Expression levels input middle expression)
      (others : Parts levels middle rest parts) :
      Parts levels (segment :: input) rest (.mk segment expression :: parts)

/-- What stands between braces, with the closing one: nothing, one element, or lines. -/
inductive Content :
    Nat → Option (List Token) → List Token → List Token → Body Token → Prop where
  | empty {levels parameters right rest} (closed : right.kind = .rightBrace) :
      Content levels parameters (right :: rest) rest (.sequence parameters [])
  | single {levels parameters input middle right rest element}
      (value : Element levels input middle element) (lines : Newlines middle (right :: rest))
      (closed : right.kind = .rightBrace) :
      Content levels parameters input rest (.single parameters element)
  | lines {levels parameters input start right rest statements} (opened : Lines input start)
      (items : LineStatements levels start (right :: rest) statements)
      (closed : right.kind = .rightBrace) :
      Content levels parameters input rest (.sequence parameters statements)

inductive Element : Nat → List Token → List Token → Stmt Token → Prop where
  | statement {levels input rest statement} (begins : front input ∈ elementKeywords)
      (value : Statement levels input rest statement) : Element levels input rest statement
  | expression {levels input rest expression}
      (value : Expression levels input rest expression) :
      Element levels input rest (.expression expression)

/-- Definitions with newlines after each of them. -/
inductive LineStatements : Nat → List Token → List Token → List (Stmt Token) → Prop where
  | none {levels input} : LineStatements levels input input []
  | more {levels input middle start rest statement statements}
      (value : Definition levels input middle statement) (lines : Lines middle start)
      (others : LineStatements levels start rest statements) :
      LineStatements levels input rest (statement :: statements)

/-- Definitions with newlines between them. Newlines may follow the last one. -/
inductive Definitions : Nat → List Token → List Token → List (Stmt Token) → Prop where
  | none {levels input} : Definitions levels input input []
  | last {levels input rest statement} (value : Definition levels input rest statement) :
      Definitions levels input rest [statement]
  | more {levels input middle start rest statement statements}
      (value : Definition levels input middle statement) (lines : Lines middle start)
      (others : Definitions levels start rest statements) :
      Definitions levels input rest (statement :: statements)

inductive Definition : Nat → List Token → List Token → Stmt Token → Prop where
  | ownClass {levels keyword input rest statement} (isKeyword : keyword.kind = .kwClass)
      (tail : ClassTail levels none keyword input rest statement) :
      Definition levels (keyword :: input) rest statement
  | foreignClass {levels foreign keyword input rest statement}
      (isForeign : foreign.kind = .kwForeign) (isKeyword : keyword.kind = .kwClass)
      (tail : ClassTail levels (some foreign) keyword input rest statement) :
      Definition levels (foreign :: keyword :: input) rest statement
  | importAll {levels keyword path rest} (isKeyword : keyword.kind = .kwImport)
      (isPath : path.kind = .string) :
      Definition levels (keyword :: path :: rest) rest (.importDef keyword path none)
  | importNames {levels keyword path forKeyword input start rest names}
      (isKeyword : keyword.kind = .kwImport) (isPath : path.kind = .string)
      (isFor : forKeyword.kind = .kwFor) (lines : Newlines input start)
      (imported : Names start rest names) :
      Definition levels (keyword :: path :: forKeyword :: input) rest
        (.importDef keyword path (some names))
  | declared {levels keyword name rest} (isKeyword : keyword.kind = .kwVar)
      (named : name.kind = .name) :
      Definition levels (keyword :: name :: rest) rest (.varDef keyword name none)
  | initialized {levels keyword name equal input rest value} (isKeyword : keyword.kind = .kwVar)
      (named : name.kind = .name) (assigns : equal.kind = .equal)
      (initializer : Expression levels input rest value) :
      Definition levels (keyword :: name :: equal :: input) rest
        (.varDef keyword name (some value))
  | statement {levels input rest statement} (value : Statement levels input rest statement) :
      Definition levels input rest statement

/-- An `else` belongs to the nearest `if` without one, a `return` has a value unless nothing follows
it in the same place, and an expression that stands alone does not begin with a brace. -/
inductive Statement : Nat → List Token → List Token → Stmt Token → Prop where
  | breakLoop {levels keyword rest} (isKeyword : keyword.kind = .kwBreak) :
      Statement (levels + 1) (keyword :: rest) rest (.breakLoop keyword)
  | ifOnly {levels keyword left input start right middle rest condition thenBranch}
      (isKeyword : keyword.kind = .kwIf) (opened : left.kind = .leftParen)
      (lines : Newlines input start)
      (test : Expression levels start (right :: middle) condition)
      (closed : right.kind = .rightParen) (positive : Statement levels middle rest thenBranch)
      (complete : front rest ≠ .kwElse) :
      Statement (levels + 1) (keyword :: left :: input) rest
        (.ifElse keyword condition thenBranch none)
  | ifElse {levels keyword left input start right middle otherwise after rest condition thenBranch
        elseBranch}
      (isKeyword : keyword.kind = .kwIf) (opened : left.kind = .leftParen)
      (lines : Newlines input start)
      (test : Expression levels start (right :: middle) condition)
      (closed : right.kind = .rightParen)
      (positive : Statement levels middle (otherwise :: after) thenBranch)
      (isElse : otherwise.kind = .kwElse) (negative : Statement levels after rest elseBranch) :
      Statement (levels + 1) (keyword :: left :: input) rest
        (.ifElse keyword condition thenBranch (some elseBranch))
  | forIn {levels keyword left name inKeyword input start right middle rest iterator body}
      (isKeyword : keyword.kind = .kwFor) (opened : left.kind = .leftParen)
      (named : name.kind = .name) (isIn : inKeyword.kind = .kwIn) (lines : Newlines input start)
      (ranges : Expression levels start (right :: middle) iterator)
      (closed : right.kind = .rightParen) (repeated : Statement levels middle rest body) :
      Statement (levels + 1) (keyword :: left :: name :: inKeyword :: input) rest
        (.forIn keyword name iterator body)
  | whileDo {levels keyword left input start right middle rest condition body}
      (isKeyword : keyword.kind = .kwWhile) (opened : left.kind = .leftParen)
      (lines : Newlines input start)
      (test : Expression levels start (right :: middle) condition)
      (closed : right.kind = .rightParen) (repeated : Statement levels middle rest body) :
      Statement (levels + 1) (keyword :: left :: input) rest (.whileDo keyword condition body)
  | returnNothing {levels keyword rest} (isKeyword : keyword.kind = .kwReturn)
      (ends : front rest ∈ [.line, .rightBrace, .eof]) :
      Statement (levels + 1) (keyword :: rest) rest (.returnValue keyword none)
  | returnValue {levels keyword input rest value} (isKeyword : keyword.kind = .kwReturn)
      (result : Expression levels input rest value) :
      Statement (levels + 1) (keyword :: input) rest (.returnValue keyword (some value))
  | block {levels left input start right rest statements} (opened : left.kind = .leftBrace)
      (lines : Newlines input start)
      (items : Definitions levels start (right :: rest) statements)
      (closed : right.kind = .rightBrace) :
      Statement (levels + 1) (left :: input) rest (.block left statements right)
  | expression {levels input rest expression} (unbraced : front input ≠ .leftBrace)
      (value : Expression levels input rest expression) :
      Statement (levels + 1) input rest (.expression expression)

/-- A class after its keywords. -/
inductive ClassTail :
    Nat → Option Token → Token → List Token → List Token → Stmt Token → Prop where
  | mk {levels foreign keyword name input left middle start right rest superclass methods}
      (named : name.kind = .name) (parent : Superclass input (left :: middle) superclass)
      (opened : left.kind = .leftBrace) (lines : Newlines middle start)
      (items : Methods levels start (right :: rest) methods) (closed : right.kind = .rightBrace) :
      ClassTail (levels + 1) foreign keyword (name :: input) rest
        (.classDef foreign keyword name superclass methods)

/-- Methods with newlines between them. Newlines may follow the last one. -/
inductive Methods : Nat → List Token → List Token → List (Method Token) → Prop where
  | none {levels input} : Methods levels input input []
  | last {levels input rest method} (value : MethodDefinition levels input rest method) :
      Methods levels input rest [method]
  | more {levels input middle start rest method methods}
      (value : MethodDefinition levels input middle method) (lines : Lines middle start)
      (others : Methods levels start rest methods) :
      Methods levels input rest (method :: methods)

/-- A foreign method has no body, and every other one has. -/
inductive MethodDefinition : Nat → List Token → List Token → Method Token → Prop where
  | foreign {levels keyword input first second rest static construct name parameters}
      (isForeign : keyword.kind = .kwForeign) (shared : Optional .kwStatic input first static)
      (constructs : Optional .kwConstruct first second construct)
      (head : Signature second rest name parameters) :
      MethodDefinition levels (keyword :: input) rest
        (.mk (some keyword) static construct name parameters none)
  | own {levels input first second left middle rest static construct name parameters body}
      (shared : Optional .kwStatic input first static)
      (constructs : Optional .kwConstruct first second construct)
      (head : Signature second (left :: middle) name parameters)
      (opened : left.kind = .leftBrace) (content : Content levels parameters middle rest body) :
      MethodDefinition levels input rest
        (.mk none static construct name parameters (some body))

end

/-- A whole script, with the end token. -/
inductive Script (levels : Nat) : List Token → Module Token → Prop where
  | mk {input start last statements} (lines : Newlines input start)
      (items : Definitions levels start [last] statements) (ends : last.kind = .eof) :
      Script levels input ⟨statements⟩

theorem kind_mem {found kind : TokenKind} {kinds : List TokenKind} (same : found = kind)
    (listed : kinds.contains kind) : found ∈ kinds := by
  rw [same]
  exact List.contains_iff_mem.1 listed

theorem kind_other {found kind other : TokenKind} (same : found = kind)
    (different : (kind == other) = false) : found ≠ other := by
  rw [same]
  exact ne_of_beq_false different

theorem kind_ne {found kind : TokenKind} {kinds : List TokenKind} (member : found ∈ kinds)
    (unlisted : kinds.contains kind = false) : found ≠ kind := by
  rintro rfl
  rw [List.contains_iff_mem.2 member] at unlisted
  contradiction

theorem kind_not_mem {found kind : TokenKind} {kinds : List TokenKind} (same : found = kind)
    (unlisted : kinds.contains kind = false) : found ∉ kinds := by
  intro member
  exact kind_ne member unlisted same

/-- What an expression without operators may begin with. -/
def primaryFronts : List TokenKind :=
  [.leftParen, .leftBracket, .leftBrace, .name, .kwSuper, .kwTrue, .kwFalse, .kwNull, .kwThis,
    .field, .staticField, .number, .string, .interpolation]

def expressionFronts : List TokenKind :=
  primaryFronts ++ [.minus, .bang, .tilde]

def statementFronts : List TokenKind :=
  expressionFronts ++ elementKeywords

def definitionFronts : List TokenKind :=
  statementFronts ++ [.kwClass, .kwForeign, .kwImport, .kwVar]

def signatureFronts : List TokenKind :=
  [.leftBracket, .bang, .tilde, .name] ++ TokenKind.infixLevels.flatten

def methodFronts : List TokenKind :=
  .kwForeign :: .kwStatic :: .kwConstruct :: signatureFronts

section Shapes
variable {levels : Nat} {input rest : List Token} {expression : Expr Token}

theorem literal?_plain {token : Token} (stands : literal? token = some expression) :
    expression.isConditional = false := by
  unfold literal? at stands
  split at stands <;> cases stands <;> rfl

theorem Primary.plain (primary : Primary levels input rest expression) :
    expression.isConditional = false := by
  cases primary with
  | literal stands => exact literal?_plain stands
  | _ => rfl

theorem Operand.plain (operand : Operand levels input rest expression) :
    expression.isConditional = false := by
  cases operand with
  | negated => rfl
  | chain value =>
    cases value with
    | primary value => exact value.plain
    | _ => rfl

/-- No operand and no infix expression is a conditional, unless it stands in parentheses. -/
theorem Infix.plain {operators : List (List TokenKind)} {input rest : List Token}
    {expression : Expr Token} :
    Infix levels operators input rest expression → expression.isConditional = false
  | .operand value => value.plain
  | .tighter value => value.plain
  | .operator .. => rfl

theorem literal?_front {token : Token} (stands : literal? token = some expression) :
    token.kind ∈ primaryFronts := by
  unfold literal? at stands
  split at stands
  case h_9 => cases stands
  all_goals
    next same =>
    rw [same]
    decide

theorem Parts.front {parts : List (InterpolationPart Token)}
    (segments : Parts levels input rest parts) : front input = .interpolation := by
  cases segments with
  | last opens => exact opens
  | more opens => exact opens

theorem Primary.front (primary : Primary levels input rest expression) :
    front input ∈ primaryFronts := by
  cases primary with
  | literal stands => exact literal?_front stands
  | grouping opened => exact kind_mem opened rfl
  | list opened => exact kind_mem opened rfl
  | map opened => exact kind_mem opened rfl
  | call named => exact kind_mem named rfl
  | superCall isKeyword => exact kind_mem isKeyword rfl
  | superMethod isKeyword => exact kind_mem isKeyword rfl
  | interpolation segments =>
    rw [segments.front]
    decide

theorem Chain.front {input rest : List Token} {expression : Expr Token} :
    Chain levels input rest expression → front input ∈ primaryFronts
  | .primary value => value.front
  | .subscript first .. => first.front
  | .call first .. => first.front

theorem Operand.front (operand : Operand levels input rest expression) :
    front input ∈ expressionFronts := by
  cases operand with
  | chain value => exact List.mem_append_left _ value.front
  | negated known =>
    simp only [TokenKind.isPrefixOperator, Bool.or_eq_true, beq_iff_eq] at known
    rcases known with (minus | bang) | tilde
    · exact kind_mem minus rfl
    · exact kind_mem bang rfl
    · exact kind_mem tilde rfl

theorem Infix.front {operators : List (List TokenKind)} {input rest : List Token}
    {expression : Expr Token} :
    Infix levels operators input rest expression → front input ∈ expressionFronts
  | .operand value => value.front
  | .tighter value => value.front
  | .operator first .. => first.front

theorem Conditional.front (conditional : Conditional levels input rest expression) :
    front input ∈ expressionFronts := by
  cases conditional with
  | plain value => exact value.front
  | choice test => exact test.front

theorem Expression.front (expression : Expression levels input rest expression) :
    front input ∈ expressionFronts := by
  cases expression with
  | plain value => exact value.front
  | assignment left => exact left.front

theorem Expressions.front {expressions : List (Expr Token)}
    (items : Expressions levels input rest expressions) : front input ∈ expressionFronts := by
  cases items with
  | last value => exact value.front
  | more value => exact value.front

theorem KeyValue.front {entry : MapEntry Token} (item : KeyValue levels input rest entry) :
    front input ∈ expressionFronts := by
  cases item with
  | mk first => exact first.front

theorem Statement.front {statement : Stmt Token}
    (derived : Statement levels input rest statement) : front input ∈ statementFronts := by
  cases derived with
  | breakLoop isKeyword => exact kind_mem isKeyword rfl
  | ifOnly isKeyword => exact kind_mem isKeyword rfl
  | ifElse isKeyword => exact kind_mem isKeyword rfl
  | forIn isKeyword => exact kind_mem isKeyword rfl
  | whileDo isKeyword => exact kind_mem isKeyword rfl
  | returnNothing isKeyword => exact kind_mem isKeyword rfl
  | returnValue isKeyword => exact kind_mem isKeyword rfl
  | block opened => exact kind_mem opened rfl
  | expression _ value => exact List.mem_append_left _ value.front

theorem Definition.front {statement : Stmt Token}
    (derived : Definition levels input rest statement) : front input ∈ definitionFronts := by
  cases derived with
  | ownClass isKeyword => exact kind_mem isKeyword rfl
  | foreignClass isForeign => exact kind_mem isForeign rfl
  | importAll isKeyword => exact kind_mem isKeyword rfl
  | importNames isKeyword => exact kind_mem isKeyword rfl
  | declared isKeyword => exact kind_mem isKeyword rfl
  | initialized isKeyword => exact kind_mem isKeyword rfl
  | statement value => exact List.mem_append_left _ value.front

theorem LineStatements.front {statement : Stmt Token} {statements : List (Stmt Token)}
    (items : LineStatements levels input rest (statement :: statements)) :
    front input ∈ definitionFronts := by
  cases items with
  | more value => exact value.front

theorem Names.front {names : List Token} (derived : Names input rest names) :
    front input = .name := by
  cases derived with
  | last named => exact named
  | more named => exact named

theorem mem_infixLevels {kind : TokenKind} (known : kind.isInfixOperator) :
    kind ∈ TokenKind.infixLevels.flatten := by
  obtain ⟨level, member, contained⟩ := List.any_eq_true.1 known
  exact List.mem_flatten.2 ⟨level, member, List.contains_iff_mem.1 contained⟩

theorem Signature.front {name : Token} {parameters : Option (List Token)}
    (head : Signature input rest name parameters) : front input ∈ signatureFronts := by
  cases head with
  | subscript opened => exact kind_mem opened rfl
  | infixOperator known => exact List.mem_append_right _ (mem_infixLevels known)
  | prefixOperator known =>
    have listed : [TokenKind.bang, .tilde] ⊆ signatureFronts := by decide
    exact listed known
  | named named => exact kind_mem named rfl

theorem Optional.front {kind : TokenKind} {kinds : List TokenKind} {token : Option Token}
    (optional : Optional kind input rest token) (member : front rest ∈ kinds) :
    front input ∈ kind :: kinds := by
  cases optional with
  | absent => exact List.mem_cons_of_mem _ member
  | present same => exact kind_mem same (List.contains_iff_mem.2 List.mem_cons_self)

theorem MethodDefinition.front {method : Method Token}
    (derived : MethodDefinition levels input rest method) : front input ∈ methodFronts := by
  cases derived with
  | foreign isForeign => exact kind_mem isForeign rfl
  | own shared constructs head =>
    exact List.mem_cons_of_mem _ (shared.front (constructs.front head.front))

end Shapes

end Grammar
end WrenFront
