import WrenFront.Proofs.WrittenForms

/-! Trees written as forms, and read back from them. A form does not show the tokens that its kind
implies, and a call on nothing is written as one on the field `_`; what is read back is the tree as
far as it is shown. -/

namespace WrenFront

variable {τ : Type}

mutual
/-- What is written of a tree, with texts for its tokens. The tokens that are not written are
blank. -/
def Expr.shown (text : τ → String) : Expr τ → Expr String
  | .list _ elements _ => .list "" (shownExprs text elements) ""
  | .map _ entries _ => .map "" (shownEntries text entries) ""
  | .grouping _ expression _ => .grouping "" (expression.shown text) ""
  | .this token => .this (text token)
  | .null token => .null (text token)
  | .bool token => .bool (text token)
  | .number token => .number (text token)
  | .string token => .string (text token)
  | .field token => .field (text token)
  | .staticField token => .staticField (text token)
  | .assignment target _ value => .assignment (target.shown text) "" (value.shown text)
  | .conditional condition _ thenBranch _ elseBranch =>
    .conditional (condition.shown text) "" (thenBranch.shown text) "" (elseBranch.shown text)
  | .infixOp left operator right => .infixOp (left.shown text) (text operator) (right.shown text)
  | .prefixOp operator operand => .prefixOp (text operator) (operand.shown text)
  | .call none name none none => .call none (text name) none none
  | .call receiver name arguments block =>
    .call (some (shownReceiver text receiver)) (text name) (shownArguments text arguments)
      (shownBlock text block)
  | .superCall _ name arguments block =>
    .superCall "" (name.map text) (shownArguments text arguments) (shownBlock text block)
  | .subscript receiver _ arguments _ =>
    .subscript (receiver.shown text) "" (shownExprs text arguments) ""
  | .interpolation parts last => .interpolation (shownParts text parts) (text last)

def shownExprs (text : τ → String) : List (Expr τ) → List (Expr String)
  | [] => []
  | expression :: rest => expression.shown text :: shownExprs text rest

def shownReceiver (text : τ → String) : Option (Expr τ) → Expr String
  | none => .field "_"
  | some receiver => receiver.shown text

def shownExpr? (text : τ → String) : Option (Expr τ) → Option (Expr String)
  | none => none
  | some expression => some (expression.shown text)

def shownArguments (text : τ → String) : Option (List (Expr τ)) → Option (List (Expr String))
  | none => none
  | some arguments => some (shownExprs text arguments)

def MapEntry.shown (text : τ → String) : MapEntry τ → MapEntry String
  | .mk key value => .mk (key.shown text) (value.shown text)

def shownEntries (text : τ → String) : List (MapEntry τ) → List (MapEntry String)
  | [] => []
  | entry :: rest => entry.shown text :: shownEntries text rest

def InterpolationPart.shown (text : τ → String) : InterpolationPart τ → InterpolationPart String
  | .mk segment expression => .mk (text segment) (expression.shown text)

def shownParts (text : τ → String) : List (InterpolationPart τ) → List (InterpolationPart String)
  | [] => []
  | part :: rest => part.shown text :: shownParts text rest

def Body.shown (text : τ → String) : Body τ → Body String
  | .single parameters element => .single (parameters.map (·.map text)) (element.shown text)
  | .sequence parameters statements =>
    .sequence (parameters.map (·.map text)) (shownStmts text statements)

def shownBlock (text : τ → String) : Option (Body τ) → Option (Body String)
  | none => none
  | some body => some (body.shown text)

def Method.shown (text : τ → String) : Method τ → Method String
  | .mk foreign static construct name parameters body =>
    .mk (foreign.map text) (static.map text) (construct.map text) (text name)
      (parameters.map (·.map text)) (shownBlock text body)

def shownMethods (text : τ → String) : List (Method τ) → List (Method String)
  | [] => []
  | method :: rest => method.shown text :: shownMethods text rest

def Stmt.shown (text : τ → String) : Stmt τ → Stmt String
  | .classDef foreign _ name superclass methods =>
    .classDef (foreign.map fun _ => "") "" (text name) (superclass.map text)
      (shownMethods text methods)
  | .importDef _ path imported => .importDef "" (text path) (imported.map (·.map text))
  | .varDef _ name initializer => .varDef "" (text name) (shownExpr? text initializer)
  | .ifElse _ condition thenBranch elseBranch =>
    .ifElse "" (condition.shown text) (thenBranch.shown text) (shownStmt? text elseBranch)
  | .forIn _ loopVariable iterator body =>
    .forIn "" (text loopVariable) (iterator.shown text) (body.shown text)
  | .whileDo _ condition body => .whileDo "" (condition.shown text) (body.shown text)
  | .returnValue _ value => .returnValue "" (shownExpr? text value)
  | .breakLoop _ => .breakLoop ""
  | .block _ statements _ => .block "" (shownStmts text statements) ""
  | .expression expression => .expression (expression.shown text)

def shownStmt? (text : τ → String) : Option (Stmt τ) → Option (Stmt String)
  | none => none
  | some statement => some (statement.shown text)

def shownStmts (text : τ → String) : List (Stmt τ) → List (Stmt String)
  | [] => []
  | statement :: rest => statement.shown text :: shownStmts text rest
end

def Module.shown (text : τ → String) (module : Module τ) : Module String :=
  ⟨module.statements.map (·.shown text)⟩

/-- A call that is not only a name is shown with a receiver. -/
theorem Expr.shown_call {text : τ → String} {receiver : Option (Expr τ)} (name : τ)
    {arguments : Option (List (Expr τ))} {block : Option (Body τ)}
    (more : ¬ (receiver = none ∧ arguments = none ∧ block = none)) :
    (Expr.call receiver name arguments block).shown text =
      .call (some (shownReceiver text receiver)) (text name) (shownArguments text arguments)
        (shownBlock text block) := by
  cases receiver <;> cases arguments <;> cases block <;> simp [Expr.shown] at more ⊢

/-- What stands in front of a method's forms. -/
def Method.announced (foreign static construct : Option τ) (name : τ) : List τ :=
  foreign.toList ++ static.toList ++ construct.toList ++ [name]

/-- A list of parameters, which may be empty. -/
def Sexp.ofNames : List String → Sexp
  | [] => .form "" []
  | first :: rest => .form first (rest.map .word)

mutual
/-- The item for a tree of which everything is shown. -/
def Expr.sexp : Expr String → Sexp
  | .list _ elements _ => .form "list" (sexpExprs elements)
  | .map _ entries _ => .form "map" (sexpEntries entries)
  | .grouping _ expression _ => .form "group" [expression.sexp]
  | .string text => .segment text
  | .this text | .null text | .bool text | .number text | .field text | .staticField text =>
    .word text
  | .assignment target _ value => .form "=" [target.sexp, value.sexp]
  | .conditional condition _ thenBranch _ elseBranch =>
    .form "?" [condition.sexp, thenBranch.sexp, elseBranch.sexp]
  | .infixOp left operator right => .form operator [left.sexp, right.sexp]
  | .prefixOp operator operand => .form operator [operand.sexp]
  | .call none name _ _ => .word name
  | .call (some receiver) name arguments block =>
    .form "call" (receiver.sexp :: .word name :: (sexpArguments arguments ++ sexpBlock block))
  | .superCall _ name arguments block =>
    .form "super" (name.toList.map .word ++ (sexpArguments arguments ++ sexpBlock block))
  | .subscript receiver _ arguments _ =>
    .form "subscript" (receiver.sexp :: sexpExprs arguments)
  | .interpolation parts last => .form "interp" (sexpParts parts ++ [.segment last])

def sexpExprs : List (Expr String) → List Sexp
  | [] => []
  | expression :: rest => expression.sexp :: sexpExprs rest

def sexpExpr? : Option (Expr String) → List Sexp
  | none => []
  | some expression => [expression.sexp]

def sexpEntries : List (MapEntry String) → List Sexp
  | [] => []
  | .mk key value :: rest => .entry key.sexp value.sexp :: sexpEntries rest

def sexpParts : List (InterpolationPart String) → List Sexp
  | [] => []
  | .mk segment expression :: rest => .segment segment :: expression.sexp :: sexpParts rest

def sexpArguments : Option (List (Expr String)) → List Sexp
  | none => []
  | some arguments => [.form "args" (sexpExprs arguments)]

def Body.sexp : Body String → Sexp
  | .single parameters element => .form "body" (parameters.toList.map .bars ++ [element.sexp])
  | .sequence parameters statements =>
    .form "body" (parameters.toList.map .bars ++ [.form "do" (sexpStmts statements)])

def sexpBlock : Option (Body String) → List Sexp
  | none => []
  | some body => [body.sexp]

def sexpMethods : List (Method String) → List Sexp
  | [] => []
  | .mk foreign static construct name parameters body :: rest =>
    .form "method" ((Method.announced foreign static construct name).map .word ++
      (parameters.toList.map .ofNames ++ sexpBlock body)) :: sexpMethods rest

def Stmt.sexp : Stmt String → Sexp
  | .classDef none _ name superclass methods =>
    .form "class" (.word name ::
      (superclass.toList.flatMap (fun text => [.word "is", .word text]) ++ sexpMethods methods))
  | .classDef (some _) _ name superclass methods =>
    .form "foreign" (.word "class" :: .word name ::
      (superclass.toList.flatMap (fun text => [.word "is", .word text]) ++ sexpMethods methods))
  | .importDef _ path imported =>
    .form "import" (.segment path ::
      imported.toList.flatMap fun names => .word "for" :: names.map .word)
  | .varDef _ name initializer => .form "var" (.word name :: sexpExpr? initializer)
  | .ifElse _ condition thenBranch elseBranch =>
    .form "if" (condition.sexp :: thenBranch.sexp :: sexpStmt? elseBranch)
  | .forIn _ loopVariable iterator body =>
    .form "for" [.word loopVariable, iterator.sexp, body.sexp]
  | .whileDo _ condition body => .form "while" [condition.sexp, body.sexp]
  | .returnValue _ value => .form "return" (sexpExpr? value)
  | .breakLoop _ => .form "break" []
  | .block _ statements _ => .form "block" (sexpStmts statements)
  | .expression expression => expression.sexp

def sexpStmt? : Option (Stmt String) → List Sexp
  | none => []
  | some statement => [statement.sexp]

def sexpStmts : List (Stmt String) → List Sexp
  | [] => []
  | statement :: rest => statement.sexp :: sexpStmts rest
end

section Lists
variable (text : τ → String)

@[simp]
theorem shownExprs_eq_map (expressions : List (Expr τ)) :
    shownExprs text expressions = expressions.map (·.shown text) := by
  induction expressions with
  | nil => simp [shownExprs]
  | cons expression rest ih => simp [shownExprs, ih]

@[simp]
theorem shownEntries_eq_map (entries : List (MapEntry τ)) :
    shownEntries text entries = entries.map (·.shown text) := by
  induction entries with
  | nil => simp [shownEntries]
  | cons entry rest ih => simp [shownEntries, ih]

@[simp]
theorem shownParts_eq_map (parts : List (InterpolationPart τ)) :
    shownParts text parts = parts.map (·.shown text) := by
  induction parts with
  | nil => simp [shownParts]
  | cons part rest ih => simp [shownParts, ih]

@[simp]
theorem shownMethods_eq_map (methods : List (Method τ)) :
    shownMethods text methods = methods.map (·.shown text) := by
  induction methods with
  | nil => simp [shownMethods]
  | cons method rest ih => simp [shownMethods, ih]

@[simp]
theorem shownStmts_eq_map (statements : List (Stmt τ)) :
    shownStmts text statements = statements.map (·.shown text) := by
  induction statements with
  | nil => simp [shownStmts]
  | cons statement rest ih => simp [shownStmts, ih]

@[simp]
theorem shownExpr?_eq_map (expression : Option (Expr τ)) :
    shownExpr? text expression = expression.map (·.shown text) := by
  cases expression <;> simp [shownExpr?]

@[simp]
theorem shownStmt?_eq_map (statement : Option (Stmt τ)) :
    shownStmt? text statement = statement.map (·.shown text) := by
  cases statement <;> simp [shownStmt?]

@[simp]
theorem shownArguments_eq_map (arguments : Option (List (Expr τ))) :
    shownArguments text arguments = arguments.map (·.map (·.shown text)) := by
  cases arguments <;> simp [shownArguments]

@[simp]
theorem shownBlock_eq_map (block : Option (Body τ)) :
    shownBlock text block = block.map (·.shown text) := by
  cases block <;> simp [shownBlock]

end Lists

@[simp]
theorem sexpExprs_eq_map (expressions : List (Expr String)) :
    sexpExprs expressions = expressions.map Expr.sexp := by
  induction expressions with
  | nil => simp [sexpExprs]
  | cons expression rest ih => simp [sexpExprs, ih]

@[simp]
theorem sexpStmts_eq_map (statements : List (Stmt String)) :
    sexpStmts statements = statements.map Stmt.sexp := by
  induction statements with
  | nil => simp [sexpStmts]
  | cons statement rest ih => simp [sexpStmts, ih]

/-- A leaf that is no string. -/
def Expr.ofWord (text : String) : Expr String :=
  if text = "this" then .this text
  else if text = "null" then .null text
  else if text = "true" ∨ text = "false" then .bool text
  else if text.toList.take 2 = ['_', '_'] then .staticField text
  else if text.toList.head? = some '_' then .field text
  else if text.toList.head?.any Char.isDigit then .number text
  else .call none text none none

/-- The body that holds what is written in it. A sequence is written as a block is. -/
def Body.ofElement (parameters : Option (List String)) : Stmt String → Body String
  | .block _ statements _ => .sequence parameters statements
  | element => .single parameters element

/-- The method that the words before its forms announce. -/
def Method.ofWords (words : List String) (parameters : Option (List String))
    (body : Option (Body String)) : Method String :=
  .mk (words.find? (· = "foreign")) (words.find? (· = "static")) (words.find? (· = "construct"))
    (words.getLastD "") parameters body

namespace Sexp

/-- The operators that a form can begin with. -/
def operators : List String :=
  (TokenKind.infixLevels.flatten ++ [TokenKind.bang, TokenKind.tilde]).filterMap TokenKind.spelling?

/-- What a statement's form begins with that is no expression's. -/
def statements : List String :=
  ["class", "foreign", "import", "var", "if", "for", "while", "return", "break", "block", "do"]

/-- The words in front. -/
def words : List Sexp → List String
  | .word text :: rest => text :: words rest
  | _ => []

/-- The names that a form holds. -/
def names : Sexp → List String
  | .form head items => if head = "" then [] else head :: items.map text
  | _ => []

/-- The parameters among the forms of a method. Only a foreign one has no body, which is last. -/
def parameters (isForeign : Bool) : List Sexp → Option (List String)
  | [only] => if isForeign then some only.names else none
  | first :: _ => some first.names
  | [] => none

mutual
def toExpr : Sexp → Expr String
  | .word text => .ofWord text
  | .segment text => .string text
  | .form head items =>
    if head ∈ operators then toOperation head items
    else if head = "list" then .list "" (toExprs items) ""
    else if head = "map" then .map "" (toEntries items) ""
    else if head = "interp" then .interpolation (toParts items) ((items.map text).getLastD "")
    else if head = "super" then
      .superCall "" (words items).head? (toArguments items) (toBlock items)
    else toFixed head items
  | _ => .null ""
termination_by item => (sizeOf item, 0)

def toOperation (operator : String) : List Sexp → Expr String
  | [operand] => .prefixOp operator operand.toExpr
  | [left, right] => .infixOp left.toExpr operator right.toExpr
  | _ => .null ""
termination_by items => (sizeOf items, 0)

/-- An expression with a fixed number of parts in front. -/
def toFixed (head : String) : List Sexp → Expr String
  | [expression] => .grouping "" expression.toExpr ""
  | first :: second :: rest =>
    if head = "=" then .assignment first.toExpr "" second.toExpr
    else if head = "?" then
      .conditional first.toExpr "" second.toExpr "" ((toExpr? rest).getD (.null ""))
    else if head = "call" then
      .call (some first.toExpr) second.text (toArguments rest) (toBlock rest)
    else .subscript first.toExpr "" (toExprs (second :: rest)) ""
  | [] => .null ""
termination_by items => (sizeOf items, 0)

def toExprs : List Sexp → List (Expr String)
  | [] => []
  | item :: rest => item.toExpr :: toExprs rest
termination_by items => (sizeOf items, 0)

def toEntries : List Sexp → List (MapEntry String)
  | .entry key value :: rest => .mk key.toExpr value.toExpr :: toEntries rest
  | _ => []
termination_by items => (sizeOf items, 0)

def toParts : List Sexp → List (InterpolationPart String)
  | .segment text :: expression :: rest => .mk text expression.toExpr :: toParts rest
  | _ => []
termination_by items => (sizeOf items, 0)

def toArguments : List Sexp → Option (List (Expr String))
  | [] => none
  | .form head items :: rest =>
    if head = "args" then some (toExprs items) else toArguments rest
  | _ :: rest => toArguments rest
termination_by items => (sizeOf items, 0)

/-- The body among the items of a form. -/
def toBlock : List Sexp → Option (Body String)
  | [] => none
  | .form head items :: rest => if head = "body" then some (toBody items) else toBlock rest
  | _ :: rest => toBlock rest
termination_by items => (sizeOf items, 0)

def toBody : List Sexp → Body String
  | [.bars names, element] => .ofElement (some names) element.toStmt
  | [element] => .ofElement none element.toStmt
  | _ => .sequence none []
termination_by items => (sizeOf items, 0)

/-- The body that is the last of the items of a method, even if its parameters are written alike. -/
def toLastBody : List Sexp → Option (Body String)
  | [.form _ items] => some (toBody items)
  | _ :: rest => toLastBody rest
  | [] => none
termination_by items => (sizeOf items, 0)

def toMethods : List Sexp → List (Method String)
  | [] => []
  | .form _ items :: rest =>
    let words := words items
    let isForeign := words.contains "foreign"
    .ofWords words (parameters isForeign (items.drop words.length))
      (if isForeign then none else toLastBody items) :: toMethods rest
  | _ :: rest => toMethods rest
termination_by items => (sizeOf items, 0)

def toExpr? : List Sexp → Option (Expr String)
  | [] => none
  | item :: _ => some item.toExpr
termination_by items => (sizeOf items, 0)

def toStmt? : List Sexp → Option (Stmt String)
  | [] => none
  | item :: _ => some item.toStmt
termination_by items => (sizeOf items, 0)

def toStmts : List Sexp → List (Stmt String)
  | [] => []
  | item :: rest => item.toStmt :: toStmts rest
termination_by items => (sizeOf items, 0)

def toStatement (head : String) (items : List Sexp) : Stmt String :=
  if head = "class" then
    .classDef none "" ((words items).headD "") (words items)[2]? (toMethods items)
  else if head = "foreign" then
    .classDef (some "") "" ((words items).getD 1 "") (words items)[3]? (toMethods items)
  else if head = "block" ∨ head = "do" then .block "" (toStmts items) ""
  else if head = "return" then .returnValue "" (toExpr? items)
  else toControl head items
termination_by (sizeOf items, 1)

/-- A statement with a fixed number of parts in front. -/
def toControl (head : String) : List Sexp → Stmt String
  | [] => .breakLoop ""
  | [first] =>
    if head = "import" then .importDef "" first.text none else .varDef "" first.text none
  | first :: second :: rest =>
    if head = "import" then .importDef "" first.text (some (rest.map text))
    else if head = "var" then .varDef "" first.text (some second.toExpr)
    else if head = "while" then .whileDo "" first.toExpr second.toStmt
    else if head = "if" then .ifElse "" first.toExpr second.toStmt (toStmt? rest)
    else .forIn "" first.text second.toExpr ((toStmt? rest).getD (.breakLoop ""))
termination_by items => (sizeOf items, 0)

def toStmt : Sexp → Stmt String
  | .form head items =>
    if head ∈ statements then toStatement head items
    else .expression (toExpr (.form head items))
  | item => .expression item.toExpr
termination_by item => (sizeOf item, 1)
end

@[simp]
theorem toExprs_eq_map (items : List Sexp) : toExprs items = items.map toExpr := by
  induction items with
  | nil => simp [toExprs]
  | cons item rest ih => simp [toExprs, ih]

@[simp]
theorem toStmts_eq_map (items : List Sexp) : toStmts items = items.map toStmt := by
  induction items with
  | nil => simp [toStmts]
  | cons item rest ih => simp [toStmts, ih]

@[simp]
theorem toExpr?_eq_map (items : List Sexp) : toExpr? items = items.head?.map toExpr := by
  cases items <;> simp [toExpr?]

@[simp]
theorem toStmt?_eq_map (items : List Sexp) : toStmt? items = items.head?.map toStmt := by
  cases items <;> simp [toStmt?]

end Sexp

end WrenFront
