import WrenFront.Token
import WrenFront.Tree

/-! Trees written out for a reader. Every node becomes a form in parentheses that begins with its
kind, and leaves stand as they are in the script. -/

namespace WrenFront

/-- The shape of what is written. The text of a token is read off the script when it is rendered. -/
inductive Outline where
  | word (text : String)
  | leaf (token : Token)
  /-- Parameters between bars. -/
  | bars (parameters : List Token)
  | form (items : List Outline)

namespace Outline

def named (name : String) (items : List Outline) : Outline :=
  .form (.word name :: items)

/-- Items between parentheses. -/
def enclose (items : List String) : String :=
  "(" ++ " ".intercalate items ++ ")"

/-- Names between bars. -/
def enbar (names : List String) : String :=
  "|" ++ " ".intercalate names ++ "|"

mutual
def render (source : Source) : Outline → String
  | .word text => text
  | .leaf token => token.text source
  | .bars parameters => enbar (parameters.map (·.text source))
  | .form items => enclose (renderAll source items)

def renderAll (source : Source) : List Outline → List String
  | [] => []
  | item :: rest => item.render source :: renderAll source rest
end

def ofOptional (token : Option Token) : List Outline :=
  token.toList.map .leaf

/-- The parameters of a method, when it has a list of them. -/
def ofParameters (parameters : Option (List Token)) : List Outline :=
  parameters.toList.map fun tokens => .form (tokens.map .leaf)

/-- The parameters of a body, when it has a list of them. -/
def ofBars (parameters : Option (List Token)) : List Outline :=
  parameters.toList.map .bars

mutual
def ofExpr : Expr Token → Outline
  | .list _ elements _ => named "list" (ofExprs elements)
  | .map _ entries _ => named "map" (ofEntries entries)
  | .grouping _ expression _ => named "group" [ofExpr expression]
  | .null token => if token.kind = .kwNull then .leaf token else .word "<error>"
  | .this token | .bool token | .number token | .string token | .field token
  | .staticField token => .leaf token
  | .assignment target _ value => named "=" [ofExpr target, ofExpr value]
  | .conditional condition _ thenBranch _ elseBranch =>
    named "?" [ofExpr condition, ofExpr thenBranch, ofExpr elseBranch]
  | .infixOp left operator right => .form [.leaf operator, ofExpr left, ofExpr right]
  | .prefixOp operator operand => .form [.leaf operator, ofExpr operand]
  | .call none name none none => .leaf name
  | .call receiver name arguments block =>
    named "call" (ofReceiver receiver :: .leaf name :: (ofArguments arguments ++ ofBlock block))
  | .superCall _ name arguments block =>
    named "super" (ofOptional name ++ (ofArguments arguments ++ ofBlock block))
  | .subscript receiver _ arguments _ => named "subscript" (ofExpr receiver :: ofExprs arguments)
  | .interpolation parts last => named "interp" (ofParts parts ++ [.leaf last])

def ofExprs : List (Expr Token) → List Outline
  | [] => []
  | expression :: rest => ofExpr expression :: ofExprs rest

def ofEntries : List (MapEntry Token) → List Outline
  | [] => []
  | .mk key value :: rest => .form [ofExpr key, ofExpr value] :: ofEntries rest

def ofParts : List (InterpolationPart Token) → List Outline
  | [] => []
  | .mk segment expression :: rest => .leaf segment :: ofExpr expression :: ofParts rest

def ofReceiver : Option (Expr Token) → Outline
  | none => .word "_"
  | some receiver => ofExpr receiver

def ofArguments : Option (List (Expr Token)) → List Outline
  | none => []
  | some arguments => [named "args" (ofExprs arguments)]

def ofBlock : Option (Body Token) → List Outline
  | none => []
  | some body => [ofBody body]

def ofBody : Body Token → Outline
  | .single parameters element => named "body" (ofBars parameters ++ [ofStmt element])
  | .sequence parameters statements =>
    named "body" (ofBars parameters ++ [named "do" (ofStmts statements)])

def ofMethods : List (Method Token) → List Outline
  | [] => []
  | .mk foreign static construct name parameters body :: rest =>
    named "method" (ofOptional foreign ++ ofOptional static ++ ofOptional construct ++
      .leaf name :: ofParameters parameters ++ ofBlock body) :: ofMethods rest

def ofStmts : List (Stmt Token) → List Outline
  | [] => []
  | statement :: rest => ofStmt statement :: ofStmts rest

def ofElse : Option (Stmt Token) → List Outline
  | none => []
  | some statement => [ofStmt statement]

def ofValue : Option (Expr Token) → List Outline
  | none => []
  | some value => [ofExpr value]

def ofStmt : Stmt Token → Outline
  | .classDef foreign _ name superclass methods =>
    .form (foreign.toList.map (fun _ => .word "foreign") ++ .word "class" :: .leaf name ::
      (superclass.toList.flatMap (fun token => [.word "is", .leaf token]) ++ ofMethods methods))
  | .importDef _ path imported =>
    named "import" (.leaf path ::
      imported.toList.flatMap fun tokens => .word "for" :: tokens.map .leaf)
  | .varDef _ name initializer => named "var" (.leaf name :: ofValue initializer)
  | .ifElse _ condition thenBranch elseBranch =>
    named "if" (ofExpr condition :: ofStmt thenBranch :: ofElse elseBranch)
  | .forIn _ loopVariable iterator body =>
    named "for" [.leaf loopVariable, ofExpr iterator, ofStmt body]
  | .whileDo _ condition body => named "while" [ofExpr condition, ofStmt body]
  | .returnValue _ value => named "return" (ofValue value)
  | .breakLoop _ => named "break" []
  | .block _ statements _ => named "block" (ofStmts statements)
  | .expression expression => ofExpr expression
end

end Outline

def Stmt.dump (source : Source) (statement : Stmt Token) : String :=
  (Outline.ofStmt statement).render source

def Body.dump (source : Source) (body : Body Token) : String :=
  (Outline.ofBody body).render source

/-- A script's statements, one on each line. -/
def Module.dump (source : Source) (module : Module Token) : String :=
  "\n".intercalate (module.statements.map (Stmt.dump source))

end WrenFront
