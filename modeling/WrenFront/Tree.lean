/-! Syntax trees over any type of token. A node keeps the tokens that a reader of the script would
point at, in the order they are written. -/

namespace WrenFront

mutual
inductive Expr (τ : Type) where
  | list (leftBracket : τ) (elements : List (Expr τ)) (rightBracket : τ)
  | map (leftBrace : τ) (entries : List (MapEntry τ)) (rightBrace : τ)
  | grouping (leftParen : τ) (expression : Expr τ) (rightParen : τ)
  | this (token : τ)
  /-- The `null` literal, or the place of a missing expression with the token that stood there. -/
  | null (token : τ)
  | bool (token : τ)
  | number (token : τ)
  | string (token : τ)
  | field (token : τ)
  | staticField (token : τ)
  | assignment (target : Expr τ) (equal : τ) (value : Expr τ)
  | conditional (condition : Expr τ) (question : τ) (thenBranch : Expr τ) (colon : τ)
      (elseBranch : Expr τ)
  | infixOp (left : Expr τ) (operator : τ) (right : Expr τ)
  | prefixOp (operator : τ) (operand : Expr τ)
  | call (receiver : Option (Expr τ)) (name : τ) (arguments : Option (List (Expr τ)))
      (block : Option (Body τ))
  | superCall (keyword : τ) (name : Option τ) (arguments : Option (List (Expr τ)))
      (block : Option (Body τ))
  | subscript (receiver : Expr τ) (leftBracket : τ) (arguments : List (Expr τ))
      (rightBracket : τ)
  | interpolation (parts : List (InterpolationPart τ)) (last : τ)

inductive MapEntry (τ : Type) where
  | mk (key value : Expr τ)

/-- A string segment that ends in `%(`, and the expression after it. -/
inductive InterpolationPart (τ : Type) where
  | mk (segment : τ) (expression : Expr τ)

/-- What stands between the braces of a method or a block argument. A body on one line holds one
element; a body that starts with a newline, or holds nothing, is a sequence. -/
inductive Body (τ : Type) where
  | single (parameters : Option (List τ)) (element : Stmt τ)
  | sequence (parameters : Option (List τ)) (statements : List (Stmt τ))

inductive Method (τ : Type) where
  | mk (foreignKeyword staticKeyword constructKeyword : Option τ) (name : τ)
      (parameters : Option (List τ)) (body : Option (Body τ))

inductive Stmt (τ : Type) where
  | classDef (foreignKeyword : Option τ) (keyword name : τ) (superclass : Option τ)
      (methods : List (Method τ))
  | importDef (keyword path : τ) (imported : Option (List τ))
  | varDef (keyword name : τ) (initializer : Option (Expr τ))
  | ifElse (keyword : τ) (condition : Expr τ) (thenBranch : Stmt τ)
      (elseBranch : Option (Stmt τ))
  | forIn (keyword loopVariable : τ) (iterator : Expr τ) (body : Stmt τ)
  | whileDo (keyword : τ) (condition : Expr τ) (body : Stmt τ)
  | returnValue (keyword : τ) (value : Option (Expr τ))
  | breakLoop (keyword : τ)
  | block (leftBrace : τ) (statements : List (Stmt τ)) (rightBrace : τ)
  | expression (expression : Expr τ)
end

variable {τ : Type}

structure Module (τ : Type) where
  statements : List (Stmt τ)

namespace InterpolationPart

def segment : InterpolationPart τ → τ
  | .mk segment _ => segment

def expression : InterpolationPart τ → Expr τ
  | .mk _ expression => expression

end InterpolationPart

namespace Body

def parameters : Body τ → Option (List τ)
  | .single parameters _ => parameters
  | .sequence parameters _ => parameters

def isEmpty : Body τ → Bool
  | .single _ _ => false
  | .sequence _ statements => statements.isEmpty

end Body

namespace Method

def body? : Method τ → Option (Body τ)
  | .mk _ _ _ _ _ body => body

end Method

namespace Stmt

/-- The bodies that a statement holds directly: those of a class's methods, and the block argument
of a statement that is a call. -/
def bodies : Stmt τ → List (Body τ)
  | .classDef _ _ _ _ methods => methods.filterMap Method.body?
  | .expression (.call _ _ _ body) => body.toList
  | .expression (.superCall _ _ _ body) => body.toList
  | _ => []

end Stmt

def Module.isEmpty (module : Module τ) : Bool :=
  module.statements.isEmpty

end WrenFront
