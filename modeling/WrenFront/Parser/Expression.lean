import WrenFront.Parser.Body

/-! Expressions, from the tightest binding to the loosest: primaries, calls and subscripts, prefix
operators, the infix levels, the conditional, the assignment. -/

namespace WrenFront.Parse

variable {σ τ : Type} [Feed σ τ] (nested : Nested σ τ)

def argumentList : Parse σ τ (List (Expr τ)) := do
  skipNewlines
  separated nested.expression

def callArguments : Parse σ τ (Option (List (Expr τ))) := do
  if ← accept .leftParen then
    if ← accept .rightParen then return some []
    let arguments ← argumentList nested
    let _ ← expect .rightParen "')' after arguments"
    return some arguments
  return none

def blockParameters : Parse σ τ (Option (List τ)) := do
  if ← accept .pipe then
    let parameters ← parameterList
    let _ ← expect .pipe "'|' after block parameters"
    return some parameters
  return none

def blockArgument : Parse σ τ (Option (Body τ)) := do
  if ← accept .leftBrace then
    let parameters ← blockParameters
    return some (← bodyTail nested parameters)
  return none

def callTail (receiver : Option (Expr τ)) (name : τ) : Parse σ τ (Expr τ) := do
  let arguments ← callArguments nested
  let block ← blockArgument nested
  return .call receiver name arguments block

def superTail (keyword : τ) : Parse σ τ (Expr τ) := do
  let name ← if ← accept .dot then
      pure (some (← expect .name "method name after 'super.'"))
    else pure none
  let arguments ← callArguments nested
  let block ← blockArgument nested
  return .superCall keyword name arguments block

def groupingTail (leftParen : τ) : Parse σ τ (Expr τ) := do
  let expression ← nested.expression
  let rightParen ← expect .rightParen "')' after expression"
  return .grouping leftParen expression rightParen

def listTail (leftBracket : τ) : Parse σ τ (Expr τ) := do
  let items ← elements .rightBracket nested.expression
  let rightBracket ← expect .rightBracket "']' after list elements"
  return .list leftBracket items rightBracket

def mapEntry : Parse σ τ (MapEntry τ) := do
  let key ← nested.expression
  let _ ← expect .colon "':' after map key"
  let value ← nested.expression
  return .mk key value

def mapTail (leftBrace : τ) : Parse σ τ (Expr τ) := do
  let entries ← elements .rightBrace (mapEntry nested)
  let rightBrace ← expect .rightBrace "'\x7d' after map entries"
  return .map leftBrace entries rightBrace

def interpolationRound : Parse σ τ (Round (InterpolationPart τ)) := do
  match ← accept? .interpolation with
  | none => return .stop
  | some segment => return .more (.mk segment (← nested.expression))

def interpolation : Parse σ τ (Expr τ) := do
  let parts ← loop (interpolationRound nested)
  let last ← expect .string "end of string interpolation"
  return .interpolation parts last

/-- An expression that begins with a token of its own. What cannot begin one is left alone and
stands in for it. -/
def primary : Parse σ τ (Expr τ) := do
  match ← peek with
  | .leftParen => groupingTail nested (← advance)
  | .leftBracket => listTail nested (← advance)
  | .leftBrace => mapTail nested (← advance)
  | .name => callTail nested none (← advance)
  | .kwSuper => superTail nested (← advance)
  | .kwTrue | .kwFalse => return .bool (← advance)
  | .kwNull => return .null (← advance)
  | .kwThis => return .this (← advance)
  | .field => return .field (← advance)
  | .staticField => return .staticField (← advance)
  | .number => return .number (← advance)
  | .string => return .string (← advance)
  | .interpolation => interpolation nested
  | _ => do
    let token ← lookahead
    complain .missingExpression
    return .null token

/-- What may follow a primary: a subscript, or a call of a method by name. -/
inductive Link (τ : Type) where
  | subscript (leftBracket : τ) (arguments : List (Expr τ)) (rightBracket : τ)
  | call (name : τ) (arguments : Option (List (Expr τ))) (block : Option (Body τ))

def Link.attach (receiver : Expr τ) : Link τ → Expr τ
  | .subscript leftBracket arguments rightBracket =>
    .subscript receiver leftBracket arguments rightBracket
  | .call name arguments block => .call (some receiver) name arguments block

def link : Parse σ τ (Round (Link τ)) := do
  if let some leftBracket ← accept? .leftBracket then
    let arguments ← argumentList nested
    let rightBracket ← expect .rightBracket "']' after subscript arguments"
    return .more (.subscript leftBracket arguments rightBracket)
  if ← accept .dot then
    let name ← expect .name "method name after '.'"
    let arguments ← callArguments nested
    let block ← blockArgument nested
    return .more (.call name arguments block)
  return .stop

def chain : Parse σ τ (Expr τ) := do
  let first ← primary nested
  let links ← loop (link nested)
  return links.foldl Link.attach first

def operand : Parse σ τ (Expr τ) := do
  if (← peek).isPrefixOperator then
    let operator ← advance
    return .prefixOp operator (← nested.operand)
  chain nested

def infixRound (operators : List TokenKind) (right : Parse σ τ (Expr τ)) :
    Parse σ τ (Round (τ × Expr τ)) := do
  match ← acceptAny? operators with
  | none => return .stop
  | some operator =>
    skipNewlines
    return .more (operator, ← right)

/-- Operands joined by the operators of the given levels, the loosest first. -/
def infixChain : List (List TokenKind) → Parse σ τ (Expr τ)
  | [] => operand nested
  | operators :: tighter => do
    let first ← infixChain tighter
    let links ← loop (infixRound operators (infixChain tighter))
    return links.foldl (fun left (operator, right) => .infixOp left operator right) first

def conditional : Parse σ τ (Expr τ) := do
  let condition ← infixChain nested TokenKind.infixLevels
  if let some question ← accept? .question then
    let thenBranch ← nested.conditional
    let colon ← expect .colon "':' after then branch of conditional operator"
    let elseBranch ← nested.expression
    return .conditional condition question thenBranch colon elseBranch
  return condition

def assignment : Parse σ τ (Expr τ) := do
  let target ← conditional nested
  if let some equal ← accept? .equal then
    return .assignment target equal (← nested.expression)
  return target

end WrenFront.Parse
