import WrenFront.Parser.Body

/-! Statements and classes. -/

namespace WrenFront.Parse

variable {σ τ : Type} [Feed σ τ] (nested : Nested σ τ)

def ifTail (keyword : τ) : Parse σ τ (Stmt τ) := do
  let _ ← expect .leftParen "'(' after 'if'"
  skipNewlines
  let condition ← nested.expression
  let _ ← expect .rightParen "')' after if condition"
  let thenBranch ← nested.statement
  if ← accept .kwElse then
    return .ifElse keyword condition thenBranch (some (← nested.statement))
  return .ifElse keyword condition thenBranch none

def forTail (keyword : τ) : Parse σ τ (Stmt τ) := do
  let _ ← expect .leftParen "'(' after 'for'"
  let loopVariable ← expect .name "for loop variable name"
  let _ ← expect .kwIn "'in' after loop variable"
  skipNewlines
  let iterator ← nested.expression
  let _ ← expect .rightParen "')' after loop expression"
  return .forIn keyword loopVariable iterator (← nested.statement)

def whileTail (keyword : τ) : Parse σ τ (Stmt τ) := do
  let _ ← expect .leftParen "'(' after 'while'"
  skipNewlines
  let condition ← nested.expression
  let _ ← expect .rightParen "')' after while condition"
  return .whileDo keyword condition (← nested.statement)

def returnTail (keyword : τ) : Parse σ τ (Stmt τ) := do
  match ← peek with
  | .line | .rightBrace | .eof => return .returnValue keyword none
  | _ => return .returnValue keyword (some (← nested.expression))

def blockRound : Parse σ τ (Round (Stmt τ)) := do
  if [.rightBrace, .eof].contains (← peek) then return .stop
  let statement ← definition nested
  if (← peek) = .rightBrace then return .last statement
  expectNewline "newline after statement"
  return .more statement

/-- A block after its opening brace. The newline after its last statement may be left out. -/
def blockTail (leftBrace : τ) : Parse σ τ (Stmt τ) := do
  skipNewlines
  let statements ← loop (blockRound nested)
  let rightBrace ← expect .rightBrace "'\x7d' after block"
  return .block leftBrace statements rightBrace

def statement : Parse σ τ (Stmt τ) := do
  if let some keyword ← accept? .kwBreak then return .breakLoop keyword
  if let some keyword ← accept? .kwIf then return ← ifTail nested keyword
  if let some keyword ← accept? .kwFor then return ← forTail nested keyword
  if let some keyword ← accept? .kwWhile then return ← whileTail nested keyword
  if let some keyword ← accept? .kwReturn then return ← returnTail nested keyword
  if let some leftBrace ← accept? .leftBrace then return ← blockTail nested leftBrace
  return .expression (← nested.expression)

/-- A method's name as it is written, with the parameters of a subscript. -/
structure Signature (τ : Type) where
  name : τ
  parameters : Option (List τ)
  /-- Whether a parameter list may follow. -/
  takesList : Bool

def signature : Parse σ τ (Signature τ) := do
  if let some leftBracket ← accept? .leftBracket then
    let parameters ← parameterList
    let _ ← expect .rightBracket "']' after parameters"
    return ⟨leftBracket, some parameters, false⟩
  if (← peek).isInfixOperator then return ⟨← advance, none, true⟩
  if let some operator ← acceptAny? [.bang, .tilde] then return ⟨operator, none, false⟩
  return ⟨← expect .name "method name", none, true⟩

/-- A parenthesised parameter list. Where none is allowed it is read all the same, so that the rest
of the method lines up. -/
def methodParameters (signature : Signature τ) : Parse σ τ (Option (List τ)) := do
  if ← accept .leftParen then
    if !signature.takesList then complain .parametersNotAllowed
    skipNewlines
    if ← accept .rightParen then return some []
    let parameters ← parameterList
    skipNewlines
    let _ ← expect .rightParen "')' after parameters"
    return some parameters
  return signature.parameters

def method : Parse σ τ (Method τ) := do
  let foreign ← accept? .kwForeign
  let static ← accept? .kwStatic
  let construct ← accept? .kwConstruct
  let signature ← signature
  let parameters ← methodParameters signature
  if foreign.isSome then
    return .mk foreign static construct signature.name parameters none
  let _ ← expect .leftBrace "'\x7b' before method body"
  let body ← bodyTail nested parameters
  return .mk foreign static construct signature.name parameters (some body)

def superclass : Parse σ τ (Option τ) := do
  if ← accept .kwIs then
    return some (← expect .name "name of superclass")
  return none

def methodsRound : Parse σ τ (Round (Method τ)) := do
  if ← accept .rightBrace then return .stop
  if (← peek) = .eof then
    let _ ← expect .rightBrace "'\x7d' after class body"
    return .stop
  let method ← method nested
  if ← accept .rightBrace then return .last method
  expectNewline "newline after definition in class"
  return .more method

def methods : Parse σ τ (List (Method τ)) :=
  loop (methodsRound nested)

def classTail (foreign : Option τ) (keyword : τ) : Parse σ τ (Stmt τ) := do
  let name ← expect .name "class name"
  let superclass ← superclass
  let _ ← expect .leftBrace "'\x7b' after class name"
  skipNewlines
  return .classDef foreign keyword name superclass (← methods nested)

end WrenFront.Parse
