import WrenFront.Parser.Nesting

/-! Definitions, and the bodies that hold them. -/

namespace WrenFront.Parse

variable {σ τ : Type} [Feed σ τ]

def parameterList : Parse σ τ (List τ) :=
  separated (expect .name "parameter name")

def importTail (keyword : τ) : Parse σ τ (Stmt τ) := do
  let path ← expect .string "import path"
  if ← accept .kwFor then
    skipNewlines
    let imported ← separated (expect .name "imported variable name")
    return .importDef keyword path (some imported)
  return .importDef keyword path none

def varTail (nested : Nested σ τ) (keyword : τ) : Parse σ τ (Stmt τ) := do
  let name ← expect .name "variable name"
  if ← accept .equal then
    return .varDef keyword name (some (← nested.expression))
  return .varDef keyword name none

/-- A class, an import, a variable, or else a statement. -/
def definition (nested : Nested σ τ) : Parse σ τ (Stmt τ) := do
  if let some keyword ← accept? .kwClass then
    return ← nested.classTail none keyword
  if let some foreign ← accept? .kwForeign then
    let keyword ← expect .kwClass "'class' after 'foreign'"
    return ← nested.classTail (some foreign) keyword
  if let some keyword ← accept? .kwImport then
    return ← importTail keyword
  if let some keyword ← accept? .kwVar then
    return ← varTail nested keyword
  nested.statement

/-- The one element of a body on one line: a jump or a control statement, or else an expression. -/
def bodyElement (nested : Nested σ τ) : Parse σ τ (Stmt τ) := do
  match ← peek with
  | .kwReturn | .kwBreak | .kwIf | .kwFor | .kwWhile => nested.statement
  | _ => return .expression (← nested.expression)

def bodyRound (nested : Nested σ τ) : Parse σ τ (Round (Stmt τ)) := do
  if (← peek) = .eof then
    let _ ← expect .rightBrace "'\x7d' at end of block"
    return .stop
  let statement ← definition nested
  expectNewline "newline after statement"
  if ← accept .rightBrace then return .last statement
  return .more statement

/-- Statements on lines of their own up to the closing brace. Each needs a newline after it. -/
def bodyStatements (nested : Nested σ τ) : Parse σ τ (List (Stmt τ)) := do
  if ← accept .rightBrace then return []
  loop (bodyRound nested)

/-- A body after its opening brace and its parameters. -/
def bodyTail (nested : Nested σ τ) (parameters : Option (List τ)) : Parse σ τ (Body τ) := do
  if ← accept .rightBrace then return .sequence parameters []
  if ← newlines then return .sequence parameters (← bodyStatements nested)
  let element ← bodyElement nested
  skipNewlines
  let _ ← expect .rightBrace "'\x7d' at end of block"
  return .single parameters element

end WrenFront.Parse
