import WrenFront.Parser
import WrenFront.Text.JsonString

/-! What a user is told about a script: problems with its grammar, which are always errors, and
lexical errors, which are warnings unless the check is strict. -/

namespace WrenFront

inductive Severity where
  | error
  | warning
  deriving DecidableEq, Repr

def Severity.name : Severity → String
  | .error => "error"
  | .warning => "warning"

/-- The part of reading a script that a diagnostic comes from. -/
inductive Stage where
  | lexical
  | grammar
  deriving DecidableEq, Repr

def Stage.name : Stage → String
  | .lexical => "lexical"
  | .grammar => "syntax"

structure Diagnostic where
  severity : Severity
  stage : Stage
  message : String
  path : String
  line : Nat
  column : Nat
  span : Span
  /-- The text that the span is shown in. -/
  attached : String
  deriving DecidableEq, Repr

namespace Diagnostic

def locate (source : Source) (severity : Severity) (stage : Stage) (message : String)
    (span : Span) : Diagnostic where
  severity := severity
  stage := stage
  message := message
  path := source.id
  line := source.line span.start
  column := source.column span.start
  span := span
  attached := source.text

def ofProblem (source : Source) (problem : Problem Token) : Diagnostic :=
  locate source .error .grammar problem.message problem.token.span

def lexicalSeverity (strict : Bool) : Severity :=
  if strict then .error else .warning

def ofLexicalError (source : Source) (strict : Bool) (error : LexicalError) : Diagnostic :=
  locate source (lexicalSeverity strict) .lexical error.message error.span

def isError (diagnostic : Diagnostic) : Bool :=
  diagnostic.severity = .error

def code : String := "wrenlet::check"

def labels (diagnostic : Diagnostic) : List (String × Span) :=
  [(diagnostic.severity.name ++ " here", diagnostic.span)]

/-- One JSON object on one line, with its keys in alphabetical order. -/
def jsonLine (diagnostic : Diagnostic) : String :=
  let field (key value : String) := Text.JsonString.write key ++ ":" ++ value
  "\x7b" ++ ",".intercalate [
    field "column" (toString diagnostic.column),
    field "length" (toString diagnostic.span.length),
    field "line" (toString diagnostic.line),
    field "message" (Text.JsonString.write diagnostic.message),
    field "offset" (toString diagnostic.span.start),
    field "path" (Text.JsonString.write diagnostic.path),
    field "severity" (Text.JsonString.write diagnostic.severity.name),
    field "stage" (Text.JsonString.write diagnostic.stage.name)] ++ "\x7d"

end Diagnostic

/-- Problems first, then lexical errors, each in the order they were found. -/
def Parsed.diagnostics (parsed : Parsed) (strict : Bool) : List Diagnostic :=
  parsed.problems.map (Diagnostic.ofProblem parsed.source) ++
    parsed.lexicalErrors.map (Diagnostic.ofLexicalError parsed.source strict)

end WrenFront
