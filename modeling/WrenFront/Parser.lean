import WrenFront.Lexer
import WrenFront.Parser.Expression
import WrenFront.Parser.Statement

/-! Parsing a whole script. Every input has a tree; what the grammar does not allow is reported as
problems beside it. -/

namespace WrenFront

variable {σ τ : Type} [Feed σ τ]

namespace Nested

/-- The rules of one level, given those of the next. -/
def around (nested : Nested σ τ) : Nested σ τ where
  expression := Parse.deeper (Parse.assignment nested)
  conditional := Parse.deeper (Parse.conditional nested)
  operand := Parse.deeper (Parse.operand nested)
  statement := Parse.deeper (Parse.statement nested)
  classTail foreign keyword := Parse.deeper (Parse.classTail nested foreign keyword)

/-- The rules with that many levels left. -/
def within : Nat → Nested σ τ
  | 0 => refused
  | levels + 1 => around (within levels)

end Nested

def Parse.moduleRound (nested : Nested σ τ) : Parse σ τ (Round (Stmt τ)) := do
  if (← peek) = .eof then return .stop
  let statement ← definition nested
  if (← peek) = .eof then return .last statement
  expectNewline "newline"
  return .more statement

def Parse.module : Parse σ τ (Module τ) := do
  let nested := Nested.within (Nested.limit - (← get).depth)
  skipNewlines
  let statements ← loop (moduleRound nested)
  let _ ← expect .eof "end of input"
  return ⟨statements⟩

instance : Feed Lexer Token where
  next := Lexer.read
  kind := Token.kind
  unread lexer := lexer.rest.length

abbrev Parser := ParserState Lexer Token

namespace Parser

def ofLexer (lexer : Lexer) : Parser :=
  ParserState.ofFeed lexer

def module (parser : Parser) : Module Token × Parser :=
  Parse.module.run parser

def lexicalErrors (parser : Parser) : List LexicalError :=
  parser.feed.errors

def describe (parser : Parser) : String :=
  let source := parser.feed.source
  let optional : Option Token → String
    | none => "None"
    | some token => s!"Some({token.describe source})"
  s!"Parser \x7b lexer: {parser.feed.describe}, current: {optional parser.current}, " ++
    s!"previous: {optional parser.previous}, problems: {parser.problems.length}, .. \x7d"

end Parser

structure Parsed where
  source : Source
  module : Module Token
  problems : List (Problem Token)
  lexicalErrors : List LexicalError

def Parsed.isClean (parsed : Parsed) : Bool :=
  parsed.problems.isEmpty && parsed.lexicalErrors.isEmpty

def Source.parse (source : Source) : Parsed :=
  let (module, parser) := (Parser.ofLexer (Lexer.ofSource source)).module
  { source, module, problems := parser.problems, lexicalErrors := parser.lexicalErrors }

/-- A problem on one line, after the place it was found at. -/
def Problem.locate (source : Source) (problem : Problem Token) : String :=
  let start := problem.token.start
  s!"{source.id}:{source.line start}:{source.column start}: {problem.message}"

end WrenFront
