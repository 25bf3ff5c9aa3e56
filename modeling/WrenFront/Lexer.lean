import WrenFront.Lexer.Lexeme
import WrenFront.Lexer.Trivia
import WrenFront.Token

/-! Reading a source token by token. A lexer can always be read: past the last token it gives the
end token again and again. -/

namespace WrenFront

structure Lexer where
  source : Source
  /-- The bytes that have not been read. -/
  rest : List UInt8
  openings : List Nat := []
  errors : List LexicalError := []
  deriving DecidableEq, Repr

namespace Lexer

def ofSource (source : Source) : Lexer :=
  { source, rest := source.bytes }

/-- Where the unread bytes begin. -/
def offset (lexer : Lexer) : Nat :=
  lexer.source.length - lexer.rest.length

def record (lexer : Lexer) (fault : LexicalFault) (start length : Nat) : Lexer :=
  { lexer with errors := lexer.errors ++ [⟨fault, ⟨start, length⟩⟩] }

def skipTrivia (lexer : Lexer) : Lexer :=
  let skipped := Trivia.skip lexer.rest
  let next := { lexer with rest := skipped.rest }
  match skipped.unclosed with
  | none => next
  | some length => next.record .unterminatedBlockComment (next.offset - length) length

/-- Reads the token that the unread bytes begin with. -/
def readLexeme (lexer : Lexer) : Token × Lexer :=
  match Lexeme.read lexer.openings lexer.rest with
  | none => (⟨.eof, lexer.offset, 0⟩, lexer)
  | some lexeme =>
    let length := lexer.rest.length - lexeme.rest.length
    let next := { lexer with rest := lexeme.rest, openings := lexeme.openings }
    let token := ⟨lexeme.kind, lexer.offset, length⟩
    match lexeme.fault with
    | none => (token, next)
    | some fault => (token, next.record fault lexer.offset length)

def read (lexer : Lexer) : Token × Lexer :=
  lexer.skipTrivia.readLexeme

def takeErrors (lexer : Lexer) : List LexicalError × Lexer :=
  (lexer.errors, { lexer with errors := [] })

/-- The next token, or nothing at the end. -/
def next? (lexer : Lexer) : Option Token × Lexer :=
  let (token, next) := lexer.read
  (if token.kind = .eof then none else some token, next)

@[simp]
theorem rest_record (lexer : Lexer) (fault : LexicalFault) (start length : Nat) :
    (lexer.record fault start length).rest = lexer.rest := rfl

theorem length_skipTrivia_le (lexer : Lexer) :
    lexer.skipTrivia.rest.length ≤ lexer.rest.length := by
  have bound := Trivia.length_skip_le lexer.rest
  simp only [skipTrivia]
  split <;> simpa using bound

theorem length_readLexeme_lt (lexer : Lexer) (more : lexer.readLexeme.1.kind ≠ .eof) :
    lexer.readLexeme.2.rest.length < lexer.rest.length := by
  unfold readLexeme at more ⊢
  split
  · rename_i found
    simp [found] at more
  · rename_i found
    have bound := Lexeme.length_read_lt found
    split <;> simpa using bound

/-- Every token but the end takes at least one byte. -/
theorem length_read_lt (lexer : Lexer) (more : lexer.read.1.kind ≠ .eof) :
    lexer.read.2.rest.length < lexer.rest.length :=
  Nat.lt_of_lt_of_le (length_readLexeme_lt lexer.skipTrivia more) lexer.length_skipTrivia_le

/-- All the tokens that are left, the end included, and the lexer after them. -/
def readAll (lexer : Lexer) : List Token × Lexer :=
  if lexer.read.1.kind = .eof then ([lexer.read.1], lexer.read.2)
  else
    let (tokens, last) := lexer.read.2.readAll
    (lexer.read.1 :: tokens, last)
termination_by lexer.rest.length
decreasing_by exact length_read_lt lexer ‹_›

def describe (lexer : Lexer) : String :=
  let openings := ", ".intercalate (lexer.openings.reverse.map toString)
  s!"Lexer \x7b source: {Text.Quoted.string lexer.source.id}, current: {lexer.offset}, " ++
    s!"interpolations: [{openings}], .. \x7d"

end Lexer

/-- The tokens of a source, ending with one end token. -/
def Source.tokens (source : Source) : List Token :=
  (Lexer.ofSource source).readAll.1

end WrenFront
