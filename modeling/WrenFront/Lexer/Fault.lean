import WrenFront.Source.Span
import WrenFront.Text.Quoted

/-! What can be wrong with a script below the level of its grammar. -/

namespace WrenFront

inductive LexicalFault where
  | unexpectedCharacter (char : Char)
  | unterminatedString
  | unterminatedBlockComment
  deriving DecidableEq, Repr

namespace LexicalFault

def label : LexicalFault → String
  | .unexpectedCharacter _ => "UnexpectedCharacter"
  | .unterminatedString => "UnterminatedString"
  | .unterminatedBlockComment => "UnterminatedBlockComment"

def message : LexicalFault → String
  | .unexpectedCharacter char => s!"unexpected character '{char}'"
  | .unterminatedString => "unterminated string literal"
  | .unterminatedBlockComment => "unterminated block comment"

def describe (fault : LexicalFault) : String :=
  match fault with
  | .unexpectedCharacter char => s!"{fault.label}({Text.Quoted.character char})"
  | _ => fault.label

end LexicalFault

structure LexicalError where
  fault : LexicalFault
  span : Span
  deriving DecidableEq, Repr

namespace LexicalError

def message (error : LexicalError) : String :=
  error.fault.message

def code : String := "wrenlet::lex"

def labels (error : LexicalError) : List (String × Span) :=
  [("here", error.span)]

end LexicalError

end WrenFront
