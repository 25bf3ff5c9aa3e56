import WrenFront.Source
import WrenFront.Source.Span
import WrenFront.Token.Kind

/-! A token is a kind and a range of bytes. Its text and position are read off the source. -/

namespace WrenFront

structure Token where
  kind : TokenKind
  start : Nat
  length : Nat
  deriving DecidableEq, Repr, Inhabited

namespace Token

def make (source : Source) (kind : TokenKind) (start length : Nat) : Except RangeError Token :=
  if start + length ≤ source.length then .ok ⟨kind, start, length⟩
  else .error (.ofSum (start + length) (.tokenOutside start length source.length))

def stop (token : Token) : Nat :=
  token.start + token.length

def span (token : Token) : Span :=
  ⟨token.start, token.length⟩

def bytes (source : Source) (token : Token) : List UInt8 :=
  source.slice token.start token.length

def text (source : Source) (token : Token) : String :=
  Text.Utf8.text (token.bytes source)

def describe (source : Source) (token : Token) : String :=
  s!"{token.kind.label}({Text.Quoted.string (token.text source)} @ {token.start}..{token.stop})"

end Token

/-- A token of one of several sources. Sources that were loaded apart stay apart, even with the
same bytes, so their tokens are never equal. -/
structure SourcedToken where
  load : Nat
  token : Token
  deriving DecidableEq, Repr

end WrenFront
