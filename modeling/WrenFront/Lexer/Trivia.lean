import WrenFront.Lexer.ByteClass

/-! The bytes between tokens: blanks, line comments and nested block comments. A line comment stops
before its line feed, which is a token. -/

namespace WrenFront.Trivia

inductive Place where
  | betweenTokens
  | lineComment
  /-- Inside a comment with `depth` others around it, `length` bytes after the outermost began. -/
  | blockComment (depth length : Nat)

/-- What follows the trivia, and the length of a block comment that the input ends in. -/
structure Skipped where
  rest : List UInt8
  unclosed : Option Nat
  deriving DecidableEq, Repr

def skipFrom : Place → List UInt8 → Skipped
  | .blockComment _ length, [] => ⟨[], some length⟩
  | _, [] => ⟨[], none⟩
  | .betweenTokens, 47 :: 47 :: rest => skipFrom .lineComment rest                  -- //
  | .betweenTokens, 47 :: 42 :: rest => skipFrom (.blockComment 0 2) rest           -- /*
  | .betweenTokens, byte :: rest =>
    if ByteClass.isBlank byte then skipFrom .betweenTokens rest else ⟨byte :: rest, none⟩
  | .lineComment, byte :: rest =>
    if byte = 10 then ⟨byte :: rest, none⟩ else skipFrom .lineComment rest
  | .blockComment depth length, 47 :: 42 :: rest =>                                 -- /*
    skipFrom (.blockComment (depth + 1) (length + 2)) rest
  | .blockComment 0 _, 42 :: 47 :: rest => skipFrom .betweenTokens rest             -- */
  | .blockComment (depth + 1) length, 42 :: 47 :: rest =>
    skipFrom (.blockComment depth (length + 2)) rest
  | .blockComment depth length, _ :: rest => skipFrom (.blockComment depth (length + 1)) rest

def skip (bytes : List UInt8) : Skipped :=
  skipFrom .betweenTokens bytes

theorem length_skipFrom_le (place : Place) (bytes : List UInt8) :
    (skipFrom place bytes).rest.length ≤ bytes.length := by
  fun_induction skipFrom place bytes <;> simp_all <;> omega

theorem length_skip_le (bytes : List UInt8) : (skip bytes).rest.length ≤ bytes.length :=
  length_skipFrom_le .betweenTokens bytes

end WrenFront.Trivia
