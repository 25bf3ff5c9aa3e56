/-! Decoding of bytes that need not be valid UTF-8. Each maximal invalid run becomes one
replacement character, so decoding never fails. -/

namespace WrenFront.Text.Utf8

/-- A character whose first bytes have been read. `low` and `high` bound the next byte, which
keeps out overlong forms, surrogates and code points above U+10FFFF. -/
structure Pending where
  needed : Nat
  low : UInt8
  high : UInt8
  code : Nat
  deriving DecidableEq, Repr

/-- What one more byte makes of a character. -/
inductive Progress where
  | complete (char : Char)
  | pending (next : Pending)
  | invalid

def replacement : Char := '\uFFFD'

def begin (first : UInt8) : Progress :=
  if first < 0x80 then .complete (Char.ofNat first.toNat)
  else if first < 0xC2 then .invalid
  else if first < 0xE0 then .pending ⟨1, 0x80, 0xBF, first.toNat - 0xC0⟩
  else if first = 0xE0 then .pending ⟨2, 0xA0, 0xBF, 0⟩
  else if first = 0xED then .pending ⟨2, 0x80, 0x9F, 0xD⟩
  else if first < 0xF0 then .pending ⟨2, 0x80, 0xBF, first.toNat - 0xE0⟩
  else if first = 0xF0 then .pending ⟨3, 0x90, 0xBF, 0⟩
  else if first = 0xF4 then .pending ⟨3, 0x80, 0x8F, 4⟩
  else if first < 0xF4 then .pending ⟨3, 0x80, 0xBF, first.toNat - 0xF0⟩
  else .invalid

def Pending.push (state : Pending) (byte : UInt8) : Progress :=
  if state.low ≤ byte ∧ byte ≤ state.high then
    let code := state.code * 64 + (byte.toNat - 0x80)
    if state.needed ≤ 1 then .complete (Char.ofNat code)
    else .pending ⟨state.needed - 1, 0x80, 0xBF, code⟩
  else .invalid

/-- Decodes `bytes` after the bytes that `state` stands for. A byte that cannot continue a
pending character ends it and is read again as a first byte. -/
def decodeFrom : Option Pending → List UInt8 → List Char
  | none, [] => []
  | some _, [] => [replacement]
  | none, byte :: rest =>
    match begin byte with
    | .complete char => char :: decodeFrom none rest
    | .pending next => decodeFrom (some next) rest
    | .invalid => replacement :: decodeFrom none rest
  | some state, byte :: rest =>
    match state.push byte with
    | .complete char => char :: decodeFrom none rest
    | .pending next => decodeFrom (some next) rest
    | .invalid =>
      match begin byte with
      | .complete char => replacement :: char :: decodeFrom none rest
      | .pending next => replacement :: decodeFrom (some next) rest
      | .invalid => replacement :: replacement :: decodeFrom none rest

def decode (bytes : List UInt8) : List Char :=
  decodeFrom none bytes

def text (bytes : List UInt8) : String :=
  String.ofList (decode bytes)

def encode (text : String) : List UInt8 :=
  text.toUTF8.data.toList

/-- Bytes are valid exactly when nothing had to be replaced, that is when encoding the decoded
text gives them back. -/
def text? (bytes : List UInt8) : Option String :=
  if encode (text bytes) = bytes then some (text bytes) else none

end WrenFront.Text.Utf8
