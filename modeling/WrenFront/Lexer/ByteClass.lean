/-! Classes of bytes. Names, numbers and blanks are plain ASCII. -/

namespace WrenFront.ByteClass

def isDigit (byte : UInt8) : Bool :=
  48 ≤ byte && byte ≤ 57

def isLetter (byte : UInt8) : Bool :=
  (65 ≤ byte && byte ≤ 90) || (97 ≤ byte && byte ≤ 122)

def isHexDigit (byte : UInt8) : Bool :=
  isDigit byte || (65 ≤ byte && byte ≤ 70) || (97 ≤ byte && byte ≤ 102)

/-- Letters, digits and `_`. -/
def isWord (byte : UInt8) : Bool :=
  isLetter byte || isDigit byte || byte == 95

/-- Spaces, tabs and carriage returns. A line feed is a token. -/
def isBlank (byte : UInt8) : Bool :=
  byte == 32 || byte == 9 || byte == 13

/-- The bytes that only continue a character, `10xxxxxx`. -/
def isContinuation (byte : UInt8) : Bool :=
  0x80 ≤ byte && byte ≤ 0xBF

/-- How many bytes a character takes that starts with `lead`. -/
def width (lead : UInt8) : Nat :=
  if 0xC0 ≤ lead && lead ≤ 0xDF then 2
  else if 0xE0 ≤ lead && lead ≤ 0xEF then 3
  else if 0xF0 ≤ lead && lead ≤ 0xF7 then 4
  else 1

end WrenFront.ByteClass
