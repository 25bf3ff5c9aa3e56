import WrenFront.Source.RangeError
import WrenFront.Text.Quoted
import WrenFront.Text.Utf8

/-! A script's bytes under a name, with lines and columns. Lines and columns count from one, columns
count bytes, and a line feed belongs to the line it ends. -/

namespace WrenFront

namespace Line

def feed : UInt8 := 10

/-- Where the lines after the first begin, if `bytes` stand at `offset`. -/
def startsAfter (offset : Nat) : List UInt8 → List Nat
  | [] => []
  | byte :: rest =>
    if byte = feed then (offset + 1) :: startsAfter (offset + 1) rest
    else startsAfter (offset + 1) rest

def starts (bytes : List UInt8) : List Nat :=
  0 :: startsAfter 0 bytes

end Line

/-- The table of line starts is kept, since every position is looked up in it. -/
structure Source where
  id : String
  bytes : List UInt8
  lineStarts : List Nat := Line.starts bytes
  lineStarts_eq : lineStarts = Line.starts bytes := by rfl
  deriving DecidableEq, Repr

namespace Source

def length (source : Source) : Nat :=
  source.bytes.length

def lineCount (source : Source) : Nat :=
  source.lineStarts.length

/-- The line that holds `offset`: as many lines as begin at or before it. -/
def line (source : Source) (offset : Nat) : Nat :=
  source.lineStarts.countP (· ≤ offset)

def startOfLine (source : Source) (line : Nat) : Nat :=
  source.lineStarts.getD (line - 1) 0

def column (source : Source) (offset : Nat) : Nat :=
  offset - source.startOfLine (source.line offset) + 1

def slice (source : Source) (start length : Nat) : List UInt8 :=
  (source.bytes.drop start).take length

def text (source : Source) : String :=
  Text.Utf8.text source.bytes

def checkOffset (source : Source) (offset : Nat) : Except RangeError Unit :=
  if offset ≤ source.length then .ok () else .error (.offsetOutside offset source.length)

def byteAt (source : Source) (offset : Nat) : Except RangeError UInt8 :=
  match source.bytes[offset]? with
  | some byte => .ok byte
  | none => .error (.offsetOutside offset source.length)

def lineAt (source : Source) (offset : Nat) : Except RangeError Nat := do
  source.checkOffset offset
  return source.line offset

def columnAt (source : Source) (offset : Nat) : Except RangeError Nat := do
  source.checkOffset offset
  return source.column offset

def lineStart (source : Source) (line : Nat) : Except RangeError Nat :=
  if 1 ≤ line ∧ line ≤ source.lineCount then .ok (source.startOfLine line)
  else .error (.lineOutside line source.lineCount)

def offsetAt (source : Source) (line column : Nat) : Except RangeError Nat := do
  if column = 0 then throw .columnZero
  let next := (← source.lineStart line) + column
  if source.length < next - 1 then
    throw (.ofSum next (.offsetOutside (next - 1) source.length))
  return next - 1

/-- The bytes of a line without the line feed that ends it. -/
def lineBytes (source : Source) (line : Nat) : Except RangeError (List UInt8) := do
  let start ← source.lineStart line
  let stop := match source.lineStarts[line]? with
    | some next => next - 1
    | none => source.length
  return source.slice start (stop - start)

def lineText (source : Source) (line : Nat) : Except RangeError String := do
  return Text.Utf8.text (← source.lineBytes line)

def substring (source : Source) (start length : Nat) : Except RangeError String :=
  if start + length ≤ source.length then .ok (Text.Utf8.text (source.slice start length))
  else .error (.bytesOutside start length source.length)

def describe (source : Source) : String :=
  s!"SourceBuffer \x7b id: {Text.Quoted.string source.id}, length: {source.length}, " ++
    s!"lines: {source.lineCount}, .. \x7d"

end Source

end WrenFront
