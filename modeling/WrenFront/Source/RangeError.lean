/-! Positions that a caller may ask for but a source does not have. -/

namespace WrenFront

inductive RangeError where
  | offsetOutside (offset length : Nat)
  | lineOutside (line count : Nat)
  | columnZero
  | bytesOutside (start length total : Nat)
  | tokenOutside (start length total : Nat)
  | reversedSpan
  /-- A sum of two offsets that is no 64-bit word. -/
  | overflow
  deriving DecidableEq, Repr

namespace RangeError

def message : RangeError → String
  | .offsetOutside offset length => s!"offset {offset} out of range for source of length {length}"
  | .lineOutside line count => s!"line {line} out of range (source has {count} lines)"
  | .columnZero => "columns are 1-based"
  | .bytesOutside start length total =>
    s!"range {start}+{length} out of range for source of length {total}"
  | .tokenOutside start length total =>
    s!"token {start}+{length} out of range for source of length {total}"
  | .reversedSpan => "span end precedes its start"
  | .overflow => "attempt to add with overflow"

/-- Why `sum` is refused as an offset: for `cause`, unless it does not even fit in 64 bits. -/
def ofSum (sum : Nat) (cause : RangeError) : RangeError :=
  if sum < UInt64.size then cause else .overflow

end RangeError

end WrenFront
