import WrenFront.Source.RangeError

/-! Ranges of bytes in a source. -/

namespace WrenFront

structure Span where
  start : Nat := 0
  length : Nat := 0
  deriving DecidableEq, Repr, Inhabited

namespace Span

def stop (span : Span) : Nat :=
  span.start + span.length

def isEmpty (span : Span) : Bool :=
  span.length == 0

/-- A span from its parts. Its end must fit in 64 bits, as every offset does. -/
def make (start length : Nat) : Except RangeError Span :=
  if start + length < UInt64.size then .ok ⟨start, length⟩ else .error .overflow

def between (start stop : Nat) : Except RangeError Span :=
  if start ≤ stop then .ok ⟨start, stop - start⟩ else .error .reversedSpan

def emptyAt (offset : Nat) : Span :=
  ⟨offset, 0⟩

def contains (span : Span) (offset : Nat) : Bool :=
  span.start ≤ offset && offset < span.stop

/-- The shortest span that covers both. -/
def cover (first second : Span) : Span :=
  let start := min first.start second.start
  ⟨start, max first.stop second.stop - start⟩

def describe (span : Span) : String :=
  s!"Span \x7b start: {span.start}, len: {span.length} \x7d"

end Span

end WrenFront
