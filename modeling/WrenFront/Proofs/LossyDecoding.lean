import WrenFront.Lexer.ByteClass
import WrenFront.Text.Utf8

/-! Decoding of bytes that were cut in two. What is decoded of the parts makes up what is decoded of
the whole, unless the cut goes through a character. Decoding never makes a text shorter: what takes
the place of bytes that are no character is at least as long as they are. -/

namespace WrenFront.Text.Utf8

namespace Progress

/-- What it adds to the text. -/
def chars : Progress → List Char
  | .complete char => [char]
  | .pending _ => []
  | .invalid => [replacement]

/-- The character that is left pending. -/
def next : Progress → Option Pending
  | .pending next => some next
  | _ => none

end Progress

/-- What one more byte makes of the character that is pending, if any, after what it adds to the
text by ending one that came to nothing. -/
def advance : Option Pending → UInt8 → List Char × Progress
  | none, byte => ([], begin byte)
  | some pending, byte =>
    match pending.push byte with
    | .invalid => ([replacement], begin byte)
    | progress => ([], progress)

/-- The character that is pending after some bytes. -/
def pendingAfter (state : Option Pending) (bytes : List UInt8) : Option Pending :=
  bytes.foldl (fun state byte => (advance state byte).2.next) state

theorem decodeFrom_cons (state : Option Pending) (byte : UInt8) (rest : List UInt8) :
    decodeFrom state (byte :: rest) = (advance state byte).1 ++ (advance state byte).2.chars ++
      decodeFrom (advance state byte).2.next rest := by
  cases state with
  | none =>
    simp only [decodeFrom, advance]
    cases begin byte <;> rfl
  | some pending =>
    simp only [decodeFrom, advance]
    cases pending.push byte with
    | invalid => cases begin byte <;> rfl
    | _ => rfl

/-- How many code points so many continuation bytes tell apart. -/
def codes : Nat → Nat
  | 0 => 1
  | more + 1 => 64 * codes more

namespace Pending

/-- The least code point that the pending character can still have. -/
def least (pending : Pending) : Nat :=
  (pending.code * 64 + (pending.low.toNat - 0x80)) * codes (pending.needed - 1)

/-- A bound on the code points that it can still have. -/
def beyond (pending : Pending) : Nat :=
  (pending.code * 64 + (pending.high.toNat - 0x80) + 1) * codes (pending.needed - 1)

/-- The least code point that takes so many bytes. -/
def leastCode (bytes : Nat) : Nat :=
  if bytes ≤ 2 then 0x80 else if bytes = 3 then 0x800 else 0x10000

/-- A character of which so many bytes have been read, and of which only continuation bytes are
missing. It will not have a shorter form, and it will not be a surrogate. -/
def Begun (taken : Nat) (pending : Pending) : Prop :=
  1 ≤ taken ∧ 1 ≤ pending.needed ∧ taken + pending.needed ≤ 4 ∧
    0x80 ≤ pending.low.toNat ∧ pending.high.toNat ≤ 0xBF ∧
    leastCode (taken + pending.needed) ≤ pending.least ∧
    (pending.beyond ≤ 0xD800 ∨ 0xE000 ≤ pending.least ∧ pending.beyond ≤ 0x110000)

instance (taken : Nat) (pending : Pending) : Decidable (pending.Begun taken) :=
  inferInstanceAs (Decidable (_ ∧ _))

end Pending

/-- What has been seen to hold of all the 256 bytes holds of a byte. -/
theorem forall_byte {motive : UInt8 → Prop} (all : ∀ code < 256, motive (UInt8.ofNat code))
    (byte : UInt8) : motive byte := by
  rw [← UInt8.ofNat_toNat (x := byte)]
  exact all _ byte.toNat_lt

theorem begin_begun : ∀ byte, ∀ next ∈ (begin byte).next,
    next.Begun 1 ∧ next.needed = ByteClass.width byte - 1 :=
  forall_byte (by decide +kernel)

theorem begin_continuation :
    ∀ byte, ByteClass.isContinuation byte → (begin byte).next = none :=
  forall_byte (by decide +kernel)

theorem isContinuation_plain : ∀ byte < (0x80 : UInt8), ByteClass.isContinuation byte = false :=
  forall_byte (by decide +kernel)

namespace Pending
variable {pending next : Pending} {taken : Nat} {byte : UInt8}

/-- Where a byte leads that goes on with a character. -/
theorem push_cases (pending : Pending) (byte : UInt8) : pending.push byte = .invalid ∨
    pending.low ≤ byte ∧ byte ≤ pending.high ∧ ∃ code,
      code = pending.code * 64 + (byte.toNat - 0x80) ∧ pending.push byte =
        if pending.needed ≤ 1 then .complete (Char.ofNat code)
        else .pending ⟨pending.needed - 1, 0x80, 0xBF, code⟩ := by
  by_cases inside : pending.low ≤ byte ∧ byte ≤ pending.high
  · exact .inr ⟨inside.1, inside.2, _, rfl, if_pos inside⟩
  · exact .inl (if_neg inside)

/-- The code points that are left are among those that there were before. -/
theorem push_narrows {code : Nat} (low : 0x80 ≤ pending.low.toNat)
    (above : pending.low.toNat ≤ byte.toNat) (below : byte.toNat ≤ pending.high.toNat)
    (same : code = pending.code * 64 + (byte.toNat - 0x80)) :
    pending.least ≤ code * codes (pending.needed - 1) ∧
      (code + 1) * codes (pending.needed - 1) ≤ pending.beyond :=
  ⟨Nat.mul_le_mul_right _ (by omega), Nat.mul_le_mul_right _ (by omega)⟩

theorem toNat_low : (0x80 : UInt8).toNat = 0x80 := rfl

theorem toNat_high : (0xBF : UInt8).toNat = 0xBF := rfl

theorem least_next (needed code : Nat) :
    least ⟨needed + 1, 0x80, 0xBF, code⟩ = code * codes (needed + 1) := by
  simp only [least, toNat_low, Nat.sub_self, Nat.add_zero, Nat.add_sub_cancel]
  rw [codes, Nat.mul_assoc]

theorem beyond_next (needed code : Nat) :
    beyond ⟨needed + 1, 0x80, 0xBF, code⟩ = (code + 1) * codes (needed + 1) := by
  have next : code * 64 + (0xBF - 0x80) + 1 = (code + 1) * 64 := by omega
  simp only [beyond, toNat_high, next, Nat.add_sub_cancel]
  rw [codes, Nat.mul_assoc]

/-- A character with so great a code point takes so many bytes. -/
theorem leastCode_le {char : Char} {bytes : Nat} (four : bytes ≤ 4)
    (least : leastCode bytes ≤ char.val.toNat) (two : 2 ≤ bytes) : bytes ≤ char.utf8Size := by
  have one := char.utf8Size_eq_one_iff
  have two := char.utf8Size_eq_two_iff
  have three := char.utf8Size_eq_three_iff
  simp only [UInt32.le_iff_toNat_le, UInt32.lt_iff_toNat_lt, UInt32.reduceToNat] at one two three
  have size := char.utf8Size_eq
  unfold leastCode at least
  split at least
  · omega
  · split at least <;> omega

theorem Begun.push (begun : pending.Begun taken) (goes : pending.push byte = .pending next) :
    next.Begun (taken + 1) := by
  obtain ⟨some, needed, width, low, high, least, scalar⟩ := begun
  rcases pending.push_cases byte with invalid | ⟨above, below, code, same, pushed⟩
  · rw [goes] at invalid
    cases invalid
  · obtain ⟨left, right⟩ := push_narrows low above below same
    rw [goes] at pushed
    split at pushed
    · cases pushed
    · next more =>
      obtain ⟨rest, restEq⟩ : ∃ rest, pending.needed = rest + 2 := ⟨pending.needed - 2, by omega⟩
      rw [restEq] at pushed left right width least
      cases pushed
      change _ ≤ code * codes (rest + 1) at left
      change (code + 1) * codes (rest + 1) ≤ _ at right
      rw [← least_next] at left
      rw [← beyond_next] at right
      refine ⟨by omega, Nat.le_add_left 1 rest, by simp only; omega, Nat.le_of_eq toNat_low.symm,
        Nat.le_of_eq toNat_high, ?_, ?_⟩
      · have total : taken + 1 + (rest + 1) = taken + (rest + 2) := by omega
        exact total ▸ Nat.le_trans least left
      · exact scalar.imp (Nat.le_trans right) fun both =>
          ⟨Nat.le_trans both.1 left, Nat.le_trans right both.2⟩

/-- The character takes as many bytes as have been read for it. -/
theorem Begun.complete (begun : pending.Begun taken) {char : Char}
    (goes : pending.push byte = .complete char) : taken + 1 ≤ char.utf8Size := by
  obtain ⟨some, needed, width, low, high, least, scalar⟩ := begun
  rcases pending.push_cases byte with invalid | ⟨above, below, code, same, pushed⟩
  · rw [goes] at invalid
    cases invalid
  · obtain ⟨left, right⟩ := push_narrows low above below same
    rw [goes] at pushed
    split at pushed
    · next last =>
      cases pushed
      have one : pending.needed = 1 := by omega
      rw [one] at left right least
      simp only [Nat.sub_self, codes, Nat.mul_one] at left right
      have valid : code.isValidChar := by
        simp only [Nat.isValidChar]
        omega
      have value : (Char.ofNat code).val.toNat = code := by
        rw [Char.ofNat, dif_pos valid]
        rfl
      exact leastCode_le (by omega) (value.symm ▸ Nat.le_trans least left) (by omega)
    · cases pushed

/-- Only a continuation byte goes on with a character. -/
theorem Begun.invalid (begun : pending.Begun taken)
    (other : ByteClass.isContinuation byte = false) : pending.push byte = .invalid := by
  obtain ⟨-, -, -, low, high, -⟩ := begun
  apply if_neg
  simp only [ByteClass.isContinuation, Bool.and_eq_false_iff, decide_eq_false_iff_not,
    UInt8.le_iff_toNat_le] at other
  rw [UInt8.le_iff_toNat_le, UInt8.le_iff_toNat_le]
  change ¬ 0x80 ≤ byte.toNat ∨ ¬ byte.toNat ≤ 0xBF at other
  omega

end Pending

/-- So many bytes have been read for the character that is pending. -/
def Taken (bytes : Nat) : Option Pending → Prop
  | none => bytes = 0
  | some pending => pending.Begun bytes

/-- How many bytes it takes to encode the characters. -/
def size (chars : List Char) : Nat :=
  (String.ofList chars).utf8ByteSize

theorem size_append (first second : List Char) :
    size (first ++ second) = size first + size second := by
  rw [size, String.ofList_append, String.utf8ByteSize_append]
  rfl

theorem size_singleton (char : Char) : size [char] = char.utf8Size := by
  rw [size, ← String.singleton_eq_ofList, String.utf8ByteSize_singleton]

theorem size_replacement : size [replacement] = 3 :=
  size_singleton replacement

/-- A byte that begins a character is not lost. -/
theorem begin_size (byte : UInt8) :
    ∃ next, Taken next (begin byte).next ∧ 1 ≤ size (begin byte).chars + next := by
  cases begins : begin byte with
  | complete char => exact ⟨0, rfl, size_singleton char ▸ char.utf8Size_pos⟩
  | pending next =>
    have begun := (begin_begun byte next (congrArg Progress.next begins)).1
    exact ⟨1, begun, Nat.le_add_left 1 _⟩
  | invalid => exact ⟨0, rfl, by decide⟩

/-- No byte is lost: it is in what is added to the text, or in the character left pending. -/
theorem advance_size {state : Option Pending} {bytes : Nat} (taken : Taken bytes state)
    (byte : UInt8) : ∃ next, Taken next (advance state byte).2.next ∧
      bytes + 1 ≤ size ((advance state byte).1 ++ (advance state byte).2.chars) + next := by
  cases state with
  | none =>
    subst taken
    exact begin_size byte
  | some pending =>
    change pending.Begun bytes at taken
    rw [advance]
    cases pushed : pending.push byte with
    | complete char => exact ⟨0, rfl, size_singleton char ▸ taken.complete pushed⟩
    | pending next => exact ⟨bytes + 1, taken.push pushed, Nat.le_add_left _ _⟩
    | invalid =>
      obtain ⟨next, taken', more⟩ := begin_size byte
      obtain ⟨-, needed, width, -⟩ := taken
      refine ⟨next, taken', ?_⟩
      change _ ≤ size ([replacement] ++ (begin byte).chars) + next
      rw [size_append, size_replacement]
      omega

theorem decodeFrom_size {state : Option Pending} {bytes : Nat} (taken : Taken bytes state)
    (text : List UInt8) : bytes + text.length ≤ size (decodeFrom state text) := by
  induction text generalizing state bytes with
  | nil =>
    cases state with
    | none =>
      rw [Taken] at taken
      rw [taken]
      exact Nat.zero_le _
    | some pending =>
      obtain ⟨-, needed, width, -⟩ := taken
      rw [decodeFrom, size_replacement, List.length_nil]
      omega
  | cons byte rest ih =>
    obtain ⟨next, takenToo, more⟩ := advance_size taken byte
    have others := ih takenToo
    rw [decodeFrom_cons, size_append, List.length_cons]
    omega

/-- Decoding makes no text shorter. -/
theorem length_le_text (bytes : List UInt8) : bytes.length ≤ (text bytes).utf8ByteSize := by
  have begun : Taken 0 none := rfl
  have whole := decodeFrom_size begun bytes
  rwa [Nat.zero_add] at whole

/-- A cut that does not go through a character: none is pending before it, or the byte after it does
not go on with one. -/
def Apart (before after : List UInt8) : Prop :=
  pendingAfter none before = none ∨
    ∀ byte ∈ after.head?, ByteClass.isContinuation byte = false

theorem decodeFrom_fresh {state : Option Pending} {taken : Nat} (begun : Taken taken state)
    {bytes : List UInt8} (fresh : ∀ byte ∈ bytes.head?, ByteClass.isContinuation byte = false) :
    decodeFrom state bytes = decodeFrom state [] ++ decode bytes := by
  cases state with
  | none => rfl
  | some pending =>
    cases bytes with
    | nil => rfl
    | cons byte rest =>
      have ends : advance (some pending) byte = ([replacement], begin byte) := by
        rw [advance, Pending.Begun.invalid begun (fresh byte rfl)]
      rw [decode, decodeFrom_cons, decodeFrom_cons, ends]
      rfl

theorem decodeFrom_append {state : Option Pending} {taken : Nat} (begun : Taken taken state)
    {before after : List UInt8} (apart : pendingAfter state before = none ∨
      ∀ byte ∈ after.head?, ByteClass.isContinuation byte = false) :
    decodeFrom state (before ++ after) = decodeFrom state before ++ decode after := by
  induction before generalizing state taken with
  | nil =>
    rcases apart with settled | fresh
    · cases settled
      rfl
    · exact decodeFrom_fresh begun fresh
  | cons byte rest ih =>
    obtain ⟨next, begunToo, -⟩ := advance_size begun byte
    rw [List.cons_append, decodeFrom_cons, decodeFrom_cons, ih begunToo apart]
    simp only [List.append_assoc]

theorem Apart.text {before after : List UInt8} (apart : Apart before after) :
    Utf8.text (before ++ after) = Utf8.text before ++ Utf8.text after := by
  have begun : Taken 0 none := rfl
  rw [Utf8.text, decode, decodeFrom_append begun apart, String.ofList_append]
  rfl

theorem pendingAfter_taken {state : Option Pending} {taken : Nat} (begun : Taken taken state)
    (bytes : List UInt8) : ∃ next, Taken next (pendingAfter state bytes) := by
  induction bytes generalizing state taken with
  | nil => exact ⟨taken, begun⟩
  | cons byte rest ih =>
    obtain ⟨next, begunToo, -⟩ := advance_size begun byte
    exact ih begunToo

/-- A byte that does not go on with a character begins one. -/
theorem advance_fresh {state : Option Pending} {taken : Nat} (begun : Taken taken state)
    {byte : UInt8} (fresh : state = none ∨ ByteClass.isContinuation byte = false) :
    (advance state byte).2 = begin byte := by
  cases state with
  | none => rfl
  | some pending =>
    have other := fresh.resolve_left (Option.some_ne_none pending)
    rw [advance, Pending.Begun.invalid begun other]

theorem pendingAfter_concat {before : List UInt8} {byte : UInt8}
    (fresh : pendingAfter none before = none ∨ ByteClass.isContinuation byte = false) :
    pendingAfter none (before ++ [byte]) = (begin byte).next := by
  have start : Taken 0 none := rfl
  obtain ⟨taken, begun⟩ := pendingAfter_taken start before
  rw [pendingAfter, List.foldl_append]
  exact congrArg Progress.next (advance_fresh begun fresh)

/-- Nothing is pending after a byte of its own. -/
theorem pendingAfter_plain {bytes : List UInt8} {byte : UInt8} (last : bytes.getLast? = some byte)
    (plain : byte < 0x80) : pendingAfter none bytes = none := by
  obtain ⟨before, rfl⟩ := List.getLast?_eq_some_iff.1 last
  rw [pendingAfter_concat (.inr (isContinuation_plain byte plain)), begin, if_pos plain]
  rfl

theorem push_needed {pending next : Pending} {byte : UInt8}
    (goes : pending.push byte = .pending next) : next.needed = pending.needed - 1 := by
  rcases pending.push_cases byte with invalid | ⟨_, _, code, _, pushed⟩
  · rw [goes] at invalid
    cases invalid
  · rw [goes] at pushed
    split at pushed <;> cases pushed
    rfl

/-- Continuation bytes leave nothing pending if there are as many of them as were missing. -/
theorem pendingAfter_continuations {state : Option Pending} {taken : Nat}
    (begun : Taken taken state) {bytes : List UInt8}
    (all : ∀ byte ∈ bytes, ByteClass.isContinuation byte)
    (enough : ∀ pending ∈ state, pending.needed ≤ bytes.length) :
    pendingAfter state bytes = none := by
  induction bytes generalizing state taken with
  | nil =>
    cases state with
    | none => rfl
    | some pending =>
      obtain ⟨-, needed, -⟩ := begun
      exact absurd (enough pending rfl) (Nat.not_le_of_lt needed)
  | cons byte rest ih =>
    obtain ⟨first, others⟩ := List.forall_mem_cons.1 all
    obtain ⟨next, begunToo, -⟩ := advance_size begun byte
    apply ih begunToo others
    have fresh : ∀ pending ∈ (begin byte).next, pending.needed ≤ rest.length := by
      simp [begin_continuation byte first]
    cases state with
    | none => exact fresh
    | some pending =>
      have missing := enough pending rfl
      rw [List.length_cons] at missing
      rw [advance]
      cases pushed : pending.push byte with
      | complete char => simp [Progress.next]
      | pending next =>
        rintro _ ⟨⟩
        rw [push_needed pushed]
        omega
      | invalid => exact fresh

/-- Nothing is pending after a first byte and all the bytes that it asks for. -/
theorem Apart.character {before after more : List UInt8} {lead : UInt8}
    (apart : Apart before (lead :: more ++ after))
    (all : ∀ byte ∈ more, ByteClass.isContinuation byte)
    (full : more.length = ByteClass.width lead - 1) :
    pendingAfter none (before ++ lead :: more) = none := by
  have first : pendingAfter none before = none ∨ ByteClass.isContinuation lead = false :=
    apart.imp_right fun fresh => fresh lead rfl
  have start : Taken 0 none := rfl
  obtain ⟨taken, begun⟩ := pendingAfter_taken start (before ++ [lead])
  have split : before ++ lead :: more = (before ++ [lead]) ++ more := by simp
  rw [split, pendingAfter, List.foldl_append]
  refine pendingAfter_continuations begun all fun pending member => ?_
  rw [pendingAfter_concat first] at member
  exact Nat.le_of_eq ((begin_begun lead pending member).2.trans full.symm)

end WrenFront.Text.Utf8
