import WrenFront.Proofs.LossyDecoding

/-! Text that was encoded is decoded to the same text, character by character. -/

namespace WrenFront.Text.Utf8

theorem begin_two : ∀ lead < 32, 2 ≤ lead →
    (begin (UInt8.ofNat (lead + 192))).next = some ⟨1, 0x80, 0xBF, lead⟩ := by
  decide +kernel

theorem begin_three : ∀ lead < 16, (begin (UInt8.ofNat (lead + 224))).next =
    some ⟨2, if lead = 0 then 0xA0 else 0x80, if lead = 13 then 0x9F else 0xBF, lead⟩ := by
  decide +kernel

theorem begin_four : ∀ lead < 5, (begin (UInt8.ofNat (lead + 240))).next =
    some ⟨3, if lead = 0 then 0x90 else 0x80, if lead = 4 then 0x8F else 0xBF, lead⟩ := by
  decide +kernel

theorem decodeFrom_begin {byte : UInt8} {next : Pending} (begins : (begin byte).next = some next)
    (rest : List UInt8) : decodeFrom none (byte :: rest) = decodeFrom (some next) rest := by
  rw [decodeFrom_cons, advance]
  cases found : begin byte with
  | pending other =>
    rw [found] at begins
    cases begins
    rfl
  | _ => rw [found] at begins; cases begins

section Push
variable {low high : UInt8} {digit : Nat} (above : low.toNat ≤ digit + 128)
  (below : digit + 128 ≤ high.toNat)
include above below

theorem push_digit (needed code : Nat) :
    Pending.push ⟨needed, low, high, code⟩ (UInt8.ofNat (digit + 128)) =
      if needed ≤ 1 then .complete (Char.ofNat (code * 64 + digit))
      else .pending ⟨needed - 1, 0x80, 0xBF, code * 64 + digit⟩ := by
  have small := high.toNat_lt
  have value : (UInt8.ofNat (digit + 128)).toNat = digit + 128 := by
    rw [UInt8.toNat_ofNat']
    omega
  have inside : low ≤ UInt8.ofNat (digit + 128) ∧ UInt8.ofNat (digit + 128) ≤ high := by
    rw [UInt8.le_iff_toNat_le, UInt8.le_iff_toNat_le, value]
    exact ⟨above, below⟩
  rw [Pending.push, if_pos inside, value, Nat.add_sub_cancel]

theorem decodeFrom_last (code : Nat) (rest : List UInt8) :
    decodeFrom (some ⟨1, low, high, code⟩) (UInt8.ofNat (digit + 128) :: rest) =
      Char.ofNat (code * 64 + digit) :: decodeFrom none rest := by
  rw [decodeFrom, push_digit above below]
  rfl

theorem decodeFrom_more (needed code : Nat) (rest : List UInt8) :
    decodeFrom (some ⟨needed + 2, low, high, code⟩) (UInt8.ofNat (digit + 128) :: rest) =
      decodeFrom (some ⟨needed + 1, 0x80, 0xBF, code * 64 + digit⟩) rest := by
  rw [decodeFrom, push_digit above below]
  rfl

end Push

theorem decodeFrom_encoded (char : Char) (rest : List UInt8) :
    decodeFrom none (String.utf8EncodeChar char ++ rest) = char :: decodeFrom none rest := by
  have same : Char.ofNat char.val.toNat = char := char.ofNat_toNat
  have valid : char.val.toNat.isValidChar := char.valid
  simp only [Nat.isValidChar] at valid
  rw [String.utf8EncodeChar]
  generalize char.val.toNat = code at *
  split
  · next one =>
    have value : (UInt8.ofNat code).toNat = code := by
      rw [UInt8.toNat_ofNat']
      omega
    have plain : UInt8.ofNat code < 0x80 := by
      rw [UInt8.lt_iff_toNat_lt, value]
      exact Nat.lt_succ_of_le one
    rw [List.singleton_append, decodeFrom, begin, if_pos plain, value, same]
  split
  · next two =>
    have whole : code / 64 % 32 * 64 + code % 64 = code := by omega
    simp only [List.cons_append, List.nil_append]
    rw [decodeFrom_begin (begin_two _ (by omega) (by omega)),
      decodeFrom_last (Nat.le_add_left 128 _) (by change _ ≤ 191; omega), whole, same]
  split
  · next three =>
    have whole : (code / 4096 % 16 * 64 + code / 64 % 64) * 64 + code % 64 = code := by omega
    have low : (if code / 4096 % 16 = 0 then 0xA0 else 0x80 : UInt8).toNat ≤
        code / 64 % 64 + 128 := by
      split
      · change 160 ≤ _
        omega
      · exact Nat.le_add_left 128 _
    have high : code / 64 % 64 + 128 ≤
        (if code / 4096 % 16 = 13 then 0x9F else 0xBF : UInt8).toNat := by
      split
      · change _ ≤ 159
        omega
      · change _ ≤ 191
        omega
    simp only [List.cons_append, List.nil_append]
    rw [decodeFrom_begin (begin_three _ (by omega)), decodeFrom_more low high,
      decodeFrom_last (Nat.le_add_left 128 _) (by change _ ≤ 191; omega), whole, same]
  · next four =>
    have whole : ((code / 262144 % 8 * 64 + code / 4096 % 64) * 64 + code / 64 % 64) * 64 +
        code % 64 = code := by omega
    have low : (if code / 262144 % 8 = 0 then 0x90 else 0x80 : UInt8).toNat ≤
        code / 4096 % 64 + 128 := by
      split
      · change 144 ≤ _
        omega
      · exact Nat.le_add_left 128 _
    have high : code / 4096 % 64 + 128 ≤
        (if code / 262144 % 8 = 4 then 0x8F else 0xBF : UInt8).toNat := by
      split
      · change _ ≤ 143
        omega
      · change _ ≤ 191
        omega
    simp only [List.cons_append, List.nil_append]
    rw [decodeFrom_begin (begin_four _ (by omega)), decodeFrom_more low high,
      decodeFrom_more (Nat.le_add_left 128 _) (by change _ ≤ 191; omega),
      decodeFrom_last (Nat.le_add_left 128 _) (by change _ ≤ 191; omega), whole, same]

theorem decode_encoded (chars : List Char) :
    decode (chars.flatMap String.utf8EncodeChar) = chars := by
  induction chars with
  | nil => rfl
  | cons char chars ih =>
    rw [decode, List.flatMap_cons, decodeFrom_encoded]
    exact congrArg _ ih

theorem encode_eq (text : String) : encode text = text.toList.flatMap String.utf8EncodeChar := by
  change text.toByteArray.data.toList = _
  rw [← String.utf8Encode_toList]
  exact List.toList_data_toByteArray

/-- A text is decoded as it was encoded. -/
theorem text_encode (string : String) : text (encode string) = string := by
  rw [text, encode_eq, decode_encoded, String.ofList_toList]

theorem encode_append (first second : String) :
    encode (first ++ second) = encode first ++ encode second := by
  rw [encode_eq, encode_eq, encode_eq, String.toList_append, List.flatMap_append]

theorem encode_inj {first second : String} (same : encode first = encode second) :
    first = second := by
  rw [← text_encode first, same, text_encode]

theorem text?_encode (string : String) : text? (encode string) = some string := by
  rw [text?, text_encode, if_pos rfl]

end WrenFront.Text.Utf8
