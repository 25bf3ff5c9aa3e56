import WrenFront.Proofs.JsonLines

/-! Quoted texts can be read back. Whatever characters a text has, its quoted form stays on one
line, and a reader that undoes the escapes finds the text in it. Which characters are taken to show
by themselves makes no difference to that. -/

namespace WrenFront.Text.Quoted

open JsonString (hexValue hexCode)

/-- Where a reader of quoted text is. -/
inductive Place where
  | text
  /-- After a backslash. -/
  | escape
  /-- In the braces of a code point, after digits that make up `code`. -/
  | codePoint (code : Nat)

/-- What a character stands for after a backslash. -/
def unescape : Char → Char
  | '0' => '\x00'
  | 't' => '\t'
  | 'r' => '\r'
  | 'n' => '\n'
  | char => char

/-- Reads up to the quote that ends the text, and gives what it says and what follows it. -/
def readFrom : Place → List Char → Option (List Char × List Char)
  | _, [] => none
  | .text, '"' :: rest => some ([], rest)
  | .text, '\\' :: rest => readFrom .escape rest
  | .text, char :: rest => (readFrom .text rest).map fun (chars, after) => (char :: chars, after)
  | .escape, 'u' :: '\x7b' :: rest => readFrom (.codePoint 0) rest
  | .escape, mark :: rest =>
    (readFrom .text rest).map fun (chars, after) => (unescape mark :: chars, after)
  | .codePoint code, '\x7d' :: rest =>
    (readFrom .text rest).map fun (chars, after) => (Char.ofNat code :: chars, after)
  | .codePoint code, digit :: rest => readFrom (.codePoint (code * 16 + hexValue digit)) rest

/-- Reads a quoted text that is all there is. -/
def read? : List Char → Option String
  | '"' :: rest =>
    match readFrom .text rest with
    | some (chars, []) => some (String.ofList chars)
    | _ => none
  | _ => none

theorem digitChar_hex : ∀ digit < 16,
    hexValue digit.digitChar = digit ∧ digit.digitChar.isAlphanum := by
  decide

/-- Hexadecimal digits make up the number that they are written for. -/
theorem hexCode_toDigits (number : Nat) : hexCode (Nat.toDigits 16 number) = number ∧
    ∀ digit ∈ Nat.toDigits 16 number, digit.isAlphanum := by
  induction number using Nat.strongRecOn with
  | ind number ih =>
    rw [Nat.toDigits_eq_if (by decide)]
    by_cases single : number < 16
    · rw [if_pos single]
      obtain ⟨value, plain⟩ := digitChar_hex number single
      exact ⟨by simpa [hexCode] using value, by simpa using plain⟩
    · rw [if_neg single]
      obtain ⟨value, plain⟩ := digitChar_hex (number % 16) (Nat.mod_lt _ (by decide))
      obtain ⟨front, all⟩ := ih (number / 16) (by omega)
      refine ⟨?_, ?_⟩
      · rw [hexCode] at front ⊢
        rw [List.foldl_append, front, List.foldl_cons, List.foldl_nil, value]
        exact Nat.div_add_mod' number 16
      · simpa [or_imp, forall_and] using ⟨all, plain⟩

theorem readFrom_codePoint (code : Nat) {digits : List Char}
    (inside : ∀ digit ∈ digits, digit.isAlphanum) (rest : List Char) :
    readFrom (.codePoint code) (digits ++ '\x7d' :: rest) =
      (readFrom .text rest).map fun (chars, after) =>
        (Char.ofNat (digits.foldl (fun code digit => code * 16 + hexValue digit) code) :: chars,
          after) := by
  induction digits generalizing code with
  | nil => rfl
  | cons digit digits ih =>
    obtain ⟨plain, others⟩ := List.forall_mem_cons.1 inside
    have brace : digit ≠ '\x7d' := by
      rintro rfl
      exact absurd plain (by decide)
    rw [List.cons_append, readFrom, ih _ others, List.foldl_cons]
    exact brace

/-- An escape is read as the character that it stands for. -/
theorem readFrom_escape (char : Char) (rest : List Char) :
    readFrom .text (escape '"' char ++ rest) =
      (readFrom .text rest).map fun (chars, after) => (char :: chars, after) := by
  unfold escape
  iterate 4
    split
    · next same => subst same; rfl
  split
  · next quoted => rcases quoted with rfl | rfl <;> rfl
  split
  · next unquoted _ =>
    rw [not_or] at unquoted
    rw [List.singleton_append, readFrom]
    · exact unquoted.2
    · exact unquoted.1
  · obtain ⟨code, all⟩ := hexCode_toDigits char.toNat
    rw [hexCode] at code
    simp only [codePoint, List.cons_append, List.nil_append, List.append_assoc]
    rw [readFrom, readFrom, readFrom_codePoint 0 all, code, Char.ofNat_toNat]

theorem readFrom_string (text rest : List Char) :
    readFrom .text (text.flatMap (escape '"') ++ '"' :: rest) = some (text, rest) := by
  induction text with
  | nil => rfl
  | cons char text ih =>
    rw [List.flatMap_cons, List.append_assoc, readFrom_escape, ih]
    rfl

theorem read?_string (text : String) : read? (string text).toList = some text := by
  have found := readFrom_string text.toList []
  rw [string, String.toList_ofList, List.cons_append, read?, found]
  exact congrArg some String.ofList_toList

theorem escape_oneLine (char : Char) : '\n' ∉ escape '"' char := by
  unfold escape
  iterate 3
    split
    · decide
  split
  · decide
  next other =>
  split
  · next quoted => rcases quoted with rfl | rfl <;> decide
  split
  · simpa using Ne.symm other
  · intro member
    have inside : '\n' ∈ Nat.toDigits 16 char.toNat := by simpa [codePoint] using member
    exact absurd ((hexCode_toDigits char.toNat).2 _ inside) (by decide)

theorem string_oneLine (text : String) : '\n' ∉ (string text).toList := by
  simp [string, escape_oneLine]

end WrenFront.Text.Quoted
