import WrenFront.Lexer.ByteClass
import WrenFront.Lexer.Fault
import WrenFront.Text.Utf8
import WrenFront.Token.Kind

/-! One token at the front of the input. The first byte decides which rule reads it; every rule
takes as many bytes as it can. -/

namespace WrenFront

/-- What was read, and what it leaves. Each string interpolation that is open has an entry in
`openings`, innermost first: how many parentheses are open in it, with the one that began it. -/
structure Lexeme where
  kind : TokenKind
  rest : List UInt8
  openings : List Nat
  fault : Option LexicalFault := none
  deriving DecidableEq, Repr

namespace Lexeme

def spellings : List (TokenKind × List UInt8) :=
  TokenKind.punctuators.filterMap fun kind =>
    kind.spelling?.map fun spelling => (kind, Text.Utf8.encode spelling)

/-- The longest punctuator in front, and what follows it. -/
def punctuator? (bytes : List UInt8) : Option (TokenKind × List UInt8) :=
  spellings.findSome? fun (kind, spelling) =>
    if spelling.isPrefixOf bytes then some (kind, bytes.drop spelling.length) else none

inductive StringEnd where
  | quote
  | interpolation
  | endOfInput
  deriving DecidableEq, Repr

/-- Reads to the end of a string segment. A backslash keeps the byte after it from ending the
segment, whatever it is. -/
def stringTail : List UInt8 → StringEnd × List UInt8
  | [] => (.endOfInput, [])
  | [92] => (.endOfInput, [])
  | 92 :: _ :: rest => stringTail rest              -- backslash
  | 37 :: 40 :: rest => (.interpolation, rest)      -- %(
  | byte :: rest => if byte = 34 then (.quote, rest) else stringTail rest

/-- A string segment whose first byte, a quote or the parenthesis that closes an interpolation, has
been read. -/
def stringSegment (openings : List Nat) (bytes : List UInt8) : Lexeme :=
  match stringTail bytes with
  | (.quote, rest) => { kind := .string, rest, openings }
  | (.interpolation, rest) => { kind := .interpolation, rest, openings := 1 :: openings }
  | (.endOfInput, rest) =>
    { kind := .string, rest, openings, fault := some .unterminatedString }

def name (openings : List Nat) (bytes : List UInt8) : Lexeme :=
  let text := Text.Utf8.text (bytes.takeWhile ByteClass.isWord)
  { kind := (TokenKind.keyword? text).getD .name,
    rest := bytes.dropWhile ByteClass.isWord, openings }

/-- A character that no token begins with. What does not decode to one character is reported as
the replacement character. -/
def unexpected (openings : List Nat) (lead : UInt8) (rest : List UInt8) : Lexeme :=
  let more := (rest.take (ByteClass.width lead - 1)).takeWhile ByteClass.isContinuation
  let char := match Text.Utf8.decode (lead :: more) with
    | [char] => char
    | _ => Text.Utf8.replacement
  { kind := .error, rest := rest.drop more.length, openings,
    fault := some (.unexpectedCharacter char) }

/-- Reads a token whose first byte does not close or reopen an interpolation. -/
def plain (openings : List Nat) (first : UInt8) (rest : List UInt8) : Lexeme :=
  if first = 10 then { kind := .line, rest, openings }
  else match punctuator? (first :: rest) with
  | some (kind, rest) => { kind, rest, openings }
  | none =>
    if first = 95 then                                                     -- _
      match rest with
      | 95 :: rest => { kind := .staticField, rest := rest.dropWhile ByteClass.isWord, openings }
      | _ => { kind := .field, rest := rest.dropWhile ByteClass.isWord, openings }
    else if first = 34 then stringSegment openings rest                    -- quote
    else if ByteClass.isDigit first then
      match first, rest with
      | 48, 120 :: rest =>                                                 -- 0x
        { kind := .number, rest := rest.dropWhile ByteClass.isHexDigit, openings }
      | _, _ => { kind := .number, rest := rest.dropWhile ByteClass.isDigit, openings }
    else if ByteClass.isLetter first then name openings (first :: rest)
    else unexpected openings first rest

/-- Reads the token in front of the input, if there is input. In an interpolation, parentheses
are counted, and the one that balances its beginning resumes the string. -/
def read (openings : List Nat) : List UInt8 → Option Lexeme
  | [] => none
  | first :: rest =>
    match openings, first with
    | depth :: outer, 40 => some { kind := .leftParen, rest, openings := (depth + 1) :: outer }
    | depth :: outer, 41 =>
      if depth ≤ 1 then some (stringSegment outer rest)
      else some { kind := .rightParen, rest, openings := (depth - 1) :: outer }
    | _, _ => some (plain openings first rest)

theorem length_spelling_pos : ∀ entry ∈ spellings, 0 < entry.2.length := by
  decide

theorem length_punctuator?_lt {bytes rest : List UInt8} {kind : TokenKind}
    (found : punctuator? bytes = some (kind, rest)) : rest.length < bytes.length := by
  obtain ⟨⟨other, spelling⟩, member, taken⟩ := List.exists_of_findSome?_eq_some found
  have positive : 0 < spelling.length := length_spelling_pos _ member
  simp only [Option.ite_none_right_eq_some, Option.some.injEq, Prod.mk.injEq] at taken
  have short := (List.isPrefixOf_iff_prefix.1 taken.1).length_le
  rw [← taken.2.2, List.length_drop]
  omega

theorem length_stringTail_le (bytes : List UInt8) :
    (stringTail bytes).2.length ≤ bytes.length := by
  fun_induction stringTail bytes <;> simp_all <;> omega

theorem length_stringSegment_le (openings : List Nat) (bytes : List UInt8) :
    (stringSegment openings bytes).rest.length ≤ bytes.length := by
  have bound := length_stringTail_le bytes
  unfold stringSegment
  split <;> simp_all

theorem length_name_lt (openings : List Nat) {first : UInt8} (rest : List UInt8)
    (letter : ByteClass.isLetter first = true) :
    (name openings (first :: rest)).rest.length < (first :: rest).length := by
  have word : ByteClass.isWord first = true := by simp [ByteClass.isWord, letter]
  have bound := (List.dropWhile_suffix (l := rest) ByteClass.isWord).length_le
  simp only [name, List.dropWhile_cons_of_pos word, List.length_cons]
  omega

theorem length_plain_le (openings : List Nat) (first : UInt8) (rest : List UInt8) :
    (plain openings first rest).rest.length ≤ rest.length := by
  have drop (kept : UInt8 → Bool) (bytes : List UInt8) :
      (bytes.dropWhile kept).length ≤ bytes.length :=
    (List.dropWhile_suffix kept).length_le
  unfold plain
  split
  · exact Nat.le_refl _
  split
  · rename_i found
    exact Nat.le_of_lt_succ (length_punctuator?_lt found)
  split
  · split
    · exact Nat.le_succ_of_le (drop _ _)
    · exact drop _ rest
  split
  · exact length_stringSegment_le openings rest
  split
  · split
    · exact Nat.le_succ_of_le (drop _ _)
    · exact drop _ rest
  split
  · rename_i letter
    exact Nat.le_of_lt_succ (length_name_lt openings rest letter)
  · simp [unexpected]

theorem length_read_lt {openings : List Nat} {bytes : List UInt8} {lexeme : Lexeme}
    (found : read openings bytes = some lexeme) : lexeme.rest.length < bytes.length := by
  cases bytes with
  | nil => simp [read] at found
  | cons first rest =>
    simp only [read] at found
    rw [List.length_cons, Nat.lt_succ_iff]
    split at found
    · cases found; exact Nat.le_refl _
    · split at found
      · cases found; exact length_stringSegment_le _ rest
      · cases found; exact Nat.le_refl _
    · cases found; exact length_plain_le openings first rest

end Lexeme

end WrenFront
