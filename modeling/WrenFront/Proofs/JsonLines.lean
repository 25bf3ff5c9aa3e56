import WrenFront.Diagnostic

/-! JSON objects on one line can be read back: no line feed stands in them as it is, and a reader of
JSON finds in them what was written. -/

namespace WrenFront

namespace Text.JsonString

def hexValue (digit : Char) : Nat :=
  if digit.isDigit then digit.toNat - '0'.toNat else digit.toNat - 'a'.toNat + 10

def hexCode (digits : List Char) : Nat :=
  digits.foldl (fun code digit => code * 16 + hexValue digit) 0

/-- What a character stands for after a backslash. -/
def unescape : Char → Char
  | 'b' => '\x08'
  | 't' => '\t'
  | 'n' => '\n'
  | 'f' => '\x0c'
  | 'r' => '\r'
  | char => char

/-- Reads a string whose first quote has been read, and gives what it says and what follows it. -/
def read : List Char → Option (List Char × List Char)
  | [] => none
  | '"' :: rest => some ([], rest)
  | '\\' :: 'u' :: first :: second :: third :: fourth :: rest =>
    let code := hexCode [first, second, third, fourth]
    (read rest).map fun (chars, after) => (Char.ofNat code :: chars, after)
  | '\\' :: mark :: rest => (read rest).map fun (chars, after) => (unescape mark :: chars, after)
  | char :: rest => (read rest).map fun (chars, after) => (char :: chars, after)

theorem hexCode_hexDigits :
    ∀ code < 0x20, hexCode (['0', '0'] ++ hexDigits code) = code := by
  decide

theorem hexDigits_oneLine : ∀ code < 0x20, '\n' ∉ hexDigits code := by
  decide

theorem read_escape (char : Char) (rest : List Char) :
    read (escape char ++ rest) = (read rest).map fun (chars, after) => (char :: chars, after) := by
  unfold escape
  split
  · next quoted => rcases quoted with rfl | rfl <;> rfl
  iterate 5
    split
    · next same => subst same; rfl
  split
  · next control =>
    have code := hexCode_hexDigits char.toNat control
    simp only [hexDigits, List.cons_append, List.nil_append] at code ⊢
    rw [read]
    simp only [code, Char.ofNat_toNat]
  · next unquoted _ _ _ _ _ _ =>
    rw [List.singleton_append, read]
    all_goals
      intros
      simp_all

theorem read_write (text rest : List Char) :
    read (text.flatMap escape ++ '"' :: rest) = some (text, rest) := by
  induction text with
  | nil => rfl
  | cons char text ih =>
    rw [List.flatMap_cons, List.append_assoc, read_escape, ih]
    rfl

theorem escape_oneLine (char : Char) : '\n' ∉ escape char := by
  unfold escape
  split
  · next quoted => rcases quoted with rfl | rfl <;> decide
  iterate 5
    split
    · decide
  split
  · next control =>
    have digits := hexDigits_oneLine char.toNat control
    simpa using digits
  · next other _ _ _ => simpa using Ne.symm other

theorem write_append (text : String) (rest : List Char) :
    (write text).toList ++ rest = '"' :: (text.toList.flatMap escape ++ '"' :: rest) := by
  simp [write]

theorem write_oneLine (text : String) : '\n' ∉ (write text).toList := by
  simp [write, escape_oneLine]

end Text.JsonString

open Text

inductive JsonValue where
  | number (value : Nat)
  | string (text : String)
  deriving DecidableEq, Repr

namespace JsonValue

def write : JsonValue → String
  | .number value => toString value
  | .string text => JsonString.write text

/-- Reads the value in front, and gives it with what follows it. -/
def read : List Char → Option (JsonValue × List Char)
  | '"' :: rest =>
    (JsonString.read rest).map fun (chars, after) => (.string (String.ofList chars), after)
  | chars =>
    let digits := chars.takeWhile Char.isDigit
    if digits.isEmpty then none
    else some (.number (Nat.ofDigitChars 10 digits 0), chars.dropWhile Char.isDigit)

/-- A run of digits is read as a number. -/
theorem read_digits {digits after : List Char} (some : digits ≠ [])
    (all : ∀ char ∈ digits, char.isDigit)
    (ends : ∀ char ∈ after.head?, char.isDigit = false) :
    read (digits ++ after) = .some (.number (Nat.ofDigitChars 10 digits 0), after) := by
  have run : (digits ++ after).takeWhile Char.isDigit = digits ∧
      (digits ++ after).dropWhile Char.isDigit = after := by
    rw [List.takeWhile_append_of_pos all, List.dropWhile_append_of_pos all]
    cases after <;> simp_all
  obtain ⟨first, more, rfl⟩ := List.exists_cons_of_ne_nil some
  have unquoted : first ≠ '"' := by
    rintro rfl
    exact absurd (all _ List.mem_cons_self) (by decide)
  rw [List.cons_append] at run ⊢
  rw [read]
  · simp only [run, List.isEmpty_cons, Bool.false_eq_true, if_false]
  · intro rest same
    exact unquoted (List.cons.inj same).1

theorem read_write (value : JsonValue) {after : List Char}
    (ends : ∀ char ∈ after.head?, char.isDigit = false) :
    read (value.write.toList ++ after) = some (value, after) := by
  cases value with
  | number value =>
    rw [write, Nat.toString_eq_ofList_toDigits, String.toList_ofList,
      read_digits Nat.toDigits_ne_nil
        (fun _ member => Nat.isDigit_of_mem_toDigits (by decide) (by decide) member) ends,
      Nat.ofDigitChars_ten_toDigits]
  | string text =>
    rw [write, JsonString.write_append, read, JsonString.read_write]
    simp only [Option.map_some, String.ofList_toList]

theorem write_oneLine (value : JsonValue) : '\n' ∉ value.write.toList := by
  cases value with
  | number value =>
    intro member
    rw [write, Nat.toString_eq_ofList_toDigits, String.toList_ofList] at member
    have digit := Nat.isDigit_of_mem_toDigits (by decide) (by decide) member
    revert digit
    decide
  | string text => exact JsonString.write_oneLine text

end JsonValue

namespace JsonObject

def writeMember (member : String × JsonValue) : String :=
  JsonString.write member.1 ++ ":" ++ member.2.write

def write (members : List (String × JsonValue)) : String :=
  "\x7b" ++ ",".intercalate (members.map writeMember) ++ "\x7d"

def readMember : List Char → Option ((String × JsonValue) × List Char)
  | '"' :: rest => do
    let (key, rest) ← JsonString.read rest
    match rest with
    | ':' :: rest =>
      let (value, rest) ← JsonValue.read rest
      return ((String.ofList key, value), rest)
    | _ => none
  | _ => none

/-- Reads members up to the brace that closes the object, if there are no more than `bound`. -/
def readMembers : Nat → List Char → Option (List (String × JsonValue))
  | 0, _ => none
  | bound + 1, chars => do
    let (member, rest) ← readMember chars
    match rest with
    | ['\x7d'] => return [member]
    | ',' :: rest => return member :: (← readMembers bound rest)
    | _ => none

/-- Reads an object with at least one member. -/
def read (line : String) : Option (List (String × JsonValue)) :=
  match line.toList with
  | '\x7b' :: rest => readMembers rest.length rest
  | _ => none

theorem readMember_write (member : String × JsonValue) {after : List Char}
    (ends : ∀ char ∈ after.head?, char.isDigit = false) :
    readMember ((writeMember member).toList ++ after) = some (member, after) := by
  obtain ⟨key, value⟩ := member
  rw [writeMember, String.toList_append, String.toList_append, List.append_assoc,
    List.append_assoc, JsonString.write_append, readMember, JsonString.read_write]
  change (JsonValue.read (value.write.toList ++ after) >>= _) = _
  rw [JsonValue.read_write value ends]
  simp

theorem readMembers_write {members : List (String × JsonValue)} (some : members ≠ [])
    {bound : Nat} (enough : members.length ≤ bound) :
    readMembers bound ((",".intercalate (members.map writeMember)).toList ++ ['\x7d']) =
      .some members := by
  induction members generalizing bound with
  | nil => exact absurd rfl some
  | cons member rest ih =>
    obtain ⟨bound, rfl⟩ : ∃ left, bound = left + 1 :=
      ⟨bound - 1, (Nat.sub_add_cancel (Nat.le_trans (Nat.le_add_left 1 _) enough)).symm⟩
    cases rest with
    | nil =>
      rw [List.map_singleton, String.intercalate_singleton, readMembers,
        readMember_write _ (by simp [Char.isDigit])]
      rfl
    | cons next rest =>
      have others := ih (List.cons_ne_nil next rest) (Nat.le_of_succ_le_succ enough)
      rw [List.map_cons, List.map_cons, String.intercalate_cons_cons, ← List.map_cons,
        String.toList_append, String.toList_append, List.append_assoc, List.append_assoc,
        readMembers, readMember_write _ (by simp)]
      change (readMembers bound ((",".intercalate ((next :: rest).map writeMember)).toList ++
        ['\x7d']) >>= _) = _
      rw [others]
      rfl

theorem length_le_write (members : List (String × JsonValue)) :
    members.length ≤ (",".intercalate (members.map writeMember)).toList.length + 1 := by
  induction members with
  | nil => exact Nat.zero_le _
  | cons member rest ih =>
    cases rest with
    | nil => exact Nat.le_add_left 1 _
    | cons next rest =>
      rw [List.map_cons, List.map_cons, String.intercalate_cons_cons, ← List.map_cons,
        String.toList_append, String.toList_append, List.length_append, List.length_append]
      simp only [List.length_cons] at ih ⊢
      change _ ≤ _ + 1 + _ + 1
      omega

/-- An object is read as it was written. -/
theorem read_write {members : List (String × JsonValue)} (some : members ≠ []) :
    read (write members) = .some members := by
  have enough := length_le_write members
  rw [read, write, String.toList_append, String.toList_append, List.append_assoc]
  apply readMembers_write some
  change _ ≤ (_ ++ ['\x7d']).length
  rwa [List.length_append]

theorem writeMember_oneLine (member : String × JsonValue) :
    '\n' ∉ (writeMember member).toList := by
  simp [writeMember, JsonString.write_oneLine, JsonValue.write_oneLine]

theorem write_oneLine (members : List (String × JsonValue)) : '\n' ∉ (write members).toList := by
  have inside : '\n' ∉ (",".intercalate (members.map writeMember)).toList := by
    induction members with
    | nil => decide
    | cons member rest ih =>
      cases rest with
      | nil => exact writeMember_oneLine member
      | cons next rest =>
        rw [List.map_cons, List.map_cons, String.intercalate_cons_cons, ← List.map_cons]
        simp only [String.toList_append, List.mem_append, not_or]
        exact ⟨⟨writeMember_oneLine member, by decide⟩, ih⟩
  simp only [write, String.toList_append, List.mem_append, not_or]
  exact ⟨⟨by decide, inside⟩, by decide⟩

end JsonObject
namespace Diagnostic

/-- What the line of a diagnostic says. -/
def members (diagnostic : Diagnostic) : List (String × JsonValue) :=
  [("column", .number diagnostic.column), ("length", .number diagnostic.span.length),
    ("line", .number diagnostic.line), ("message", .string diagnostic.message),
    ("offset", .number diagnostic.span.start), ("path", .string diagnostic.path),
    ("severity", .string diagnostic.severity.name), ("stage", .string diagnostic.stage.name)]

theorem jsonLine_eq (diagnostic : Diagnostic) :
    diagnostic.jsonLine = JsonObject.write diagnostic.members := by
  simp only [jsonLine, JsonObject.write, members, List.map_cons, List.map_nil,
    JsonObject.writeMember, JsonValue.write]

theorem read_jsonLine (diagnostic : Diagnostic) :
    JsonObject.read diagnostic.jsonLine = some diagnostic.members := by
  rw [jsonLine_eq]
  exact JsonObject.read_write (List.cons_ne_nil _ _)

theorem jsonLine_oneLine (diagnostic : Diagnostic) : '\n' ∉ diagnostic.jsonLine.toList := by
  rw [jsonLine_eq]
  exact JsonObject.write_oneLine diagnostic.members

end Diagnostic
end WrenFront
