import WrenFront.Proofs.EncodedText
import WrenFront.Proofs.LexemeGrammar
import WrenFront.Proofs.StringSegments

/-! The texts of tokens as characters. Decoding keeps the plain bytes and makes other characters of
the rest, and only plain ones end a string segment or a word; so the text of a token shows where it
ends just as its bytes do. -/

namespace WrenFront

namespace Text.Utf8

/-- Characters in the place of bytes: a plain byte is a character, and every other character stands
for bytes that are not plain. -/
inductive Decodes : List UInt8 → List Char → Prop where
  | nil : Decodes [] []
  | plain {byte bytes chars} (ascii : byte < 0x80) (others : Decodes bytes chars) :
      Decodes (byte :: bytes) (Char.ofNat byte.toNat :: chars)
  | other {run bytes chars} {char : Char} (some : run ≠ []) (high : ∀ byte ∈ run, 0x80 ≤ byte)
      (wide : 2 ≤ char.utf8Size) (others : Decodes bytes chars) :
      Decodes (run ++ bytes) (char :: chars)

theorem begin_high {byte : UInt8} (high : ¬ byte < 0x80) (char : Char) :
    begin byte ≠ .complete char := by
  unfold begin
  rw [if_neg high]
  repeat (split; · exact nofun)
  exact nofun

/-- Only bytes that are not plain go on with a character. -/
theorem push_high {pending : Pending} {taken : Nat} {byte : UInt8} (begun : pending.Begun taken)
    (valid : pending.push byte ≠ .invalid) : 0x80 ≤ byte := by
  rcases pending.push_cases byte with invalid | ⟨above, -⟩
  · exact absurd invalid valid
  · obtain ⟨-, -, -, low, -⟩ := begun
    exact UInt8.le_iff_toNat_le.2 (Nat.le_trans low above)

theorem replacement_wide : 2 ≤ replacement.utf8Size := by decide

section Decodes
variable {rest : List UInt8}
  (others : ∀ {state : Option Pending} (consumed : List UInt8), Taken consumed.length state →
    (∀ byte ∈ consumed, 0x80 ≤ byte) → Decodes (consumed ++ rest) (decodeFrom state rest))
include others

/-- A byte that begins a character. -/
theorem begin_decodes (byte : UInt8) :
    Decodes (byte :: rest) ((begin byte).chars ++ decodeFrom (begin byte).next rest) := by
  have fresh : Decodes rest (decodeFrom none rest) := others [] rfl (by simp)
  by_cases ascii : byte < 0x80
  · have plain : begin byte = .complete (Char.ofNat byte.toNat) := if_pos ascii
    rw [plain]
    exact .plain ascii fresh
  have high : 0x80 ≤ byte := UInt8.not_lt.1 ascii
  cases begins : begin byte with
  | complete char => exact absurd begins (begin_high ascii char)
  | pending next =>
    have begun := (begin_begun byte next (congrArg Progress.next begins)).1
    exact others [byte] begun (by simpa using high)
  | invalid => exact .other (List.cons_ne_nil byte []) (by simpa using high) replacement_wide fresh

theorem advance_decodes {state : Option Pending} {consumed : List UInt8}
    (taken : Taken consumed.length state) (high : ∀ byte ∈ consumed, 0x80 ≤ byte) (byte : UInt8) :
    Decodes (consumed ++ byte :: rest) ((advance state byte).1 ++ (advance state byte).2.chars ++
      decodeFrom (advance state byte).2.next rest) := by
  cases state with
  | none =>
    obtain rfl := List.length_eq_zero_iff.1 taken
    exact begin_decodes others byte
  | some pending =>
    change pending.Begun consumed.length at taken
    have begun : consumed ≠ [] := List.ne_nil_of_length_pos taken.1
    have longer (valid : pending.push byte ≠ .invalid) :
        ∀ other ∈ consumed ++ [byte], 0x80 ≤ other := by
      simpa [or_imp, forall_and] using ⟨high, push_high taken valid⟩
    have split : consumed ++ byte :: rest = consumed ++ [byte] ++ rest := by simp
    rw [advance]
    cases pushed : pending.push byte with
    | complete char =>
      have wide := taken.complete pushed
      have room := taken.1
      rw [split]
      exact .other (by simp) (longer (by simp [pushed])) (by omega)
        (others [] rfl (by simp))
    | pending next =>
      rw [split]
      refine others (consumed ++ [byte]) ?_ (longer (by simp [pushed]))
      rw [List.length_append]
      exact taken.push pushed
    | invalid => exact .other begun high replacement_wide (begin_decodes others byte)

end Decodes

theorem decodeFrom_decodes {state : Option Pending} (consumed : List UInt8)
    (taken : Taken consumed.length state) (high : ∀ byte ∈ consumed, 0x80 ≤ byte)
    (bytes : List UInt8) : Decodes (consumed ++ bytes) (decodeFrom state bytes) := by
  induction bytes generalizing state consumed with
  | nil =>
    cases state with
    | none =>
      obtain rfl := List.length_eq_zero_iff.1 taken
      exact .nil
    | some pending =>
      obtain ⟨begun, -⟩ := taken
      exact .other (List.ne_nil_of_length_pos begun) high replacement_wide .nil
  | cons byte rest ih =>
    rw [decodeFrom_cons]
    exact advance_decodes ih taken high byte

theorem decode_decodes (bytes : List UInt8) : Decodes bytes (decode bytes) := by
  have fresh : Taken 0 none := rfl
  exact decodeFrom_decodes [] fresh (by simp) bytes

/-- A plain character tells its byte. -/
theorem plain_byte {byte : UInt8} (other : UInt8) (ascii : byte < 0x80) (plain : other < 0x80)
    (same : Char.ofNat byte.toNat = Char.ofNat other.toNat) : byte = other := by
  rw [← Lexeme.char_byte ascii, same, Lexeme.char_byte plain]

theorem wide_ne {char plain : Char} (wide : 2 ≤ char.utf8Size) (narrow : plain.utf8Size = 1) :
    char ≠ plain := by
  rintro rfl
  omega

theorem Decodes.head {bytes : List UInt8} {chars : List Char} (decodes : Decodes bytes chars)
    (byte : UInt8) (ascii : byte < 0x80) (narrow : (Char.ofNat byte.toNat).utf8Size = 1)
    (first : chars.head? = some (Char.ofNat byte.toNat)) : bytes.head? = some byte := by
  cases decodes with
  | nil => cases first
  | plain plain others =>
    rw [List.head?_cons, Option.some.injEq] at first
    rw [plain_byte byte plain ascii first, List.head?_cons]
  | other _ _ wide others =>
    rw [List.head?_cons, Option.some.injEq] at first
    exact absurd first (wide_ne wide narrow)

end Text.Utf8

namespace Text

/-- Characters that are inside a string segment. -/
inductive Inside : List Char → Prop where
  | none : Inside []
  | escape {char chars} (others : Inside chars) : Inside ('\\' :: char :: chars)
  | char {char chars} (notSlash : char ≠ '\\') (notQuote : char ≠ '"')
      (closed : char = '%' → chars.head? ≠ some '(') (others : Inside chars) :
      Inside (char :: chars)

/-- A string segment with its delimiters. -/
def Segment (text : String) : Prop :=
  ∃ first body ending, (first = '"' ∨ first = ')') ∧ Inside body ∧
    (ending = ['"'] ∨ ending = ['%', '(']) ∧ text.toList = first :: (body ++ ending)

/-- Letters, digits and underscores. -/
def isWord (char : Char) : Bool :=
  char.isAlphanum || char == '_'

def Word (text : String) : Prop :=
  ∀ char ∈ text.toList, isWord char

end Text

/-- How a token is spelled that has no fault. -/
def TokenKind.Spells (kind : TokenKind) (text : String) : Prop :=
  match kind with
  | .name => Text.Word text ∧ (∃ first rest, text.toList = first :: rest ∧ first.isAlpha) ∧
      ∀ keyword ∈ TokenKind.keywords, keyword.spelling? ≠ some text
  | .number => Text.Word text ∧ ∃ first rest, text.toList = first :: rest ∧ first.isDigit
  | .field => Text.Word text ∧ ∃ rest, text.toList = '_' :: rest ∧ rest.head? ≠ some '_'
  | .staticField => Text.Word text ∧ ∃ rest, text.toList = '_' :: '_' :: rest
  | .string | .interpolation => Text.Segment text
  | .line | .error | .eof => True
  | kind => kind.spelling? = some text

namespace Lexeme
open Text.Utf8

theorem Inside.high {byte : UInt8} {text : List UInt8} (inside : Inside (byte :: text))
    (high : 0x80 ≤ byte) : Inside text := by
  cases inside with
  | escape others => exact absurd high (by decide)
  | byte _ _ _ others => exact others

theorem Inside.dropHigh {run text : List UInt8} (inside : Inside (run ++ text))
    (high : ∀ byte ∈ run, 0x80 ≤ byte) : Inside text := by
  induction run with
  | nil => exact inside
  | cons byte run ih =>
    obtain ⟨first, others⟩ := List.forall_mem_cons.1 high
    exact ih (Inside.high inside first) others

/-- What is inside a string segment is so when it has been decoded. The second part is for what
follows a backslash. -/
theorem Inside.decoded {bytes : List UInt8} {chars : List Char} (decodes : Decodes bytes chars) :
    (Inside bytes → Text.Inside chars) ∧ ∀ byte rest, bytes = byte :: rest → Inside rest →
      ∃ char others, chars = char :: others ∧ Text.Inside others := by
  induction decodes with
  | nil => exact ⟨fun _ => .none, nofun⟩
  | @plain byte bytes chars ascii others ih =>
    refine ⟨fun inside => ?_, ?_⟩
    · cases inside with
      | escape inside =>
        obtain ⟨char, others, rfl, inside⟩ := ih.2 _ _ rfl inside
        exact .escape inside
      | byte notSlash notQuote closed inside =>
        refine .char (fun slash => notSlash ?_) (fun quote => notQuote ?_) ?_ (ih.1 inside)
        · exact plain_byte 92 ascii (by decide) slash
        · exact plain_byte 34 ascii (by decide) quote
        · intro percent opens
          refine closed (plain_byte 37 ascii (by decide) percent) ?_
          exact others.head 40 (by decide) (by decide) opens
    · rintro _ _ ⟨⟩ inside
      exact ⟨_, _, rfl, ih.1 inside⟩
  | @other run bytes chars char some high wide others ih =>
    refine ⟨fun inside => ?_, ?_⟩
    · refine .char (wide_ne wide (by decide)) (wide_ne wide (by decide)) (fun percent => ?_)
        (ih.1 (inside.dropHigh high))
      exact absurd percent (wide_ne wide (by decide))
    · intro byte rest same inside
      obtain ⟨first, run, rfl⟩ := List.exists_cons_of_ne_nil some
      obtain ⟨-, rfl⟩ := List.cons.inj same
      have later := (List.forall_mem_cons.1 high).2
      exact ⟨_, _, rfl, ih.1 (Inside.dropHigh inside later)⟩

/-- What ends a string segment begins with a plain byte, so it is decoded apart. -/
theorem decode_segment {first : UInt8} {body ending : List UInt8} (ascii : first < 0x80)
    (plain : ∀ byte ∈ ending.head?, ByteClass.isContinuation byte = false) :
    decode (first :: (body ++ ending)) =
      Char.ofNat first.toNat :: (decode body ++ decode ending) := by
  have begins : begin first = .complete (Char.ofNat first.toNat) := if_pos ascii
  have fresh : Taken 0 none := rfl
  rw [decode, decodeFrom, begins, decodeFrom_append fresh (.inr plain)]
  rfl

theorem Tail.segment {ending : StringEnd} {first : UInt8} {body rest : List UInt8}
    (delimits : first = 34 ∨ first = 41) (tail : Tail ending (body ++ rest) rest)
    (closed : ending ≠ .endOfInput) : Text.Segment (Text.Utf8.text (first :: body)) := by
  have delimiter : first < 0x80 ∧
      (Char.ofNat first.toNat = '"' ∨ Char.ofNat first.toNat = ')') := by
    rcases delimits with rfl | rfl
    · exact ⟨by decide, .inl rfl⟩
    · exact ⟨by decide, .inr rfl⟩
  generalize whole : body ++ rest = bytes at tail
  cases tail with
  | @quote inner inside rest =>
    obtain rfl : body = inner ++ [34] := List.append_cancel_right (by simpa using whole)
    refine ⟨_, decode inner, ['"'], delimiter.2, (Inside.decoded (decode_decodes inner)).1 inside,
      .inl rfl, ?_⟩
    rw [Text.Utf8.text, String.toList_ofList, decode_segment delimiter.1 (by rintro _ ⟨⟩; rfl)]
    rfl
  | @interpolation inner inside rest =>
    obtain rfl : body = inner ++ [37, 40] := List.append_cancel_right (by simpa using whole)
    refine ⟨_, decode inner, ['%', '('], delimiter.2,
      (Inside.decoded (decode_decodes inner)).1 inside, .inr rfl, ?_⟩
    rw [Text.Utf8.text, String.toList_ofList, decode_segment delimiter.1 (by rintro _ ⟨⟩; rfl)]
    rfl
  | endOfInput => exact absurd rfl closed

theorem word_char : ∀ byte, ByteClass.isWord byte →
    Text.isWord (Char.ofNat byte.toNat) :=
  forall_byte (by decide +kernel)

theorem letter_char : ∀ byte, ByteClass.isLetter byte → (Char.ofNat byte.toNat).isAlpha :=
  forall_byte (by decide +kernel)

theorem digit_char : ∀ byte, ByteClass.isDigit byte →
    ByteClass.isWord byte ∧ (Char.ofNat byte.toNat).isDigit :=
  forall_byte (by decide +kernel)

theorem hexDigit_word : ∀ byte, ByteClass.isHexDigit byte → ByteClass.isWord byte :=
  forall_byte (by decide +kernel)

theorem toList_word {bytes : List UInt8} (word : ∀ byte ∈ bytes, ByteClass.isWord byte) :
    (Text.Utf8.text bytes).toList = bytes.map fun byte => Char.ofNat byte.toNat := by
  rw [Text.Utf8.text, String.toList_ofList, decode_word word]

theorem text_word {bytes : List UInt8} (word : ∀ byte ∈ bytes, ByteClass.isWord byte) :
    Text.Word (Text.Utf8.text bytes) := by
  intro char member
  rw [toList_word word] at member
  obtain ⟨byte, inside, rfl⟩ := List.mem_map.1 member
  exact word_char byte (word byte inside)

theorem Name.spells {text after : List UInt8} (named : Name text after) :
    TokenKind.name.Spells (Text.Utf8.text text) := by
  refine ⟨text_word named.word.all, ?_, fun keyword listed spelled => ?_⟩
  · obtain ⟨first, rest, same, letter⟩ := named.letter
    have chars := toList_word named.word.all
    rw [same, List.map_cons] at chars
    exact ⟨_, _, same ▸ chars, letter_char first letter⟩
  · rcases keyword?_word named.word.all with ⟨kind, -, member, bytes⟩ | ⟨none, -⟩
    · exact named.notKeyword kind member bytes
    · exact List.find?_eq_none.1 none keyword listed (by simpa using spelled)

theorem Field.spells {text after : List UInt8} (field : Field text after) :
    TokenKind.field.Spells (Text.Utf8.text text) := by
  obtain ⟨word, rfl, single, run⟩ := field
  have all : ∀ byte ∈ 95 :: word, ByteClass.isWord byte :=
    List.forall_mem_cons.2 ⟨by decide, run.all⟩
  refine ⟨text_word all, _, toList_word all, fun second => ?_⟩
  cases word with
  | nil => cases second
  | cons byte word =>
    have ascii := isWord_ascii (run.all byte List.mem_cons_self)
    have same : Char.ofNat byte.toNat = '_' := by simpa using second
    exact single (congrArg some (plain_byte 95 ascii (by decide) same))

theorem StaticField.spells {text after : List UInt8} (field : StaticField text after) :
    TokenKind.staticField.Spells (Text.Utf8.text text) := by
  obtain ⟨word, rfl, run⟩ := field
  have all : ∀ byte ∈ 95 :: 95 :: word, ByteClass.isWord byte :=
    List.forall_mem_cons.2 ⟨by decide, List.forall_mem_cons.2 ⟨by decide, run.all⟩⟩
  exact ⟨text_word all, _, toList_word all⟩

theorem Number.spells {text after : List UInt8} (number : Number text after) :
    TokenKind.number.Spells (Text.Utf8.text text) := by
  rcases number with ⟨digits, rfl, run⟩ | ⟨some, run, -⟩
  · have all : ∀ byte ∈ 48 :: 120 :: digits, ByteClass.isWord byte :=
      List.forall_mem_cons.2 ⟨by decide, List.forall_mem_cons.2 ⟨by decide,
        fun byte member => hexDigit_word byte (run.all byte member)⟩⟩
    exact ⟨text_word all, _, _, toList_word all, by decide⟩
  · have all : ∀ byte ∈ text, ByteClass.isWord byte :=
      fun byte member => (digit_char byte (run.all byte member)).1
    obtain ⟨first, rest, rfl⟩ := List.exists_cons_of_ne_nil some
    exact ⟨text_word all, _, _, toList_word all,
      (digit_char first (run.all first List.mem_cons_self)).2⟩

/-- A punctuator and a keyword are spelled in one way. -/
theorem Fixed.spells {kind : TokenKind} {text after : List UInt8} (fixed : Fixed kind text after)
    (other : kind ≠ .line) : kind.spelling? = some (Text.Utf8.text text) := by
  have bytes : kind.bytes? = kind.spelling?.map Text.Utf8.encode := by
    cases kind <;> first | rfl | exact absurd rfl other
  have spelled := fixed.spelled
  rw [bytes] at spelled
  obtain ⟨spelling, same, rfl⟩ := Option.map_eq_some_iff.1 spelled
  rw [same, text_encode]

/-- A token that is written as its kind asks for, and is no string, is spelled so. -/
theorem Written.spells {kind : TokenKind} {text after : List UInt8}
    (written : Written kind text after) (other : kind ∉ stringKinds) :
    kind.Spells (Text.Utf8.text text) := by
  cases kind with
  | name => exact Name.spells written
  | field => exact Field.spells written
  | staticField => exact StaticField.spells written
  | number => exact Number.spells written
  | string => exact absurd (by decide) other
  | interpolation => exact absurd (by decide) other
  | line => trivial
  | error => trivial
  | eof => trivial
  | _ => exact Fixed.spells written (by simp)

end Lexeme

namespace Lexer
variable {lexer : Lexer}

theorem read_spells (placed : lexer.Placed) (sound : lexer.fault? = none) :
    lexer.read.1.kind.Spells (lexer.read.1.text lexer.source) := by
  by_cases isString : lexer.read.1.kind ∈ stringKinds
  · have more : lexer.read.1.kind ≠ .eof := fun atEnd => by simp [stringKinds, atEnd] at isString
    obtain ⟨first, body, ending, delimits, bytes, tail, kind, fault⟩ :=
      Lexeme.read_segment (read_lexeme placed more) isString
    have closed : ending ≠ .endOfInput := by
      rintro rfl
      rw [sound] at fault
      cases fault
    have segment := tail.segment delimits closed
    rw [← bytes] at segment
    rw [kind]
    split <;> exact segment
  · obtain ⟨gap, text, cuts⟩ := read_cuts placed
    rw [Token.text, (cuts.bytes placed).2.1]
    exact cuts.written.spells isString

/-- Every token is spelled as its kind asks for, if there are no lexical errors. -/
theorem readAll_spells (placed : lexer.Placed) (clean : lexer.readAll.2.errors = []) :
    ∀ token ∈ lexer.readAll.1, token.kind.Spells (token.text lexer.source) := by
  intro token listed
  obtain ⟨reads, rfl, recorded⟩ := lexer.readAll_reads token listed
  rw [clean, List.prefix_nil, errors_read, List.append_eq_nil_iff] at recorded
  rw [← lexer.source_after reads]
  exact read_spells (placed.after reads) (by simpa using recorded.2)

end Lexer
end WrenFront
