import WrenFront.Proofs.LexerTiling

/-! How each kind of token is written. The rules of the lexer are tried one after another on the first
byte; here a form is described by its own text and the byte after it, so that a token can be neither
longer nor of another kind. -/

namespace WrenFront

/-- The bytes of a kind that has one spelling. A newline is a line feed. -/
def TokenKind.bytes? : TokenKind → Option (List UInt8)
  | .line => some [10]
  | kind => kind.spelling?.map Text.Utf8.encode

namespace Lexeme

/-- A run of bytes of one class that cannot be made longer by what comes after it. -/
structure Run (isClass : UInt8 → Bool) (run after : List UInt8) : Prop where
  all : ∀ byte ∈ run, isClass byte
  longest : ∀ byte ∈ after.head?, isClass byte = false

/-- A punctuator, a keyword or a newline. -/
structure Fixed (kind : TokenKind) (text after : List UInt8) : Prop where
  spelled : kind.bytes? = some text
  /-- No longer punctuator stands there. -/
  longest : ∀ other ∈ TokenKind.punctuators, ∀ spelling ∈ other.bytes?,
    spelling <+: text ++ after → spelling.length ≤ text.length
  /-- A slash does not begin a comment. -/
  uncommented : kind = .slash → after.head? ≠ some 47 ∧ after.head? ≠ some 42
  /-- A keyword is a whole word. -/
  whole : kind ∈ TokenKind.keywords → Run ByteClass.isWord text after

structure Name (text after : List UInt8) : Prop where
  letter : ∃ first rest, text = first :: rest ∧ ByteClass.isLetter first
  word : Run ByteClass.isWord text after
  notKeyword : ∀ kind ∈ TokenKind.keywords, kind.bytes? ≠ some text

def Field (text after : List UInt8) : Prop :=
  ∃ word, text = 95 :: word ∧ word.head? ≠ some 95 ∧ Run ByteClass.isWord word after

def StaticField (text after : List UInt8) : Prop :=
  ∃ word, text = 95 :: 95 :: word ∧ Run ByteClass.isWord word after

/-- Hexadecimal digits after `0x`, or else decimal digits. -/
def Number (text after : List UInt8) : Prop :=
  (∃ digits, text = 48 :: 120 :: digits ∧ Run ByteClass.isHexDigit digits after) ∨
    (text ≠ [] ∧ Run ByteClass.isDigit text after ∧ ¬ (text = [48] ∧ after.head? = some 120))

/-- A string segment begins with a quote, or with the parenthesis that closes an interpolation. -/
def Segment (text : List UInt8) : Prop :=
  text.head? = some 34 ∨ text.head? = some 41

/-- Some token other than an error begins with the byte. -/
def begins (byte : UInt8) : Bool :=
  byte == 10 || byte == 95 || byte == 34 || ByteClass.isDigit byte || ByteClass.isLetter byte ||
    TokenKind.punctuators.any fun kind => kind.bytes?.any (·.head? == some byte)

/-- A character that begins no token, as far as its bytes go on as its first one asks for. -/
def Unexpected (text after : List UInt8) : Prop :=
  ∃ lead more, text = lead :: more ∧ begins lead = false ∧
    (∀ byte ∈ more, ByteClass.isContinuation byte) ∧ more.length ≤ ByteClass.width lead - 1 ∧
      (more.length = ByteClass.width lead - 1 ∨
        ∀ byte ∈ after.head?, ByteClass.isContinuation byte = false)

/-- How a token of each kind is written, if `after` follows it. -/
def Written (kind : TokenKind) (text after : List UInt8) : Prop :=
  match kind with
  | .name => Name text after
  | .field => Field text after
  | .staticField => StaticField text after
  | .number => Number text after
  | .string => Segment text
  | .interpolation => Segment text ∧ [37, 40] <:+ text
  | .error => Unexpected text after
  | .eof => text = [] ∧ after = []
  | _ => Fixed kind text after

theorem Fixed.written {kind : TokenKind} {text after : List UInt8} (fixed : Fixed kind text after) :
    Written kind text after := by
  have spelled := fixed.spelled
  cases kind
  case name | field | staticField | number | string | interpolation | error | eof => cases spelled
  all_goals exact fixed

theorem run_dropWhile (isClass : UInt8 → Bool) (bytes : List UInt8) :
    Run isClass (bytes.takeWhile isClass) (bytes.dropWhile isClass) := by
  constructor
  · exact List.all_eq_true.1 List.all_takeWhile
  · intro byte first
    have stops := List.head?_dropWhile_not isClass bytes
    rw [Option.mem_def.1 first] at stops
    exact stops

theorem mem_spellings : ∀ kind ∈ TokenKind.punctuators, ∀ spelling ∈ kind.bytes?,
    (kind, spelling) ∈ spellings := by
  decide

theorem spellings_spelled : ∀ entry ∈ spellings, entry.1.bytes? = some entry.2 := by
  decide

/-- Of two spellings that fit, the longer one comes first. -/
theorem spellings_ordered :
    spellings.Pairwise fun earlier later => ¬ earlier.2 <+: later.2 := by
  decide +kernel

/-- What a punctuator begins with begins no other token. -/
theorem spellings_begin : ∀ entry ∈ spellings, ∀ byte ∈ entry.2.head?,
    ByteClass.isLetter byte = false ∧ byte ≠ 10 := by
  decide +kernel

theorem punctuator?_written {bytes rest : List UInt8} {kind : TokenKind}
    (found : punctuator? bytes = some (kind, rest)) (settled : Trivia.Settled bytes) :
    ∃ text, bytes = text ++ rest ∧ Written kind text rest := by
  obtain ⟨earlier, ⟨other, text⟩, later, split, fits, unfit⟩ := List.findSome?_eq_some_iff.1 found
  simp only [Option.ite_none_right_eq_some, Option.some.injEq, Prod.mk.injEq] at fits
  obtain ⟨isPrefix, rfl, left⟩ := fits
  have begins : text <+: bytes := List.isPrefixOf_iff_prefix.1 isPrefix
  have same : text ++ rest = bytes := by
    rw [← left]
    exact List.prefix_iff_eq_append.1 begins
  have member : (other, text) ∈ spellings := by simp [split]
  have spelled := spellings_spelled _ member
  refine ⟨text, same.symm, Fixed.written ⟨spelled, ?_, ?_, ?_⟩⟩
  · intro longer listed spelling isSpelling fitsToo
    rw [same] at fitsToo
    have ordered := spellings_ordered
    have memberToo := mem_spellings longer listed spelling isSpelling
    rw [split] at ordered memberToo
    rcases List.mem_append.1 memberToo with before | after
    · have refused := unfit _ before
      simp [List.isPrefixOf_iff_prefix.2 fitsToo] at refused
    · rcases List.mem_cons.1 after with itself | after
      · cases itself
        exact Nat.le_refl _
      · have apart := List.rel_of_pairwise_cons (List.pairwise_append.1 ordered).2.1 after
        by_cases bound : spelling.length ≤ text.length
        · exact bound
        · exact absurd (List.prefix_of_prefix_length_le begins fitsToo (by omega)) apart
  · rintro rfl
    cases spelled
    exact (settled 47 rest same.symm).2 rfl
  · intro keyword
    have apart : ∀ kind ∈ TokenKind.punctuators, kind ∉ TokenKind.keywords := by decide
    exact absurd keyword (apart other (punctuator?_kind found))

/-- A text that begins as no punctuator does stands before no longer one. -/
theorem unpunctuated {first : UInt8} {text after : List UInt8}
    (other : ∀ entry ∈ spellings, entry.2.head? ≠ some first) {kind : TokenKind}
    (listed : kind ∈ TokenKind.punctuators) {spelling : List UInt8}
    (spelled : spelling ∈ kind.bytes?) : ¬ spelling <+: first :: text ++ after := by
  intro fits
  have member := mem_spellings kind listed spelling spelled
  cases spelling with
  | nil => exact absurd (length_spelling_pos _ member) (Nat.lt_irrefl 0)
  | cons byte spelling =>
    obtain ⟨rest, same⟩ := fits
    obtain ⟨rfl, -⟩ := List.cons.inj same
    exact other _ member rfl

theorem line_written (rest : List UInt8) : Written .line [10] rest := by
  have other : ∀ entry ∈ spellings, entry.2.head? ≠ some 10 := by decide
  refine Fixed.written ⟨rfl, fun kind listed spelling spelled fits => ?_, nofun, ?_⟩
  · exact absurd fits (unpunctuated other listed spelled)
  · intro keyword
    exact absurd keyword (by decide)

theorem stringTail_interpolation {bytes rest : List UInt8}
    (opens : stringTail bytes = (.interpolation, rest)) :
    ∃ segment, bytes = segment ++ 37 :: 40 :: rest := by
  fun_induction stringTail bytes with
  | case1 => cases opens
  | case2 => cases opens
  | case3 byte bytes ih =>
    obtain ⟨segment, rfl⟩ := ih opens
    exact ⟨92 :: byte :: segment, rfl⟩
  | case4 bytes =>
    cases opens
    exact ⟨[], rfl⟩
  | case5 byte bytes => cases opens
  | case6 byte bytes _ _ _ _ ih =>
    obtain ⟨segment, rfl⟩ := ih opens
    exact ⟨byte :: segment, rfl⟩

theorem stringSegment_written (openings : List Nat) {first : UInt8}
    (delimits : first = 34 ∨ first = 41) (rest : List UInt8) : ∃ text,
      first :: rest = text ++ (stringSegment openings rest).rest ∧
        Written (stringSegment openings rest).kind text (stringSegment openings rest).rest := by
  obtain ⟨body, same⟩ := stringSegment_suffix openings rest
  have segment : Segment (first :: body) := by
    rcases delimits with rfl | rfl
    · exact .inl rfl
    · exact .inr rfl
  refine ⟨first :: body, by rw [List.cons_append, same], ?_⟩
  revert same
  unfold stringSegment
  split
  · exact fun _ => segment
  · next after opens =>
    intro same
    obtain ⟨before, rfl⟩ := stringTail_interpolation opens
    have inside : body = before ++ [37, 40] := by
      apply List.append_cancel_right (same.trans _)
      simp
    refine ⟨segment, first :: before, ?_⟩
    rw [inside, List.cons_append]
  · exact fun _ => segment

theorem char_byte {byte : UInt8} (ascii : byte < 128) :
    (Char.ofNat byte.toNat).toNat.toUInt8 = byte := by
  have bound : byte.toNat < 128 := ascii
  have valid : byte.toNat.isValidChar := .inl (by omega)
  rw [Char.ofNat, dif_pos valid]
  exact UInt8.ofNat_toNat

theorem isWord_ascii {byte : UInt8} (word : ByteClass.isWord byte) : byte < 128 := by
  simp only [ByteClass.isWord, ByteClass.isLetter, ByteClass.isDigit, Bool.or_eq_true,
    Bool.and_eq_true, decide_eq_true_eq, beq_iff_eq, UInt8.le_iff_toNat_le] at word
  rw [UInt8.lt_iff_toNat_lt]
  change byte.toNat < 128
  rcases word with ((upper | lower) | digit) | rfl
  · exact Nat.lt_of_le_of_lt upper.2 (by decide)
  · exact Nat.lt_of_le_of_lt lower.2 (by decide)
  · exact Nat.lt_of_le_of_lt digit.2 (by decide)
  · decide

/-- A word is decoded byte by byte. -/
theorem decode_word {bytes : List UInt8} (word : ∀ byte ∈ bytes, ByteClass.isWord byte) :
    Text.Utf8.decode bytes = bytes.map fun byte => Char.ofNat byte.toNat := by
  induction bytes with
  | nil => rfl
  | cons byte bytes ih =>
    have ascii := isWord_ascii (word byte List.mem_cons_self)
    have begin : Text.Utf8.begin byte = .complete (Char.ofNat byte.toNat) := if_pos ascii
    have rest := ih fun byte member => word byte (List.mem_cons_of_mem _ member)
    rw [Text.Utf8.decode] at rest ⊢
    simp only [Text.Utf8.decodeFrom, begin, rest, List.map_cons]

theorem keyword_bytes : ∀ kind ∈ TokenKind.keywords,
    kind.bytes? = kind.spelling?.map Text.Utf8.encode := by
  decide

theorem keyword_encoded : ∀ kind ∈ TokenKind.keywords, ∀ spelling ∈ kind.spelling?,
    Text.Utf8.encode spelling = spelling.toList.map fun char => char.toNat.toUInt8 := by
  decide +kernel

theorem keyword_decoded : ∀ kind ∈ TokenKind.keywords, ∀ bytes ∈ kind.bytes?,
    kind.spelling? = some (Text.Utf8.text bytes) := by
  decide +kernel

/-- A word is a keyword if it has the keyword's bytes, and only then. -/
theorem keyword?_word {bytes : List UInt8} (word : ∀ byte ∈ bytes, ByteClass.isWord byte) :
    (∃ kind, TokenKind.keyword? (Text.Utf8.text bytes) = some kind ∧ kind ∈ TokenKind.keywords ∧
        kind.bytes? = some bytes) ∨
      TokenKind.keyword? (Text.Utf8.text bytes) = none ∧
        ∀ kind ∈ TokenKind.keywords, kind.bytes? ≠ some bytes := by
  cases found : TokenKind.keyword? (Text.Utf8.text bytes) with
  | some kind =>
    have listed := List.mem_of_find?_eq_some found
    have spelled : kind.spelling? = some (Text.Utf8.text bytes) := by
      simpa using List.find?_some found
    have encoded : Text.Utf8.encode (Text.Utf8.text bytes) = bytes := by
      rw [keyword_encoded kind listed _ spelled, Text.Utf8.text, String.toList_ofList,
        decode_word word, List.map_map]
      conv => rhs; rw [← List.map_id bytes]
      exact List.map_congr_left fun byte member => char_byte (isWord_ascii (word byte member))
    have bytes : kind.bytes? = kind.spelling?.map Text.Utf8.encode := keyword_bytes kind listed
    exact .inl ⟨kind, rfl, listed, by rw [bytes, spelled, Option.map_some, encoded]⟩
  | none =>
    refine .inr ⟨rfl, fun kind listed spelled => ?_⟩
    have refused := List.find?_eq_none.1 found kind listed
    exact refused (by simpa using keyword_decoded kind listed bytes spelled)

theorem name_written (openings : List Nat) {first : UInt8} (rest : List UInt8)
    (letter : ByteClass.isLetter first) : ∃ text,
      first :: rest = text ++ (name openings (first :: rest)).rest ∧
        Written (name openings (first :: rest)).kind text (name openings (first :: rest)).rest := by
  have isWord : ByteClass.isWord first := by simp [ByteClass.isWord, letter]
  have word := run_dropWhile ByteClass.isWord (first :: rest)
  have begins : (first :: rest).takeWhile ByteClass.isWord =
      first :: rest.takeWhile ByteClass.isWord := List.takeWhile_cons_of_pos isWord
  refine ⟨(first :: rest).takeWhile ByteClass.isWord, List.takeWhile_append_dropWhile.symm, ?_⟩
  simp only [name]
  rcases keyword?_word word.all with ⟨kind, found, listed, spelled⟩ | ⟨found, notKeyword⟩
  · rw [found, Option.getD_some]
    have other : ∀ entry ∈ spellings, entry.2.head? ≠ some first := by
      intro entry member same
      rw [(spellings_begin entry member first same).1] at letter
      cases letter
    refine Fixed.written ⟨spelled, fun kind listed spelling spelled fits => ?_, ?_, fun _ => word⟩
    · rw [begins] at fits
      exact absurd fits (unpunctuated other listed spelled)
    · rintro rfl
      exact absurd listed (by decide)
  · rw [found, Option.getD_none]
    exact ⟨⟨first, _, begins, letter⟩, word, notKeyword⟩

theorem unexpected_written (openings : List Nat) {lead : UInt8} (rest : List UInt8)
    (other : begins lead = false) : ∃ text,
      lead :: rest = text ++ (unexpected openings lead rest).rest ∧
        Written .error text (unexpected openings lead rest).rest := by
  let width := ByteClass.width lead - 1
  let more := (rest.take width).takeWhile ByteClass.isContinuation
  have split : rest = more ++ rest.drop more.length := by
    have isPrefix : more <+: rest :=
      (List.takeWhile_prefix ByteClass.isContinuation).trans (List.take_prefix width rest)
    exact (List.prefix_iff_eq_append.1 isPrefix).symm
  have run := run_dropWhile ByteClass.isContinuation (rest.take width)
  have bound : more.length ≤ width :=
    Nat.le_trans (List.takeWhile_prefix _).length_le (List.length_take_le width rest)
  refine ⟨lead :: more, congrArg _ split, ⟨lead, more, rfl, other, run.all, bound, ?_⟩⟩
  change more.length = width ∨ ∀ byte ∈ (rest.drop more.length).head?, _
  by_cases full : more.length = width
  · exact .inl full
  · -- The run was not cut off by the width, so the byte after it ended it.
    have after : (rest.take width).dropWhile ByteClass.isContinuation =
        (rest.drop more.length).take (width - more.length) := by
      have whole : more ++ (rest.take width).dropWhile ByteClass.isContinuation =
          rest.take width := List.takeWhile_append_dropWhile
      have dropped := congrArg (List.drop more.length) whole
      rw [List.drop_left, List.drop_take] at dropped
      exact dropped
    have room : width - more.length ≠ 0 := by omega
    refine .inr fun byte first => run.longest byte ?_
    rw [after, List.head?_take, if_neg room]
    exact first

theorem digits_written {first : UInt8} {rest : List UInt8} (digit : ByteClass.isDigit first)
    (decimal : first = 48 → rest.head? ≠ some 120) : ∃ text,
      first :: rest = text ++ rest.dropWhile ByteClass.isDigit ∧
        Written .number text (rest.dropWhile ByteClass.isDigit) := by
  have run := run_dropWhile ByteClass.isDigit rest
  refine ⟨first :: rest.takeWhile ByteClass.isDigit, by simp, .inr ⟨nofun, ⟨?_, run.longest⟩, ?_⟩⟩
  · intro byte member
    rcases List.mem_cons.1 member with rfl | member
    · exact digit
    · exact run.all byte member
  · rintro ⟨single, marked⟩
    obtain ⟨zero, none⟩ := List.cons.inj single
    apply decimal zero
    rw [← List.takeWhile_append_dropWhile (p := ByteClass.isDigit) (l := rest), none]
    exact marked

theorem punctuator?_none {first : UInt8} {rest : List UInt8}
    (unfound : punctuator? (first :: rest) = none) :
    TokenKind.punctuators.any (fun kind => kind.bytes?.any (·.head? == some first)) = false := by
  have alone : ∀ kind ∈ TokenKind.punctuators, ∀ spelling ∈ kind.bytes?,
      ∀ byte ∈ spelling.head?, ∃ entry ∈ spellings, entry.2 = [byte] := by
    decide +kernel
  apply Bool.eq_false_iff.2
  intro begins
  obtain ⟨kind, listed, begins⟩ := List.any_eq_true.1 begins
  obtain ⟨spelling, spelled, same⟩ := (Option.any_eq_true _ _).1 begins
  obtain ⟨entry, member, single⟩ := alone kind listed spelling spelled first (by simpa using same)
  have refused := List.findSome?_eq_none_iff.1 unfound entry member
  simp [single] at refused

theorem plain_written (openings : List Nat) {first : UInt8} {rest : List UInt8}
    (settled : Trivia.Settled (first :: rest)) : ∃ text,
      first :: rest = text ++ (plain openings first rest).rest ∧
        Written (plain openings first rest).kind text (plain openings first rest).rest := by
  unfold plain
  split
  · next feed =>
    subst feed
    exact ⟨[10], rfl, line_written rest⟩
  next notFeed =>
  split
  · next kind after found => exact punctuator?_written found settled
  next unfound =>
  split
  · next underscore =>
    subst underscore
    split
    · next rest =>
      refine ⟨95 :: 95 :: rest.takeWhile ByteClass.isWord, ?_, ?_⟩
      · simp
      · exact ⟨_, rfl, run_dropWhile ByteClass.isWord rest⟩
    · next single =>
      refine ⟨95 :: rest.takeWhile ByteClass.isWord, by simp, ?_⟩
      refine ⟨_, rfl, fun second => ?_, run_dropWhile ByteClass.isWord rest⟩
      rw [List.head?_takeWhile, Option.filter_eq_some_iff] at second
      obtain ⟨after, rfl⟩ := List.head?_eq_some_iff.1 second.1
      exact single after rfl
  next notUnderscore =>
  split
  · next quote =>
    exact stringSegment_written openings (.inl quote) rest
  next notQuote =>
  split
  · next digit =>
    split
    · next rest =>
      refine ⟨48 :: 120 :: rest.takeWhile ByteClass.isHexDigit, by simp, .inl ?_⟩
      exact ⟨_, rfl, run_dropWhile ByteClass.isHexDigit rest⟩
    · next decimal =>
      refine digits_written digit ?_
      rintro rfl second
      obtain ⟨after, rfl⟩ := List.head?_eq_some_iff.1 second
      exact decimal after rfl rfl
  next notDigit =>
  split
  · next letter => exact name_written openings rest letter
  next notLetter =>
  apply unexpected_written openings rest
  simp [begins, notFeed, notUnderscore, notQuote, notDigit, notLetter, punctuator?_none unfound]

/-- Inside an interpolation too, a parenthesis that is no part of a string is a punctuator. -/
theorem paren_written {first : UInt8} {kind : TokenKind} {rest : List UInt8}
    (found : punctuator? (first :: rest) = some (kind, rest))
    (settled : Trivia.Settled (first :: rest)) : Written kind [first] rest := by
  obtain ⟨text, same, written⟩ := punctuator?_written found settled
  have single : text = [first] := List.append_cancel_right same.symm
  exact single ▸ written

/-- A lexeme is written as its kind asks for. -/
theorem read_written {openings : List Nat} {bytes : List UInt8} {lexeme : Lexeme}
    (settled : Trivia.Settled bytes) (found : read openings bytes = some lexeme) :
    ∃ text, bytes = text ++ lexeme.rest ∧ Written lexeme.kind text lexeme.rest := by
  cases bytes with
  | nil => cases found
  | cons first rest =>
    simp only [read] at found
    split at found
    · cases found
      exact ⟨[40], rfl, paren_written rfl settled⟩
    · split at found
      · cases found
        exact stringSegment_written _ (.inr rfl) rest
      · cases found
        exact ⟨[41], rfl, paren_written rfl settled⟩
    · cases found
      exact plain_written openings settled

end Lexeme

theorem Lexer.Cuts.written {lexer : Lexer} {gap text : List UInt8} (cuts : lexer.Cuts gap text) :
    Lexeme.Written lexer.read.1.kind text lexer.read.2.rest := by
  rcases cuts.token with ⟨empty, atEnd, -⟩ | ⟨fault, found⟩
  · rw [atEnd]
    exact List.append_eq_nil_iff.1 empty
  · obtain ⟨other, same, written⟩ := Lexeme.read_written cuts.settled found
    rw [List.append_cancel_right same]
    exact written

/-- Every token of a source lies within it, and is written there as its kind asks for. -/
theorem Source.token_written (source : Source) (reads : Nat) :
    (source.token reads).stop ≤ source.length ∧
      Lexeme.Written (source.token reads).kind ((source.token reads).bytes source)
        (source.bytes.drop (source.token reads).stop) := by
  obtain ⟨cuts, after⟩ := source.token_cuts reads
  constructor
  · change source.gapStart (reads + 1) ≤ source.length
    rw [← offset_lexerAfter]
    have placed := (source.lexerAfter_placed (reads + 1)).offset_add
    rw [source_lexerAfter] at placed
    omega
  · rw [after, lexerAfter_succ]
    exact cuts.written

end WrenFront
