import WrenFront.Proofs.DiagnosticLabels
import WrenFront.Proofs.StringSegments

/-! Tokens of a source that is UTF-8. Its bytes are read one by one, and a backslash takes the byte
after it whatever that is, but every token and every lexical error still covers whole characters:
none of them begins or ends inside one. So nothing that is read of it has to be replaced, and an
unexpected character is reported as what it is. -/

namespace WrenFront

open Text.Utf8

namespace Text.Utf8

theorem encode_singleton (char : Char) :
    encode (String.singleton char) = String.utf8EncodeChar char := by
  rw [encode_eq, String.toList_singleton, List.flatMap_singleton]

theorem isContinuation_first :
    ∀ byte : UInt8, byte.IsUTF8FirstByte → ByteClass.isContinuation byte = false :=
  forall_byte (by decide +kernel)

/-- The bytes of a character begin with one that goes on with no other character. -/
theorem encoded_first (char : Char) : ∃ first more,
    String.utf8EncodeChar char = first :: more ∧ ByteClass.isContinuation first = false := by
  obtain ⟨first, more, same⟩ :=
    List.exists_cons_of_ne_nil (String.utf8EncodeChar_ne_nil (c := char))
  have begins := UInt8.isUTF8FirstByte_getElem_zero_utf8EncodeChar (c := char)
  simp only [same, List.getElem_cons_zero] at begins
  exact ⟨first, more, same, isContinuation_first first begins⟩

/-- A text is one character if all its bytes but the first go on with a character. -/
theorem encode_one {string : String} {lead : UInt8} {more : List UInt8}
    (encoded : encode string = lead :: more) (all : ∀ byte ∈ more, ByteClass.isContinuation byte) :
    ∃ char, string = String.singleton char := by
  have bytes := encoded
  rw [encode_eq] at bytes
  cases chars : string.toList with
  | nil =>
    rw [chars] at bytes
    cases bytes
  | cons char rest =>
    refine ⟨char, ?_⟩
    obtain ⟨first, others, same, -⟩ := encoded_first char
    rw [chars, List.flatMap_cons, same] at bytes
    obtain ⟨-, tail⟩ := List.cons.inj bytes
    cases rest with
    | nil => rw [← String.ofList_toList (s := string), chars, String.singleton_eq_ofList]
    | cons second rest =>
      -- The first byte of another character would be among the bytes that go on with this one.
      obtain ⟨next, _, sameToo, fresh⟩ := encoded_first second
      have member : next ∈ more := by
        rw [← tail, List.flatMap_cons, sameToo]
        simp
      rw [all next member] at fresh
      cases fresh

end Text.Utf8

/-- An unexpected character is what its bytes are decoded to, if that is one character. -/
theorem Lexeme.read_stray {openings next : List Nat} {text rest : List UInt8} {kind : TokenKind}
    {char : Char} (found : read openings (text ++ rest) =
      some ⟨kind, rest, next, some (.unexpectedCharacter char)⟩) :
    ∃ lead more, text = lead :: more ∧ (∀ byte ∈ more, ByteClass.isContinuation byte) ∧
      ∀ only, decode text = [only] → char = only := by
  obtain ⟨lead, tail, bytes, same⟩ := read_unexpected found rfl
  let more := (tail.take (ByteClass.width lead - 1)).takeWhile ByteClass.isContinuation
  have left : rest = tail.drop more.length := congrArg Lexeme.rest same
  have isPrefix : more <+: tail :=
    (List.takeWhile_prefix ByteClass.isContinuation).trans (List.take_prefix _ tail)
  have split : text = lead :: more := by
    rw [left] at bytes
    have whole : text ++ tail.drop more.length = lead :: more ++ tail.drop more.length := by
      rw [bytes, List.cons_append, List.prefix_iff_eq_append.1 isPrefix]
    exact List.append_cancel_right whole
  refine ⟨lead, more, split, (run_dropWhile ByteClass.isContinuation _).all,
    fun only decoded => ?_⟩
  have fault := congrArg Lexeme.fault same
  simp only [unexpected, Option.some.injEq, LexicalFault.unexpectedCharacter.injEq] at fault
  rw [split] at decoded
  rw [fault, decoded]

namespace Source

section Encoded
variable {source : Source} {string : String} (encoded : source.bytes = encode string)
include encoded

/-- A span that neither begins nor ends inside a character covers the encoding of its text. -/
theorem spanText_encoded {span : Span} (start : source.Between span.start)
    (stop : source.Between span.stop) (inside : span.stop ≤ source.length) :
    span.Marks string (source.spanText span) ∧
      encode (source.spanText span) = source.slice span.start span.length := by
  have whole : source.text = string := by rw [text, encoded, text_encode]
  have shown := (shown_iff start inside).2 (size_encoded encoded stop inside)
  have marks := shown_marks start stop
  rw [shown, whole] at marks
  refine ⟨marks, ?_⟩
  obtain ⟨before, after, rfl, beforeSize, size⟩ := marks
  rw [slice, encoded, encode_append, encode_append, List.append_assoc, ← beforeSize, ← size,
    ← length_encode, ← length_encode, List.drop_left, List.take_left]

theorem Erroneous.covers {span : Span} (erroneous : source.Erroneous span) :
    span.Marks string (source.spanText span) ∧
      encode (source.spanText span) = source.slice span.start span.length :=
  spanText_encoded encoded erroneous.between.1 erroneous.between.2 erroneous.inside

theorem unexpected_encoded {reads : Nat} {char : Char}
    (faulty : (source.lexerAfter reads).fault? = some (.unexpectedCharacter char)) :
    (source.token reads).bytes source = String.utf8EncodeChar char := by
  have more : (source.lexerAfter reads).read.1.kind ≠ .eof := by
    intro atEnd
    rw [Lexer.fault?_end atEnd] at faulty
    cases faulty
  have found := Lexer.read_lexeme (source.lexerAfter_placed reads) more
  rw [faulty, source_lexerAfter] at found
  obtain ⟨lead, others, bytes, all, decoded⟩ := Lexeme.read_stray found
  have covered := (Erroneous.covers encoded (.token reads)).2
  change encode _ = (source.token reads).bytes source at covered
  obtain ⟨only, single⟩ := encode_one (covered.trans bytes) all
  rw [single] at covered
  have same : char = only := by
    apply decoded
    change decode ((source.token reads).bytes source) = [only]
    rw [← covered, encode_eq, decode_encoded, String.toList_singleton]
  rw [← covered, encode_singleton, same]

end Encoded

/-- Every token that is read of an encoded text, and every lexical error, covers whole characters of
the text. The bytes of a token are the encoding of its text, which has no replacement character that
is not in the text, and the bytes of an unexpected character are its encoding. -/
theorem spans_cover_characters (source : Source) {string : String}
    (encoded : source.bytes = encode string) (reads : Nat) :
    ((source.token reads).span.Marks string ((source.token reads).text source) ∧
      encode ((source.token reads).text source) = (source.token reads).bytes source ∧
      (replacement ∈ ((source.token reads).text source).toList → replacement ∈ string.toList)) ∧
    ∀ error ∈ (source.lexerAfter reads).errors,
      error.span.Marks string (source.spanText error.span) ∧
      ∀ char, error.fault = .unexpectedCharacter char →
        source.slice error.span.start error.span.length = String.utf8EncodeChar char := by
  constructor
  · obtain ⟨marks, covered⟩ := Erroneous.covers encoded (.token reads)
    refine ⟨marks, covered, fun member => ?_⟩
    obtain ⟨before, after, rfl, -⟩ := marks
    rw [String.toList_append, String.toList_append]
    exact List.mem_append_left _ (List.mem_append_right _ member)
  · intro error member
    have finds := source.errors_found reads error member
    refine ⟨(finds.erroneous.covers encoded).1, fun char fault => ?_⟩
    cases finds with
    | comment _ => cases fault
    | token faulty =>
      cases fault
      exact unexpected_encoded encoded faulty

/-- A backslash in front of a character of two bytes, and then that character outside of the
string. -/
def escapedAccent : Source where
  id := "main"
  bytes := encode "\"\\é\"é"

theorem escapedAccent_covered : escapedAccent.bytes = encode "\"\\é\"é" ∧
    Span.Marks ⟨0, 5⟩ "\"\\é\"é" "\"\\é\"" ∧ Span.Marks ⟨5, 2⟩ "\"\\é\"é" "é" ∧
    escapedAccent.slice 5 2 = String.utf8EncodeChar 'é' := by
  have first : escapedAccent.token 0 = ⟨.string, 0, 5⟩ := by decide +kernel
  have text : (escapedAccent.token 0).text escapedAccent = "\"\\é\"" := by decide +kernel
  have found : ⟨.unexpectedCharacter 'é', ⟨5, 2⟩⟩ ∈ (escapedAccent.lexerAfter 2).errors := by
    decide +kernel
  have stray : escapedAccent.spanText ⟨5, 2⟩ = "é" := by decide +kernel
  obtain ⟨⟨literal, -⟩, -⟩ := spans_cover_characters escapedAccent rfl 0
  obtain ⟨-, errors⟩ := spans_cover_characters escapedAccent rfl 2
  obtain ⟨marks, bytes⟩ := errors _ found
  rw [text, first] at literal
  rw [stray] at marks
  exact ⟨rfl, literal, marks, bytes 'é' rfl⟩

end Source
end WrenFront
