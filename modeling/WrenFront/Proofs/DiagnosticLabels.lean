import WrenFront.Diagnostic
import WrenFront.Proofs.EncodedText
import WrenFront.Proofs.TokenBoundaries

/-! What the label of a diagnostic marks. A label counts the bytes of the source, but it is shown in
the text that the source was decoded to, and there a replacement character can be longer than the
bytes it stands for. So the text that a diagnostic is about may stand later than its label says; it
stands where the label says as long as decoding has kept the number of bytes. -/

namespace WrenFront

open Text.Utf8

/-- The span covers `marked` in the text: it lies within the text, it begins and ends between two
characters, and `marked` is what stands there. -/
def Span.Marks (span : Span) (text marked : String) : Prop :=
  ∃ before after, text = before ++ marked ++ after ∧
    before.utf8ByteSize = span.start ∧ marked.utf8ByteSize = span.length

namespace Text.Utf8

theorem length_encode (string : String) : (encode string).length = string.utf8ByteSize := rfl

/-- Texts of the same length that begin the same text are equal. -/
theorem append_inj_size {first second more others : String}
    (same : first ++ more = second ++ others)
    (size : first.utf8ByteSize = second.utf8ByteSize) : first = second ∧ more = others := by
  have bytes := congrArg encode same
  rw [encode_append, encode_append] at bytes
  obtain ⟨left, right⟩ := List.append_inj bytes size
  exact ⟨encode_inj left, encode_inj right⟩

end Text.Utf8

theorem Span.Marks.unique {span : Span} {text first second : String}
    (one : span.Marks text first) (other : span.Marks text second) : first = second := by
  obtain ⟨before, after, rfl, start, length⟩ := one
  obtain ⟨beforeToo, afterToo, same, startToo, lengthToo⟩ := other
  rw [String.append_assoc, String.append_assoc] at same
  have rest := (append_inj_size same (start.trans startToo.symm)).2
  exact (append_inj_size rest (length.trans lengthToo.symm)).1

namespace Source

/-- The text of a span. -/
def spanText (source : Source) (span : Span) : String :=
  Text.Utf8.text (source.slice span.start span.length)

/-- Where the text of a span stands in the text of the source. -/
def shown (source : Source) (span : Span) : Span where
  start := (Text.Utf8.text (source.bytes.take span.start)).utf8ByteSize
  length := (source.spanText span).utf8ByteSize

section Shown
variable {source : Source} {span : Span}

theorem text_upTo (start : source.Between span.start) :
    Text.Utf8.text (source.bytes.take span.stop) =
      Text.Utf8.text (source.bytes.take span.start) ++ source.spanText span := by
  have apart : Apart (source.bytes.take span.start) (source.slice span.start span.length) := by
    rw [Between, source.bytes_slice span.start span.length] at start
    -- An empty span has no first byte, and the first byte of another is what follows the cut.
    refine start.imp_right fun fresh byte first => fresh byte ?_
    rw [List.head?_append, first]
    rfl
  rw [Span.stop, List.take_add]
  exact apart.text

theorem text_parts (start : source.Between span.start) (stop : source.Between span.stop) :
    source.text = Text.Utf8.text (source.bytes.take span.start) ++ source.spanText span ++
      Text.Utf8.text (source.bytes.drop span.stop) := by
  rw [← text_upTo start, ← stop.text, List.take_append_drop]
  rfl

theorem shown_marks (start : source.Between span.start) (stop : source.Between span.stop) :
    (source.shown span).Marks source.text (source.spanText span) :=
  ⟨_, _, text_parts start stop, rfl, rfl⟩

/-- The text of a span stands no earlier than the span says, and is no shorter. -/
theorem le_shown (inside : span.stop ≤ source.length) :
    span.start ≤ (source.shown span).start ∧ span.length ≤ (source.shown span).length := by
  rw [Span.stop, Source.length] at inside
  constructor
  · have bound := length_le_text (source.bytes.take span.start)
    rwa [List.length_take, Nat.min_eq_left (by omega)] at bound
  · have bound := length_le_text (source.slice span.start span.length)
    rwa [slice, List.length_take, List.length_drop, Nat.min_eq_left (by omega)] at bound

/-- The text stands where the span says, if and only if decoding keeps the number of bytes up to the
end of the span. -/
theorem shown_iff (start : source.Between span.start) (inside : span.stop ≤ source.length) :
    source.shown span = span ↔
      (Text.Utf8.text (source.bytes.take span.stop)).utf8ByteSize = span.stop := by
  have size : (Text.Utf8.text (source.bytes.take span.stop)).utf8ByteSize =
      (source.shown span).start + (source.shown span).length := by
    rw [text_upTo start, String.utf8ByteSize_append]
    rfl
  obtain ⟨later, longer⟩ := le_shown inside
  rw [size]
  constructor
  · intro same
    rw [same]
    rfl
  · intro kept
    rw [Span.stop] at kept
    have first : (source.shown span).start = span.start := by omega
    have second : (source.shown span).length = span.length := by omega
    calc source.shown span = ⟨(source.shown span).start, (source.shown span).length⟩ := rfl
      _ = span := by rw [first, second]

/-- Of a text that was encoded, decoding keeps the number of bytes up to any place between its
characters. -/
theorem size_encoded {string : String} (encoded : source.bytes = encode string)
    (stop : source.Between span.stop) (inside : span.stop ≤ source.length) :
    (Text.Utf8.text (source.bytes.take span.stop)).utf8ByteSize = span.stop := by
  have parts := stop.text
  rw [List.take_append_drop, encoded, text_encode] at parts
  have total := congrArg String.utf8ByteSize parts
  have before := length_le_text (source.bytes.take span.stop)
  have after := length_le_text (source.bytes.drop span.stop)
  rw [String.utf8ByteSize_append, ← length_encode, ← encoded] at total
  rw [List.length_take] at before
  rw [List.length_drop] at after
  rw [Source.length] at inside
  omega

end Shown

theorem diagnostic_erroneous (source : Source) (strict : Bool) {diagnostic : Diagnostic}
    (found : diagnostic ∈ source.parse.diagnostics strict) :
    source.Erroneous diagnostic.span ∧ diagnostic.attached = source.text := by
  rcases List.mem_append.1 found with grammar | lexical
  · obtain ⟨problem, member, rfl⟩ := List.mem_map.1 grammar
    obtain ⟨reads, same⟩ := source.problem_token member
    refine ⟨?_, rfl⟩
    change source.Erroneous problem.token.span
    rw [same]
    exact .token reads
  · obtain ⟨error, member, rfl⟩ := List.mem_map.1 lexical
    exact ⟨source.lexicalError_erroneous error member, rfl⟩

/-- The text that a diagnostic is about stands whole in the text that its label is shown in, no
earlier than the label says and no shorter. It stands where the label says if and only if decoding
keeps the number of bytes up to the end of the label; then, and so in every source that is UTF-8,
the label marks that text. -/
theorem labels_mark (source : Source) (strict : Bool) {diagnostic : Diagnostic}
    (found : diagnostic ∈ source.parse.diagnostics strict) {caption : String} {span : Span}
    (labelled : (caption, span) ∈ diagnostic.labels) :
    source.substring span.start span.length = .ok (source.spanText span) ∧
      span.stop ≤ diagnostic.attached.utf8ByteSize ∧
      (source.shown span).Marks diagnostic.attached (source.spanText span) ∧
      (span.start ≤ (source.shown span).start ∧ span.length ≤ (source.shown span).length) ∧
      (source.shown span = span ↔
        (Text.Utf8.text (source.bytes.take span.stop)).utf8ByteSize = span.stop) ∧
      ((Text.Utf8.text (source.bytes.take span.stop)).utf8ByteSize = span.stop →
        span.Marks diagnostic.attached (source.spanText span)) ∧
      ∀ string, source.bytes = encode string →
        span.Marks diagnostic.attached (source.spanText span) := by
  obtain ⟨-, rfl⟩ := Prod.mk.inj (List.mem_singleton.1 labelled)
  obtain ⟨erroneous, attached⟩ := source.diagnostic_erroneous strict found
  obtain ⟨start, stop⟩ := erroneous.between
  have inside := erroneous.inside
  have whole := shown_marks start stop
  have place := shown_iff start inside
  have kept (size : (Text.Utf8.text (source.bytes.take diagnostic.span.stop)).utf8ByteSize =
      diagnostic.span.stop) :
      diagnostic.span.Marks source.text (source.spanText diagnostic.span) := by
    rwa [place.2 size] at whole
  rw [attached]
  refine ⟨if_pos inside, Nat.le_trans inside (length_le_text source.bytes), whole, le_shown inside,
    place, kept, fun string encoded => kept (size_encoded encoded stop inside)⟩

/-- A parenthesis after a comment: `/*é*/)`. -/
def accentedComment : Source where
  id := "main"
  bytes := encode "/*é*/)"

theorem accentedComment_marks : ∃ diagnostic ∈ accentedComment.parse.diagnostics false,
    ("error here", ⟨6, 1⟩) ∈ diagnostic.labels ∧
      Span.Marks ⟨6, 1⟩ diagnostic.attached ")" := by
  have found : Diagnostic.locate accentedComment .error .grammar "Expect expression." ⟨6, 1⟩ ∈
      accentedComment.parse.diagnostics false := by
    decide +kernel
  have labelled : ("error here", ⟨6, 1⟩) ∈ (Diagnostic.locate accentedComment .error .grammar
      "Expect expression." ⟨6, 1⟩).labels := by
    decide +kernel
  have text : accentedComment.spanText ⟨6, 1⟩ = ")" := by decide +kernel
  obtain ⟨-, -, -, -, -, -, encoded⟩ := labels_mark accentedComment false found labelled
  exact ⟨_, found, labelled, text ▸ encoded "/*é*/)" rfl⟩

/-- The same with a byte in the comment that begins no character. -/
def malformedComment : Source where
  id := "main"
  bytes := [0x2F, 0x2A, 0xFF, 0x2A, 0x2F, 0x29]

/-- The label marks the end of the comment, not the parenthesis. -/
theorem malformedComment_mismarks : ∃ diagnostic ∈ malformedComment.parse.diagnostics false,
    ∃ caption span, (caption, span) ∈ diagnostic.labels ∧ malformedComment.spanText span = ")" ∧
      span.Marks diagnostic.attached "*" ∧
      ¬ span.Marks diagnostic.attached (malformedComment.spanText span) := by
  have found : Diagnostic.locate malformedComment .error .grammar "Expect expression." ⟨5, 1⟩ ∈
      malformedComment.parse.diagnostics false := by
    decide +kernel
  have text : malformedComment.spanText ⟨5, 1⟩ = ")" := by decide +kernel
  have marks : Span.Marks ⟨5, 1⟩ malformedComment.text "*" :=
    ⟨"/*\uFFFD", "/)", by decide +kernel, by decide +kernel, by decide +kernel⟩
  refine ⟨_, found, "error here", ⟨5, 1⟩, by decide +kernel, text, marks, fun other => ?_⟩
  have same := marks.unique other
  rw [text] at same
  exact absurd same (by decide)

end Source
end WrenFront
