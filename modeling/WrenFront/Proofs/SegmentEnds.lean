import WrenFront.Proofs.StringSegments
import WrenFront.Proofs.TokenBoundaries

/-! Where string segments end. The scanner goes on from a backslash to the byte after the next one,
so whether it stops at a byte seems to depend on the way there; but it is told by the backslashes
right before that byte, since an even number of them escape one another. A segment ends with the
first mark that is not escaped, and one without such a mark takes all that is left. -/

namespace WrenFront

namespace Lexeme

/-- A mark that begins in a text is all in it, unless a parenthesis follows the text. -/
theorem Marked.of_append {text more : List UInt8} (nonempty : text ≠ [])
    (apart : more.head? ≠ some 40) (marked : Marked (text ++ more)) : Marked text := by
  obtain ⟨first, rest, rfl⟩ := List.exists_cons_of_ne_nil nonempty
  rcases marked with quote | ⟨after, opening⟩
  · exact .inl quote
  · obtain ⟨rfl, opens⟩ := List.cons.inj opening
    cases rest with
    | nil => exact absurd (congrArg List.head? opens.symm) apart
    | cons second rest =>
      obtain ⟨rfl, -⟩ := List.cons.inj opens
      exact .inr ⟨rest, rfl⟩

/-- All marks are escaped in what is inside a segment, whatever follows it. -/
theorem Inside.unmarked {body more : List UInt8} (inside : Inside body)
    (apart : more.head? ≠ some 40) {index : Nat} (before : index < body.length)
    (marked : Marked ((body ++ more).drop index)) :
    slashes ((body ++ more).take index) % 2 = 1 := by
  have left : body.drop index ≠ [] := by simpa using before
  rw [List.drop_append_of_le_length (Nat.le_of_lt before)] at marked
  rw [List.take_append_of_le_length (Nat.le_of_lt before)]
  refine Inside.escaped ?_ (marked.of_append left apart)
  rwa [List.take_append_drop]

theorem unmarked_last {last : List UInt8} (slash : last = [] ∨ last = [92]) (index : Nat) :
    ¬ Marked (last.drop index) := by
  rcases slash with rfl | rfl
  · simp [Marked]
  · cases index <;> simp [Marked]

end Lexeme

namespace Source

/-- How many backslashes in a row stand right before `offset`, counting those after `start`. -/
def slashesBefore (source : Source) (start offset : Nat) : Nat :=
  Lexeme.slashes (source.slice (start + 1) (offset - (start + 1)))

/-- The last of the backslashes before `offset` is not escaped itself. -/
def Escaped (source : Source) (start offset : Nat) : Prop :=
  source.slashesBefore start offset % 2 = 1

/-- A string segment that starts at `start` can end with what is at `offset`. Then it makes a token
of `kind`, which stops at `stop`. -/
inductive SegmentEnd (source : Source) (start : Nat) :
    (offset : Nat) → (kind : TokenKind) → (stop : Nat) → Prop where
  | quote {offset : Nat} (later : start < offset) (bare : ¬ source.Escaped start offset)
      (found : source.bytes[offset]? = some 34) :
      source.SegmentEnd start offset .string (offset + 1)
  /-- An interpolation begins with `%(`. -/
  | interpolation {offset : Nat} (later : start < offset) (bare : ¬ source.Escaped start offset)
      (percent : source.bytes[offset]? = some 37)
      (opening : source.bytes[offset + 1]? = some 40) :
      source.SegmentEnd start offset .interpolation (offset + 2)

/-- The first of all that a segment can end with makes it a token of `kind` up to `stop`. -/
def EndsFirst (source : Source) (start : Nat) (kind : TokenKind) (stop : Nat) : Prop :=
  ∃ offset, source.SegmentEnd start offset kind stop ∧
    ∀ earlier < offset, ∀ kind stop, ¬ source.SegmentEnd start earlier kind stop

/-- How a segment from `start` to `stop` ends, told by the marks that are not escaped. -/
def Ends (source : Source) (start stop : Nat) : Lexeme.StringEnd → Prop
  | .quote => source.EndsFirst start .string stop
  | .interpolation => source.EndsFirst start .interpolation stop
  | .endOfInput => stop = source.length ∧
      ∀ offset kind stop, ¬ source.SegmentEnd start offset kind stop

section Ends
variable {source : Source} {start offset stop : Nat} {kind : TokenKind} {body more : List UInt8}

theorem SegmentEnd.marked (ends : source.SegmentEnd start offset kind stop) : start < offset ∧
    ¬ source.Escaped start offset ∧ Lexeme.Marked (source.bytes.drop offset) := by
  cases ends with
  | quote later bare found =>
    refine ⟨later, bare, .inl ?_⟩
    rwa [List.head?_drop]
  | interpolation later bare percent opening =>
    refine ⟨later, bare, .inr ?_⟩
    obtain ⟨inside, first⟩ := List.getElem?_eq_some_iff.1 percent
    obtain ⟨insideToo, second⟩ := List.getElem?_eq_some_iff.1 opening
    rw [List.drop_eq_getElem_cons inside, List.drop_eq_getElem_cons insideToo, first, second]
    exact List.prefix_append [37, 40] _

section Unread
variable (unread : source.bytes.drop (start + 1) = body ++ more) (inside : Lexeme.Inside body)
include unread

theorem drop_inside : source.bytes.drop (start + 1 + body.length) = more := by
  rw [← List.drop_drop, unread, List.drop_left]

theorem getElem?_inside (index : Nat) :
    source.bytes[start + 1 + body.length + index]? = more[index]? := by
  rw [← List.getElem?_drop, drop_inside unread]

include inside

/-- A segment does not end with anything that is inside it. -/
theorem SegmentEnd.outside (apart : more.head? ≠ some 40)
    (ends : source.SegmentEnd start offset kind stop) : start + 1 + body.length ≤ offset := by
  obtain ⟨later, bare, marked⟩ := ends.marked
  obtain ⟨index, rfl⟩ := Nat.exists_eq_add_of_le (Nat.succ_le_of_lt later)
  refine Nat.add_le_add_left (Nat.not_lt.1 fun before => bare ?_) _
  rw [← List.drop_drop, unread] at marked
  rw [Escaped, slashesBefore, slice, Nat.add_sub_cancel_left, unread]
  exact inside.unmarked apart before marked

/-- Right after what is inside a segment nothing is escaped. -/
theorem unescaped_after : ¬ source.Escaped start (start + 1 + body.length) := by
  rw [Escaped, slashesBefore, slice, Nat.add_sub_cancel_left, unread, List.take_left,
    inside.slashes_even]
  decide

/-- What ends a segment right after what is inside it is the first that can. -/
theorem SegmentEnd.first (apart : more.head? ≠ some 40)
    (ends : source.SegmentEnd start (start + 1 + body.length) kind stop) :
    source.EndsFirst start kind stop :=
  ⟨_, ends, fun _ before _ _ earlier => Nat.not_lt.2 (earlier.outside unread inside apart) before⟩

end Unread

/-- The scanner ends a segment with the first mark that is not escaped, or not at all. -/
theorem tail_ends {ending : Lexeme.StringEnd} (inside : stop ≤ source.length)
    (tail : Lexeme.Tail ending (source.bytes.drop (start + 1)) (source.bytes.drop stop)) :
    source.Ends start stop ending := by
  have later (more : Nat) : start < start + 1 + more := by omega
  generalize unread : source.bytes.drop (start + 1) = bytes,
    after : source.bytes.drop stop = rest at tail
  have lengths := congrArg List.length unread
  have left := congrArg List.length after
  rw [List.length_drop] at lengths left
  rw [Source.length] at inside
  cases tail with
  | @quote body others rest =>
    have stops : stop = start + 1 + body.length + 1 := by
      rw [List.length_append, List.length_cons] at lengths
      omega
    rw [stops]
    refine SegmentEnd.first unread others (by simp) (.quote (later _) ?_ ?_)
    · exact unescaped_after unread others
    · exact getElem?_inside unread 0
  | @interpolation body others rest =>
    have stops : stop = start + 1 + body.length + 2 := by
      rw [List.length_append, List.length_cons, List.length_cons] at lengths
      omega
    rw [stops]
    refine SegmentEnd.first unread others (by simp) (.interpolation (later _) ?_ ?_ ?_)
    · exact unescaped_after unread others
    · exact getElem?_inside unread 0
    · exact getElem?_inside unread 1
  | @endOfInput body last others slash =>
    refine ⟨?_, fun offset kind stop ends => ?_⟩
    · rw [List.length_nil] at left
      rw [Source.length]
      omega
    · have apart : last.head? ≠ some 40 := by rcases slash with rfl | rfl <;> simp
      obtain ⟨more, rfl⟩ := Nat.exists_eq_add_of_le (ends.outside unread others apart)
      obtain ⟨-, -, marked⟩ := ends.marked
      rw [← List.drop_drop, drop_inside unread] at marked
      exact Lexeme.unmarked_last slash more marked

end Ends

/-- A token is recorded as a string that is not ended exactly if its read comes upon that fault. -/
theorem fault_recorded (source : Source) {token : Token} (listed : token ∈ source.tokens) :
    ∃ reads, source.token reads = token ∧
      (⟨.unterminatedString, token.span⟩ ∈ (Lexer.ofSource source).readAll.2.errors ↔
        (source.lexerAfter reads).fault? = some .unterminatedString) := by
  obtain ⟨reads, same, recorded⟩ := (Lexer.ofSource source).readAll_reads token listed
  refine ⟨reads, same, fun member => ?_, fun faulty => recorded.subset ?_⟩
  · obtain ⟨last, all⟩ := (Lexer.ofSource source).readAll_last
    rw [all] at member
    have finds := source.errors_found last _ member
    generalize alike : (⟨.unterminatedString, token.span⟩ : LexicalError) = error at finds
    cases finds with
    | comment _ => cases congrArg LexicalError.fault alike
    | @token other fault faulty =>
      obtain rfl : .unterminatedString = fault := congrArg LexicalError.fault alike
      have starts : (source.token other).start = (source.token reads).start :=
        (congrArg (·.span.start) alike).symm.trans (congrArg Token.start same).symm
      rcases source.token_twice starts with rfl | atEnd
      · exact faulty
      · rw [Lexer.fault?_end atEnd] at faulty
        cases faulty
  · change (source.lexerAfter reads).fault? = _ at faulty
    rw [Lexer.errors_read]
    change _ ∈ _ ++ (Option.map _ (source.lexerAfter reads).fault?).toList
    rw [faulty, ← same]
    exact List.mem_append_right _ (List.mem_singleton.2 rfl)

/-- What the scanner makes of the bytes after the first one of a segment. -/
theorem token_tail {source : Source} {reads : Nat}
    (segment : (source.token reads).kind ∈ stringKinds) : ∃ ending,
    Lexeme.Tail ending (source.bytes.drop ((source.token reads).start + 1))
        (source.bytes.drop (source.token reads).stop) ∧
      (source.token reads).kind = (if ending = .interpolation then .interpolation else .string) ∧
      (source.lexerAfter reads).fault? =
        if ending = .endOfInput then some .unterminatedString else none := by
  have more : (source.token reads).kind ≠ .eof := by
    intro atEnd
    simp [stringKinds, atEnd] at segment
  have found := Lexer.read_lexeme (source.lexerAfter_placed reads) more
  obtain ⟨first, body, ending, -, text, tail, kind, fault⟩ := Lexeme.read_segment found segment
  refine ⟨ending, ?_, kind, fault⟩
  rw [source_lexerAfter] at text
  change Token.bytes source (source.token reads) = _ at text
  have unread := source.bytes_slice (source.token reads).start (source.token reads).length
  change _ = Token.bytes source (source.token reads) ++ _ at unread
  rw [text, List.cons_append] at unread
  rw [← List.drop_drop, unread, List.drop_one, List.tail_cons]
  rwa [← lexerAfter_succ, ← (source.token_cuts reads).2] at tail

/-- A string segment ends with the first mark that is not escaped. If there is none, it takes all
that is left of the source as a string, and only then an error is recorded for it. -/
theorem segment_ends_first (source : Source) {token : Token} (listed : token ∈ source.tokens)
    (segment : token.kind ∈ stringKinds) :
    (source.EndsFirst token.start token.kind token.stop ∧
        ⟨.unterminatedString, token.span⟩ ∉ (Lexer.ofSource source).readAll.2.errors) ∨
      ((∀ offset kind stop, ¬ source.SegmentEnd token.start offset kind stop) ∧
        token.kind = .string ∧ token.stop = source.length ∧
        ⟨.unterminatedString, token.span⟩ ∈ (Lexer.ofSource source).readAll.2.errors) := by
  obtain ⟨reads, rfl, recorded⟩ := source.fault_recorded listed
  obtain ⟨ending, tail, kind, fault⟩ := token_tail segment
  have ends := tail_ends (source.token_inside reads) tail
  rw [fault] at recorded
  rw [kind]
  cases ending with
  | quote => exact .inl ⟨ends, fun member => nomatch recorded.1 member⟩
  | interpolation => exact .inl ⟨ends, fun member => nomatch recorded.1 member⟩
  | endOfInput => exact .inr ⟨ends.2, rfl, ends.1, recorded.2 rfl⟩

/-- A quote and an interpolation that are escaped, two backslashes before the quote of the next
segment, and one before the end of the source. -/
def escapedMarks : Source where
  id := "main"
  bytes := Text.Utf8.encode "\"\\\\\\\"\\%(%%(b)\\\\\" \"\\"

theorem escapedMarks_end :
    ((⟨.interpolation, 0, 11⟩ ∈ escapedMarks.tokens ∧ .interpolation ∈ stringKinds) ∧
      escapedMarks.SegmentEnd 0 9 .interpolation 11 ∧
      ∀ earlier < 9, ∀ kind stop, ¬ escapedMarks.SegmentEnd 0 earlier kind stop) ∧
    ((⟨.string, 17, 2⟩ ∈ escapedMarks.tokens ∧ .string ∈ stringKinds) ∧
      (∀ offset kind stop, ¬ escapedMarks.SegmentEnd 17 offset kind stop) ∧
      ⟨.unterminatedString, ⟨17, 2⟩⟩ ∈ (Lexer.ofSource escapedMarks).readAll.2.errors) := by
  have opened : ⟨.interpolation, 0, 11⟩ ∈ escapedMarks.tokens := by decide +kernel
  have last : ⟨.string, 17, 2⟩ ∈ escapedMarks.tokens := by decide +kernel
  refine ⟨⟨⟨opened, by decide⟩, ?_⟩, ⟨last, by decide⟩, ?_⟩
  · rcases escapedMarks.segment_ends_first opened (by decide) with
      ⟨⟨offset, ends, first⟩, -⟩ | ⟨-, literal, -⟩
    · obtain rfl : offset = 9 := by
        generalize stops : Token.stop _ = stop at ends
        cases ends
        exact (Nat.succ.inj (Nat.succ.inj stops)).symm
      exact ⟨ends, first⟩
    · cases literal
  · rcases escapedMarks.segment_ends_first last (by decide) with
      ⟨⟨offset, ends, -⟩, -⟩ | ⟨unended, -, -, recorded⟩
    · generalize stops : Token.stop _ = stop at ends
      cases ends with
      | quote later bare found =>
        obtain rfl : 18 = offset := Nat.succ.inj stops
        exact absurd found (by decide +kernel)
    · exact ⟨unended, recorded⟩

end Source
end WrenFront
