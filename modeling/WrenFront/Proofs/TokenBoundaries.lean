import WrenFront.Proofs.ErrorPlaces
import WrenFront.Proofs.LexemeGrammar
import WrenFront.Proofs.LossyDecoding

/-! Tokens and characters. Whatever the bytes are, a gap or a token ends with a byte that is a
character of its own, or with the last byte that its character can have, or where a byte follows
that no character goes on with. So where a token begins or ends no character is cut in two. -/

namespace WrenFront

namespace Text.Utf8

/-- The text ends with a byte that is a character of its own. -/
def endsPlain (text : List UInt8) : Bool :=
  text.getLast?.any (· < 0x80)

theorem endsPlain_append (before : List UInt8) {text : List UInt8} (ends : endsPlain text) :
    endsPlain (before ++ text) := by
  obtain ⟨byte, last, plain⟩ := (Option.any_eq_true _ _).1 ends
  refine (Option.any_eq_true _ _).2 ⟨byte, ?_, plain⟩
  rw [List.getLast?_append, last, Option.some_or]

theorem endsPlain_all {text : List UInt8} (some : text ≠ []) (all : ∀ byte ∈ text, byte < 0x80) :
    endsPlain text := by
  refine (Option.any_eq_true _ _).2 ⟨text.getLast some, List.getLast?_eq_some_getLast some, ?_⟩
  exact decide_eq_true (all _ (List.getLast_mem some))

/-- No character goes on from the text to what is after it, if none goes on from before into the
text. -/
inductive Whole (text after : List UInt8) : Prop where
  | empty (none : text = [])
  | plain (ends : endsPlain text)
  | fresh (other : ∀ byte ∈ after.head?, ByteClass.isContinuation byte = false)
  | character {lead : UInt8} {more : List UInt8} (bytes : text = lead :: more)
      (all : ∀ byte ∈ more, ByteClass.isContinuation byte)
      (full : more.length = ByteClass.width lead - 1)

theorem Apart.whole {before text after : List UInt8} (apart : Apart before (text ++ after))
    (whole : Whole text after) : Apart (before ++ text) after := by
  cases whole with
  | empty none =>
    subst none
    rwa [List.append_nil]
  | plain ends =>
    obtain ⟨byte, last, plain⟩ := (Option.any_eq_true _ _).1 (endsPlain_append before ends)
    exact .inl (pendingAfter_plain last (of_decide_eq_true plain))
  | fresh other => exact .inr other
  | character bytes all full =>
    subst bytes
    exact .inl (apart.character all full)

end Text.Utf8

open Text.Utf8

namespace Trivia

theorem CommentTail.endsPlain {tail : List UInt8} (closes : CommentTail tail) :
    endsPlain tail := by
  induction closes with
  | mark => rfl
  | @byte byte text _ _ ih => exact endsPlain_append [byte] ih
  | @comment inner text _ _ _ ih => exact endsPlain_append (47 :: 42 :: inner) ih

theorem isBlank_plain : ∀ byte, ByteClass.isBlank byte → byte < 0x80 :=
  forall_byte (by decide +kernel)

/-- A gap that does not end with a plain byte ends with its line, or with the input. -/
theorem Gap.endsPlain {next : TokenKind} {gap : List UInt8} (isGap : Gap next gap) :
    gap = [] ∨ endsPlain gap ∨ next = .line ∨ next = .eof := by
  induction isGap with
  | none => exact .inl rfl
  | @blank byte text isBlank _ ih =>
    right
    rcases ih with rfl | ends | last
    · exact .inl (endsPlain_all nofun (by simpa using isBlank_plain byte isBlank))
    · exact .inl (endsPlain_append [byte] ends)
    · exact .inr last
  | @blockComment tail text closed _ ih =>
    right
    rcases ih with rfl | ends | last
    · rw [List.append_nil]
      exact .inl (endsPlain_append [47, 42] closed.endsPlain)
    · exact .inl (endsPlain_append (47 :: 42 :: tail) ends)
    · exact .inr last
  | lineComment _ ends => exact .inr (.inr ends)
  | unclosedComment _ ends => exact .inr (.inr (.inr ends))

end Trivia

namespace Lexeme

theorem stringTail_endsPlain (bytes : List UInt8) : (stringTail bytes).2 = [] ∨
    ∃ segment, bytes = segment ++ (stringTail bytes).2 ∧ endsPlain segment := by
  fun_induction stringTail bytes with
  | case1 | case2 => exact .inl rfl
  | case3 byte rest ih =>
    rcases ih with none | ⟨segment, same, ends⟩
    · exact .inl none
    · refine .inr ⟨92 :: byte :: segment, ?_, endsPlain_append [92, byte] ends⟩
      rw [List.cons_append, List.cons_append, ← same]
  | case4 rest => exact .inr ⟨[37, 40], rfl, rfl⟩
  | case5 rest => exact .inr ⟨[34], rfl, rfl⟩
  | case6 byte rest _ _ _ _ ih =>
    rcases ih with none | ⟨segment, same, ends⟩
    · exact .inl none
    · refine .inr ⟨byte :: segment, ?_, endsPlain_append [byte] ends⟩
      rw [List.cons_append, ← same]

theorem rest_stringSegment (openings : List Nat) (bytes : List UInt8) :
    (stringSegment openings bytes).rest = (stringTail bytes).2 := by
  unfold stringSegment
  split <;> simp_all

theorem stringSegment_whole (openings : List Nat) {first : UInt8} {text bytes : List UInt8}
    (same : first :: bytes = text ++ (stringSegment openings bytes).rest) :
    Whole text (stringSegment openings bytes).rest := by
  rw [rest_stringSegment] at same ⊢
  rcases stringTail_endsPlain bytes with none | ⟨segment, split, ends⟩
  · exact .fresh (by simp [none])
  · have whole : first :: segment ++ (stringTail bytes).2 = text ++ (stringTail bytes).2 := by
      rw [List.cons_append, ← split, same]
    rw [← List.append_cancel_right whole]
    exact .plain (endsPlain_append [first] ends)

theorem read_string {openings : List Nat} {first : UInt8} {rest : List UInt8} {lexeme : Lexeme}
    (found : read openings (first :: rest) = some lexeme) (isString : lexeme.kind ∈ stringKinds) :
    ∃ outer, lexeme = stringSegment outer rest := by
  simp only [read] at found
  split at found
  · cases found
    simp [stringKinds] at isString
  · split at found <;> cases found
    · exact ⟨_, rfl⟩
    · simp [stringKinds] at isString
  · cases found
    rcases plain_strings openings first rest with ⟨-, same⟩ | ⟨other, -⟩
    · exact ⟨openings, same⟩
    · exact absurd isString other

theorem isHexDigit_word : ∀ byte, ByteClass.isHexDigit byte → ByteClass.isWord byte :=
  forall_byte (by decide +kernel)

theorem isDigit_word : ∀ byte, ByteClass.isDigit byte → ByteClass.isWord byte :=
  forall_byte (by decide +kernel)

theorem bytes?_endsPlain : ∀ kind : TokenKind, ∀ text ∈ kind.bytes?, endsPlain text := by
  intro kind
  cases kind <;> decide +kernel

theorem endsPlain_word {text : List UInt8} (some : text ≠ [])
    (word : ∀ byte ∈ text, ByteClass.isWord byte) : endsPlain text :=
  endsPlain_all some fun byte member => isWord_ascii (word byte member)

theorem Number.endsPlain {text after : List UInt8} (number : Number text after) :
    endsPlain text := by
  rcases number with ⟨digits, rfl, run⟩ | ⟨some, run, -⟩
  · have word : ∀ byte ∈ digits, ByteClass.isWord byte :=
      fun byte member => isHexDigit_word byte (run.all byte member)
    exact endsPlain_word nofun
      (List.forall_mem_cons.2 ⟨rfl, List.forall_mem_cons.2 ⟨rfl, word⟩⟩)
  · exact endsPlain_word some fun byte member => isDigit_word byte (run.all byte member)

/-- How a text ends is plain from its kind, unless it is a string. -/
theorem Written.whole {kind : TokenKind} {text after : List UInt8}
    (written : Written kind text after) (notString : kind ≠ .string) : Whole text after := by
  cases kind
  case name =>
    obtain ⟨⟨first, rest, cons, -⟩, word, -⟩ := written
    exact .plain (endsPlain_word (cons ▸ nofun) word.all)
  case field =>
    obtain ⟨word, rfl, -, run⟩ := written
    exact .plain (endsPlain_word nofun (List.forall_mem_cons.2 ⟨rfl, run.all⟩))
  case staticField =>
    obtain ⟨word, rfl, run⟩ := written
    exact .plain (endsPlain_word nofun
      (List.forall_mem_cons.2 ⟨rfl, List.forall_mem_cons.2 ⟨rfl, run.all⟩⟩))
  case number => exact .plain (Number.endsPlain written)
  case string => exact absurd rfl notString
  case interpolation =>
    obtain ⟨-, body, rfl⟩ := written
    exact .plain (endsPlain_append body rfl)
  case error =>
    obtain ⟨lead, more, rfl, -, all, -, full | ended⟩ := written
    · exact .character rfl all full
    · exact .fresh ended
  case eof => exact .empty written.1
  all_goals exact .plain (bytes?_endsPlain _ text written.spelled)

end Lexeme

theorem Lexer.Cuts.whole {lexer : Lexer} {gap text : List UInt8} (cuts : lexer.Cuts gap text) :
    Whole text lexer.read.2.rest := by
  by_cases isString : lexer.read.1.kind = .string
  · rcases cuts.token with ⟨-, atEnd, -⟩ | ⟨fault, found⟩
    · rw [atEnd] at isString
      cases isString
    · cases bytes : text ++ lexer.read.2.rest with
      | nil =>
        rw [bytes] at found
        cases found
      | cons first rest =>
        rw [bytes] at found
        obtain ⟨outer, segment⟩ := Lexeme.read_string found (by simp [isString, stringKinds])
        have rest := congrArg Lexeme.rest segment
        simp only at rest
        rw [rest] at bytes ⊢
        exact Lexeme.stringSegment_whole outer bytes.symm
  · exact cuts.written.whole isString

namespace Source

/-- No character is cut in two there. -/
def Between (source : Source) (offset : Nat) : Prop :=
  Apart (source.bytes.take offset) (source.bytes.drop offset)

theorem bytes_slice (source : Source) (start length : Nat) :
    source.bytes.drop start = source.slice start length ++ source.bytes.drop (start + length) := by
  rw [slice, ← List.drop_drop, List.take_append_drop]

theorem Between.whole {source : Source} {start length : Nat} (between : source.Between start)
    (whole : Whole (source.slice start length) (source.bytes.drop (start + length))) :
    source.Between (start + length) := by
  rw [Between, bytes_slice] at between
  rw [Between, List.take_add]
  exact between.whole whole

/-- A gap ends where the token after it begins. -/
theorem gap_whole (source : Source) (reads : Nat) :
    Whole (source.gap reads) (source.bytes.drop (source.token reads).start) := by
  have written := (source.token_cuts reads).1.written
  change Lexeme.Written (source.token reads).kind _ _ at written
  rw [← lexerAfter_succ, ← (source.token_cuts reads).2] at written
  have front := source.bytes_slice (source.token reads).start (source.token reads).length
  change _ = (source.token reads).bytes source ++
    source.bytes.drop (source.token reads).stop at front
  rcases (source.token_gap reads).endsPlain with empty | ends | line | atEnd
  · exact .empty empty
  · exact .plain ends
  -- A line comment may end inside a character, but what follows it is a line feed or nothing.
  · rw [line] at written
    refine .fresh ?_
    have feed : (source.token reads).bytes source = [10] := Option.some.inj written.spelled.symm
    rw [front, feed]
    simp [ByteClass.isContinuation]
  · rw [atEnd] at written
    refine .fresh ?_
    rw [front, written.1, written.2]
    simp

theorem token_whole (source : Source) (reads : Nat) :
    Whole ((source.token reads).bytes source) (source.bytes.drop (source.token reads).stop) := by
  obtain ⟨cuts, after⟩ := source.token_cuts reads
  rw [after, lexerAfter_succ]
  exact cuts.whole

section Reads
variable (source : Source)

/-- One read goes from a place between characters to two others. -/
theorem read_between {reads : Nat} (between : source.Between (source.gapStart reads)) :
    source.Between (source.token reads).start ∧ source.Between (source.token reads).stop := by
  have start : source.Between (source.token reads).start := by
    have gapWhole := source.gap_whole reads
    rw [← Nat.add_sub_cancel' (source.gapStart_le_start reads)] at gapWhole ⊢
    exact between.whole gapWhole
  exact ⟨start, start.whole (source.token_whole reads)⟩

theorem gapStart_between (reads : Nat) : source.Between (source.gapStart reads) := by
  induction reads with
  | zero => exact .inl rfl
  | succ reads ih => exact (source.read_between ih).2

/-- No token begins or ends inside a character. -/
theorem token_between (reads : Nat) :
    source.Between (source.token reads).start ∧ source.Between (source.token reads).stop :=
  source.read_between (source.gapStart_between reads)

end Reads

/-- Neither a token nor a comment that is not closed begins or ends inside a character. -/
theorem Erroneous.between {source : Source} {span : Span} (erroneous : source.Erroneous span) :
    source.Between span.start ∧ source.Between span.stop := by
  cases erroneous with
  | token reads => exact source.token_between reads
  | @comment before tail unclosed =>
    constructor
    · refine .inr ?_
      rw [unclosed, List.drop_left]
      simp [ByteClass.isContinuation]
    · refine .inr ?_
      have none : source.bytes.drop (before.length + (2 + tail.length)) = [] := by
        apply List.drop_eq_nil_of_le
        rw [unclosed]
        simp only [List.length_append, List.length_cons]
        omega
      rw [Span.stop, none]
      simp

end Source
end WrenFront
