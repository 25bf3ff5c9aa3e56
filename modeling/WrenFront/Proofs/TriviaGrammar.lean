import WrenFront.Proofs.LexerBalance

/-! What may stand between two tokens, described without the scanner that skips it. Comments nest, so
a block comment is a tree of comments; the scanner only counts how many are open, and both come to
the same. -/

namespace WrenFront.Trivia

/-- The text begins with a mark that opens or closes a comment. -/
def marked : List UInt8 → Bool
  | 47 :: 42 :: _ => true
  | 42 :: 47 :: _ => true
  | _ => false

/-- What follows the opening mark of a comment, up to the end of its closing mark. -/
inductive CommentTail : List UInt8 → Prop where
  | mark : CommentTail [42, 47]
  | byte {byte text} (plain : marked (byte :: text) = false) (others : CommentTail text) :
      CommentTail (byte :: text)
  | comment {inner text} (inside : CommentTail inner) (others : CommentTail text) :
      CommentTail (47 :: 42 :: inner ++ text)

/-- No beginning of the text closes a comment that was opened before it. -/
def Unclosed (text : List UInt8) : Prop :=
  ∀ tail rest, text = tail ++ rest → ¬ CommentTail tail

/-- The text in front of a token of the kind `next`. A line comment ends before a line feed or with
the input, and a comment that is not closed takes all that is left of it. -/
inductive Gap (next : TokenKind) : List UInt8 → Prop where
  | none : Gap next []
  | blank {byte text} (isBlank : ByteClass.isBlank byte) (others : Gap next text) :
      Gap next (byte :: text)
  | blockComment {tail text} (closed : CommentTail tail) (others : Gap next text) :
      Gap next (47 :: 42 :: tail ++ text)
  | lineComment {text} (oneLine : 10 ∉ text) (ends : next = .line ∨ next = .eof) :
      Gap next (47 :: 47 :: text)
  | unclosedComment {text} (unclosed : Unclosed text) (ends : next = .eof) :
      Gap next (47 :: 42 :: text)

theorem CommentTail.cons {tail : List UInt8} (closes : CommentTail tail) :
    ∃ byte text, tail = byte :: text := by
  cases closes <;> exact ⟨_, _, rfl⟩

/-- Whether a mark begins at a byte is seen from the byte after it. -/
theorem marked_append (byte : UInt8) {text : List UInt8} (rest : List UInt8)
    (closes : CommentTail text) : marked (byte :: (text ++ rest)) = marked (byte :: text) := by
  obtain ⟨next, text, rfl⟩ := closes.cons
  rw [List.cons_append]
  unfold marked
  split <;> split <;> simp_all

/-- Where the scanner is once the innermost of the open comments has been closed. -/
def Place.outside : Nat → Nat → Place
  | 0, _ => .betweenTokens
  | depth + 1, length => .blockComment depth length

theorem skipFrom_byte (depth length : Nat) {byte : UInt8} {text : List UInt8}
    (plain : marked (byte :: text) = false) :
    skipFrom (.blockComment depth length) (byte :: text) =
      skipFrom (.blockComment depth (length + 1)) text := by
  rw [skipFrom.eq_10]
  all_goals
    intros
    simp_all [marked]

theorem skipFrom_mark (depth length : Nat) (rest : List UInt8) :
    skipFrom (.blockComment depth length) (42 :: 47 :: rest) =
      skipFrom (.outside depth (length + 2)) rest := by
  cases depth <;> rfl

/-- The scanner comes out of a comment where the comment ends. -/
theorem CommentTail.skipFrom {tail : List UInt8} (closes : CommentTail tail) (depth length : Nat)
    (rest : List UInt8) : skipFrom (.blockComment depth length) (tail ++ rest) =
      skipFrom (.outside depth (length + tail.length)) rest := by
  induction closes generalizing depth length rest with
  | mark => exact skipFrom_mark depth length rest
  | @byte byte text plain others ih =>
    have same := (marked_append byte rest others).trans plain
    rw [List.cons_append, skipFrom_byte depth length same, ih, List.length_cons, Nat.add_right_comm,
      Nat.add_assoc]
  | @comment inner text inside others inner_ih ih =>
    have opened : Trivia.skipFrom (.blockComment depth length) (47 :: 42 :: (inner ++ (text ++ rest))) =
        Trivia.skipFrom (.blockComment (depth + 1) (length + 2)) (inner ++ (text ++ rest)) := rfl
    have total : length + 2 + inner.length + text.length =
        length + (47 :: 42 :: inner ++ text).length := by
      simp only [List.cons_append, List.length_cons, List.length_append]
      omega
    rw [List.append_assoc, List.cons_append, List.cons_append, opened, inner_ih, Place.outside, ih,
      total]

theorem Unclosed.byte {byte : UInt8} {text : List UInt8} (unclosed : Unclosed (byte :: text))
    (plain : marked (byte :: text) = false) : Unclosed text := by
  rintro tail rest rfl closes
  apply unclosed (byte :: tail) rest rfl
  exact .byte ((marked_append byte rest closes).symm.trans plain) closes

/-- Where no beginning of the input closes a comment the scanner never comes out of it. -/
theorem Unclosed.skipFrom {text : List UInt8} (unclosed : Unclosed text) (depth length : Nat) :
    skipFrom (.blockComment depth length) text = ⟨[], some (length + text.length)⟩ := by
  induction size : text.length using Nat.strongRecOn generalizing text depth length with
  | ind size ih =>
    subst size
    by_cases plain : marked text = false
    · cases text with
      | nil => rfl
      | cons byte text =>
        rw [skipFrom_byte depth length plain,
          ih text.length (Nat.lt_succ_self _) (unclosed.byte plain) depth (length + 1) rfl,
          List.length_cons, Nat.add_right_comm, Nat.add_assoc]
    · unfold marked at plain
      split at plain
      · next text =>
        -- Another comment is opened: either it ends and the outer one does not, or neither does.
        change Trivia.skipFrom (.blockComment (depth + 1) (length + 2)) text = _
        by_cases inner : ∃ tail rest, text = tail ++ rest ∧ CommentTail tail
        · obtain ⟨tail, rest, rfl, closes⟩ := inner
          have outer : Unclosed rest := by
            rintro more after rfl closesToo
            apply unclosed (47 :: 42 :: tail ++ more) after (by simp)
            exact .comment closes closesToo
          rw [closes.skipFrom, Place.outside, ih rest.length _ outer depth _ rfl]
          · simp only [List.length_cons, List.length_append]
            congr 2
            omega
          · simp only [List.length_cons, List.length_append]
            omega
        · have open' : Unclosed text := fun tail rest same closes => inner ⟨tail, rest, same, closes⟩
          rw [ih text.length (by simp only [List.length_cons]; omega) open' (depth + 1) _ rfl]
          simp only [List.length_cons]
          congr 2
          omega
      · next text => exact absurd .mark (unclosed [42, 47] text rfl)
      · exact absurd rfl plain

theorem skipFrom_lineComment (text : List UInt8) :
    skipFrom .lineComment text = ⟨text.dropWhile (· ≠ 10), none⟩ := by
  induction text with
  | nil => rfl
  | cons byte text ih =>
    rw [skipFrom, ih]
    by_cases feed : byte = 10 <;> simp [feed]

theorem dropWhile_line (text : List UInt8) : text.dropWhile (· ≠ 10) = [] ∨
    ∃ rest, text.dropWhile (· ≠ 10) = 10 :: rest := by
  cases found : text.dropWhile (· ≠ 10) with
  | nil => exact .inl rfl
  | cons byte rest =>
    have stops := List.head?_dropWhile_not (· ≠ 10) text
    simp only [found, List.head?_cons] at stops
    have feed : byte = 10 := by simpa using stops
    exact .inr ⟨rest, by rw [feed]⟩

/-- What is left after the scanner has skipped all it can begins with no blank and no comment. -/
def Settled (text : List UInt8) : Prop :=
  ∀ byte rest, text = byte :: rest → ByteClass.isBlank byte = false ∧
    (byte = 47 → rest.head? ≠ some 47 ∧ rest.head? ≠ some 42)

theorem skipFrom_settled (place : Place) (text : List UInt8) :
    Settled (skipFrom place text).rest := by
  fun_induction skipFrom place text with
  | case6 byte text noLine noBlock notBlank =>
    rintro _ rest ⟨⟩
    refine ⟨by simpa using notBlank, ?_⟩
    rintro rfl
    constructor
    · intro first
      obtain ⟨rest, rfl⟩ := List.head?_eq_some_iff.1 first
      exact noLine rest rfl rfl
    · intro first
      obtain ⟨rest, rfl⟩ := List.head?_eq_some_iff.1 first
      exact noBlock rest rfl rfl
  | case7 text =>
    rintro _ rest ⟨⟩
    exact ⟨rfl, fun slash => absurd slash (by decide)⟩
  | case1 => rintro _ _ ⟨⟩
  | case2 => rintro _ _ ⟨⟩
  | _ => assumption

theorem skip_settled (text : List UInt8) : Settled (skip text).rest :=
  skipFrom_settled .betweenTokens text

/-- A gap before any token that can follow: the end of the input is read as the end token, and a
line feed as a newline. -/
def GapBefore (gap rest : List UInt8) : Prop :=
  ∀ next, (rest = [] → next = .eof) → (∀ after, rest = 10 :: after → next = .line) → Gap next gap

theorem lineComment_gap (text : List UInt8) : ∃ gap, 47 :: 47 :: text =
    gap ++ (skip (47 :: 47 :: text)).rest ∧ GapBefore gap (skip (47 :: 47 :: text)).rest := by
  have skips : skip (47 :: 47 :: text) = ⟨text.dropWhile (· ≠ 10), none⟩ :=
    skipFrom_lineComment text
  rw [skips]
  refine ⟨47 :: 47 :: text.takeWhile (· ≠ 10), by simp, fun next atEnd atLine => ?_⟩
  refine .lineComment ?_ ?_
  · intro member
    simpa using List.all_eq_true.1 List.all_takeWhile _ member
  · rcases dropWhile_line text with ends | ⟨rest, feed⟩
    · exact .inr (atEnd ends)
    · exact .inl (atLine rest feed)

theorem blockComment_gap {text : List UInt8}
    (shorter : ∀ rest : List UInt8, rest.length < text.length →
      ∃ gap, rest = gap ++ (skip rest).rest ∧ GapBefore gap (skip rest).rest) :
    ∃ gap, 47 :: 42 :: text = gap ++ (skip (47 :: 42 :: text)).rest ∧
      GapBefore gap (skip (47 :: 42 :: text)).rest := by
  by_cases closed : ∃ tail rest, text = tail ++ rest ∧ CommentTail tail
  · obtain ⟨tail, rest, rfl, closes⟩ := closed
    have skips : skip (47 :: 42 :: (tail ++ rest)) = skip rest := closes.skipFrom 0 2 rest
    obtain ⟨byte, after, cons⟩ := closes.cons
    obtain ⟨gap, same, gaps⟩ := shorter rest (by rw [cons, List.length_append, List.length_cons]; omega)
    rw [skips]
    refine ⟨47 :: 42 :: tail ++ gap, ?_, fun next atEnd atLine => ?_⟩
    · rw [List.append_assoc, List.cons_append, List.cons_append, ← same]
    · exact .blockComment closes (gaps next atEnd atLine)
  · have unclosed : Unclosed text := fun tail rest same closes => closed ⟨tail, rest, same, closes⟩
    have skips : skip (47 :: 42 :: text) = ⟨[], some (2 + text.length)⟩ := unclosed.skipFrom 0 2
    rw [skips]
    exact ⟨47 :: 42 :: text, by simp, fun next atEnd _ => .unclosedComment unclosed (atEnd rfl)⟩

theorem skip_byte {byte : UInt8} {text : List UInt8}
    (noLine : ¬ ∃ rest, byte :: text = 47 :: 47 :: rest)
    (noBlock : ¬ ∃ rest, byte :: text = 47 :: 42 :: rest) :
    skip (byte :: text) = if ByteClass.isBlank byte then skip text else ⟨byte :: text, none⟩ := by
  rw [skip, skipFrom.eq_5]
  · rfl
  · rintro rest rfl rfl
    exact noLine ⟨rest, rfl⟩
  · rintro rest rfl rfl
    exact noBlock ⟨rest, rfl⟩

/-- What the scanner skips is a gap before whatever token follows. -/
theorem skip_gap (text : List UInt8) :
    ∃ gap, text = gap ++ (skip text).rest ∧ GapBefore gap (skip text).rest := by
  induction size : text.length using Nat.strongRecOn generalizing text with
  | ind size ih =>
    subst size
    by_cases line : ∃ rest, text = 47 :: 47 :: rest
    · obtain ⟨rest, rfl⟩ := line
      exact lineComment_gap rest
    by_cases block : ∃ rest, text = 47 :: 42 :: rest
    · obtain ⟨rest, rfl⟩ := block
      refine blockComment_gap fun after shorter => ih after.length ?_ after rfl
      simp only [List.length_cons]
      omega
    cases text with
    | nil => exact ⟨[], rfl, fun _ _ _ => .none⟩
    | cons byte text =>
      rw [skip_byte line block]
      split
      · next isBlank =>
        obtain ⟨gap, same, gaps⟩ := ih text.length (Nat.lt_succ_self _) text rfl
        refine ⟨byte :: gap, by rw [List.cons_append, ← same], fun next atEnd atLine => ?_⟩
        exact .blank isBlank (gaps next atEnd atLine)
      · exact ⟨[], rfl, fun _ _ _ => .none⟩

end WrenFront.Trivia
