import WrenFront.Proofs.TriviaGrammar

/-! The tokens of a source and the gaps between them cover it from end to end. One read takes a gap
and the text of a token off the unread bytes; reading again and again, every byte is taken once, and
once the end token has been given nothing changes any more. -/

namespace WrenFront

theorem Lexeme.read_feed (openings : List Nat) (rest : List UInt8) :
    read openings (10 :: rest) = some { kind := .line, rest, openings } := by
  cases openings <;> rfl

namespace Lexer

/-- What one read takes off the unread bytes, and what token it makes of it. -/
structure Cuts (lexer : Lexer) (gap text : List UInt8) : Prop where
  unread : lexer.rest = gap ++ (text ++ lexer.read.2.rest)
  trivia : Trivia.GapBefore gap (text ++ lexer.read.2.rest)
  settled : Trivia.Settled (text ++ lexer.read.2.rest)
  start : lexer.read.1.start = lexer.offset + gap.length
  length : lexer.read.1.length = text.length
  /-- Nothing but the end is left, or the text is the lexeme in front. -/
  token : (text ++ lexer.read.2.rest = [] ∧ lexer.read.1.kind = .eof ∧
      lexer.read.2.openings = lexer.openings) ∨
    ∃ fault, Lexeme.read lexer.openings (text ++ lexer.read.2.rest) =
      some ⟨lexer.read.1.kind, lexer.read.2.rest, lexer.read.2.openings, fault⟩

theorem rest_skipTrivia (lexer : Lexer) :
    lexer.skipTrivia.rest = (Trivia.skip lexer.rest).rest := by
  unfold skipTrivia
  dsimp only
  split <;> rfl

theorem Placed.offset_add {lexer : Lexer} (placed : lexer.Placed) :
    lexer.offset + lexer.rest.length = lexer.source.length :=
  Nat.sub_add_cancel placed.length_le

theorem read_cuts {lexer : Lexer} (placed : lexer.Placed) : ∃ gap text, lexer.Cuts gap text := by
  obtain ⟨gap, unread, before⟩ := Trivia.skip_gap lexer.rest
  have settled := Trivia.skip_settled lexer.rest
  rw [← rest_skipTrivia] at unread before settled
  have start : lexer.skipTrivia.offset = lexer.offset + gap.length := by
    have whole := placed.offset_add
    have part := placed.skipTrivia.offset_add
    rw [source_skipTrivia] at part
    have lengths := congrArg List.length unread
    rw [List.length_append] at lengths
    omega
  cases front : lexer.skipTrivia.rest with
  | nil =>
    have ends : lexer.read = (⟨.eof, lexer.skipTrivia.offset, 0⟩, lexer.skipTrivia) :=
      readLexeme_empty front
    refine ⟨gap, [], ?_⟩
    constructor <;> simp_all [openings_skipTrivia]
  | cons first rest =>
    obtain ⟨lexeme, found⟩ := Lexeme.read_isSome lexer.openings first rest
    rw [← front, ← openings_skipTrivia] at found
    obtain ⟨token, left, openings⟩ := readLexeme_found found
    obtain ⟨text, same⟩ := Lexeme.read_suffix found
    change lexer.read.1 = _ at token
    change lexer.read.2.rest = _ at left
    change lexer.read.2.openings = _ at openings
    refine ⟨gap, text, ?_, ?_, ?_, ?_, ?_, .inr ⟨lexeme.fault, ?_⟩⟩
    · rw [left, same, ← unread]
    · rw [left, same]
      exact before
    · rw [left, same]
      exact settled
    · rw [token, start]
    · rw [token, ← same, List.length_append, Nat.add_sub_cancel]
    · rw [left, same, token, openings, ← openings_skipTrivia, found]

/-- The next read begins where the token ends. -/
theorem Cuts.stop {lexer : Lexer} {gap text : List UInt8} (cuts : lexer.Cuts gap text)
    (placed : lexer.Placed) : lexer.read.2.offset = lexer.read.1.stop := by
  have before := placed.offset_add
  have after := placed.read.offset_add
  have lengths := congrArg List.length cuts.unread
  rw [source_read] at after
  rw [List.length_append, List.length_append] at lengths
  rw [Token.stop, cuts.start, cuts.length]
  omega

/-- The bytes before the token, those of the token and those after it. -/
theorem Cuts.bytes {lexer : Lexer} {gap text : List UInt8} (cuts : lexer.Cuts gap text)
    (placed : lexer.Placed) :
    lexer.source.slice lexer.offset (lexer.read.1.start - lexer.offset) = gap ∧
      lexer.read.1.bytes lexer.source = text ∧
        lexer.source.bytes.drop lexer.read.1.stop = lexer.read.2.rest := by
  refine ⟨?_, ?_, ?_⟩
  · rw [Source.slice, placed.drop, cuts.start, Nat.add_sub_cancel_left, cuts.unread,
      List.take_left]
  · rw [Token.bytes, Source.slice, cuts.start, ← List.drop_drop, placed.drop, cuts.unread,
      List.drop_left, cuts.length, List.take_left]
  · rw [← cuts.stop placed, ← source_read, placed.read.drop]

/-- The lexer after that many reads. -/
def after (lexer : Lexer) : Nat → Lexer
  | 0 => lexer
  | reads + 1 => lexer.read.2.after reads

theorem after_succ (lexer : Lexer) (reads : Nat) :
    lexer.after (reads + 1) = (lexer.after reads).read.2 := by
  induction reads generalizing lexer with
  | zero => rfl
  | succ reads ih => exact ih lexer.read.2

theorem source_after (lexer : Lexer) (reads : Nat) : (lexer.after reads).source = lexer.source := by
  induction reads with
  | zero => rfl
  | succ reads ih => rw [after_succ, source_read, ih]

theorem Placed.after {lexer : Lexer} (placed : lexer.Placed) (reads : Nat) :
    (lexer.after reads).Placed := by
  induction reads with
  | zero => exact placed
  | succ reads ih =>
    rw [after_succ]
    exact ih.read

/-- Reading on is reading all: there is a first end token, and up to it the reads give the tokens
that are left. -/
theorem readAll_after (lexer : Lexer) : ∃ count,
    lexer.readAll.1 = (List.range (count + 1)).map (fun reads => (lexer.after reads).read.1) ∧
      (∀ reads < count, (lexer.after reads).read.1.kind ≠ .eof) ∧
        (lexer.after count).read.1.kind = .eof := by
  fun_induction readAll lexer with
  | case1 lexer atEnd => exact ⟨0, rfl, fun _ none => absurd none (Nat.not_lt_zero _), atEnd⟩
  | case2 lexer more tokens last all ih =>
    obtain ⟨count, listed, before, atEnd⟩ := ih
    rw [all] at listed
    refine ⟨count + 1, ?_, ?_, atEnd⟩
    · rw [List.range_succ_eq_map, List.map_cons, List.map_map]
      exact congrArg _ listed
    · intro reads less
      cases reads with
      | zero => exact more
      | succ reads => exact before reads (Nat.lt_of_succ_lt_succ less)

/-- Once the input has run out a read changes nothing. -/
theorem after_exhausted {lexer : Lexer} (exhausted : lexer.rest = []) (reads : Nat) :
    lexer.after reads = lexer := by
  induction reads with
  | zero => rfl
  | succ reads ih => rw [after_succ, ih, read_exhausted exhausted]

theorem after_add (lexer : Lexer) (first second : Nat) :
    lexer.after (first + second) = (lexer.after first).after second := by
  induction second with
  | zero => rfl
  | succ second ih => rw [← Nat.add_assoc, after_succ, after_succ, ih]

end Lexer

namespace Source

/-- The lexer of a source after that many reads. -/
def lexerAfter (source : Source) (reads : Nat) : Lexer :=
  (Lexer.ofSource source).after reads

/-- The token that is read after that many others. -/
def token (source : Source) (reads : Nat) : Token :=
  (source.lexerAfter reads).read.1

/-- Where the token before ends. -/
def gapStart (source : Source) : Nat → Nat
  | 0 => 0
  | reads + 1 => (source.token reads).stop

/-- The bytes between a token and the one before it. -/
def gap (source : Source) (reads : Nat) : List UInt8 :=
  source.slice (source.gapStart reads) ((source.token reads).start - source.gapStart reads)

theorem lexerAfter_succ (source : Source) (reads : Nat) :
    source.lexerAfter (reads + 1) = (source.lexerAfter reads).read.2 :=
  Lexer.after_succ _ reads

@[simp]
theorem source_lexerAfter (source : Source) (reads : Nat) :
    (source.lexerAfter reads).source = source :=
  Lexer.source_after _ reads

theorem lexerAfter_placed (source : Source) (reads : Nat) : (source.lexerAfter reads).Placed :=
  (Lexer.ofSource_placed source).after reads

theorem offset_lexerAfter (source : Source) (reads : Nat) :
    (source.lexerAfter reads).offset = source.gapStart reads := by
  cases reads with
  | zero => exact Nat.sub_self _
  | succ reads =>
    have placed := source.lexerAfter_placed reads
    obtain ⟨gap, text, cuts⟩ := Lexer.read_cuts placed
    rw [lexerAfter_succ, cuts.stop placed]
    rfl

/-- The cut that a read makes, seen in the bytes of the source. -/
theorem token_cuts (source : Source) (reads : Nat) :
    (source.lexerAfter reads).Cuts (source.gap reads) ((source.token reads).bytes source) ∧
      source.bytes.drop (source.token reads).stop = (source.lexerAfter (reads + 1)).rest := by
  have placed := source.lexerAfter_placed reads
  obtain ⟨gap, text, cuts⟩ := Lexer.read_cuts placed
  obtain ⟨before, inside, after⟩ := cuts.bytes placed
  rw [source_lexerAfter, offset_lexerAfter] at before
  rw [source_lexerAfter] at inside after
  rw [lexerAfter_succ]
  refine ⟨?_, after⟩
  change Lexer.Cuts _ (source.slice _ _) (Token.bytes source _)
  rw [token, before, inside]
  exact cuts

/-- After its first end token a lexer does not change. -/
theorem lexerAfter_end {source : Source} {count : Nat}
    (atEnd : (source.token count).kind = .eof) (more : Nat) :
    source.token (count + more) = source.endToken ∧
      source.lexerAfter (count + more + 1) = source.lexerAfter (count + 1) := by
  obtain ⟨isEnd, exhausted⟩ := Lexer.read_end atEnd
  rw [source_lexerAfter] at isEnd
  rw [← lexerAfter_succ] at exhausted
  have unchanged (reads : Nat) :
      source.lexerAfter (count + 1 + reads) = source.lexerAfter (count + 1) := by
    rw [lexerAfter, Lexer.after_add]
    exact Lexer.after_exhausted exhausted reads
  constructor
  · cases more with
    | zero => exact isEnd
    | succ more =>
      rw [token, ← Nat.add_assoc, Nat.add_right_comm, unchanged, Lexer.read_exhausted exhausted,
        source_lexerAfter]
  · rw [Nat.add_right_comm, unchanged]

/-- The end of the input is read as an end token, and a line feed as a newline. -/
theorem token_gap (source : Source) (reads : Nat) :
    Trivia.Gap (source.token reads).kind (source.gap reads) := by
  have cuts := (source.token_cuts reads).1
  apply cuts.trivia
  · intro empty
    rcases cuts.token with ⟨-, atEnd, -⟩ | ⟨fault, found⟩
    · exact atEnd
    · rw [empty] at found
      cases found
  · intro after feed
    rcases cuts.token with ⟨empty, -⟩ | ⟨fault, found⟩
    · rw [feed] at empty
      cases empty
    · rw [feed, Lexeme.read_feed] at found
      exact (congrArg Lexeme.kind (Option.some.inj found)).symm

theorem token_positive (source : Source) {reads : Nat}
    (before : (source.token reads).kind ≠ .eof) : 0 < (source.token reads).length := by
  have cuts := (source.token_cuts reads).1
  rcases cuts.token with ⟨-, atEnd, -⟩ | ⟨fault, found⟩
  · exact absurd atEnd before
  · have shorter := Lexeme.length_read_lt found
    simp only [List.length_append] at shorter
    have length : (source.token reads).length = _ := cuts.length
    omega

/-- The reads of a source give finitely many tokens before the end token, and they give that one for
good. Each token begins at or after the end of the one before, only the end token is empty, and what
lies between is a gap. -/
theorem tokens_tile (source : Source) : ∃ count,
    source.tokens = (List.range (count + 1)).map source.token ∧
      (∀ reads < count, (source.token reads).kind ≠ .eof ∧ 0 < (source.token reads).length) ∧
      (∀ reads, count ≤ reads → source.token reads = ⟨.eof, source.length, 0⟩ ∧
        source.lexerAfter (reads + 1) = source.lexerAfter (count + 1)) ∧
      ∀ reads, source.gapStart reads ≤ (source.token reads).start ∧
        Trivia.Gap (source.token reads).kind (source.gap reads) := by
  obtain ⟨count, listed, before, atEnd⟩ := (Lexer.ofSource source).readAll_after
  refine ⟨count, listed, fun reads less => ⟨before reads less, ?_⟩, fun reads bound => ?_,
    fun reads => ⟨?_, source.token_gap reads⟩⟩
  · exact source.token_positive (before reads less)
  · obtain ⟨more, rfl⟩ := Nat.exists_eq_add_of_le bound
    exact lexerAfter_end atEnd more
  · have start := (source.token_cuts reads).1.start
    rw [offset_lexerAfter] at start
    change (source.token reads).start = _ at start
    omega

end Source
end WrenFront
