import WrenFront.Proofs.KindsOnly
import WrenFront.Proofs.LexerLayout
import WrenFront.Proofs.ScriptJoining

/-! Where something can be found wrong with a source. A problem is found at a token, and so is a
lexical error, unless it is a comment that goes on to the end of the source. -/

namespace WrenFront

namespace Trivia

/-- A comment that is not closed is the one that the scanner is in, or one that it meets. -/
theorem skipFrom_comment (place : Place) (text : List UInt8) :
    ∀ length ∈ (skipFrom place text).unclosed,
      (∃ depth passed, place = .blockComment depth passed ∧ length = passed + text.length) ∨
        ∃ tail, 47 :: 42 :: tail <:+ text ∧ length = 2 + tail.length := by
  fun_induction skipFrom place text <;> grind [List.suffix_cons, List.IsSuffix.trans]

theorem skip_comment {text : List UInt8} {length : Nat}
    (unclosed : (skip text).unclosed = some length) :
    ∃ tail, 47 :: 42 :: tail <:+ text ∧ length = 2 + tail.length := by
  rcases skipFrom_comment .betweenTokens text length unclosed with ⟨_, _, inside, _⟩ | met
  · cases inside
  · exact met

end Trivia

theorem Lexer.readAll_last (lexer : Lexer) : ∃ reads, lexer.readAll.2 = lexer.after reads := by
  fun_induction readAll lexer with
  | case1 lexer _ => exact ⟨1, rfl⟩
  | case2 lexer _ tokens last all ih =>
    obtain ⟨reads, same⟩ := ih
    rw [all] at same
    exact ⟨reads + 1, same⟩

namespace Source

/-- Where a lexical error can lie. -/
inductive Erroneous (source : Source) : Span → Prop where
  | token (reads : Nat) : source.Erroneous (source.token reads).span
  /-- A comment that is not closed. -/
  | comment {before tail : List UInt8} (unclosed : source.bytes = before ++ 47 :: 42 :: tail) :
      source.Erroneous ⟨before.length, 2 + tail.length⟩

theorem skipTrivia_erroneous (source : Source) (reads : Nat) {length : Nat}
    (unclosed : (Trivia.skip (source.lexerAfter reads).rest).unclosed = some length) :
    source.Erroneous ⟨(source.lexerAfter reads).skipTrivia.offset - length, length⟩ := by
  have placed := source.lexerAfter_placed reads
  obtain ⟨tail, comment, rfl⟩ := Trivia.skip_comment unclosed
  have exhausted := (Trivia.skipFrom_unclosed .betweenTokens _ _ unclosed).1
  obtain ⟨before, whole⟩ := comment.trans placed
  rw [source_lexerAfter] at whole
  have start : (source.lexerAfter reads).skipTrivia.offset - (2 + tail.length) = before.length := by
    have ends := placed.skipTrivia.offset_add
    have total := congrArg List.length whole
    rw [Lexer.rest_skipTrivia, Trivia.skip, exhausted, Lexer.source_skipTrivia, source_lexerAfter,
      Source.length, ← total] at ends
    simp only [List.length_append, List.length_cons, List.length_nil] at ends
    omega
  rw [start]
  exact .comment whole.symm

/-- How the read of a token comes upon an error. -/
inductive Finds (source : Source) : LexicalError → Prop where
  /-- A comment in front of the token is not closed. -/
  | comment {reads length : Nat}
      (unclosed : (Trivia.skip (source.lexerAfter reads).rest).unclosed = some length) :
      source.Finds ⟨.unterminatedBlockComment,
        ⟨(source.lexerAfter reads).skipTrivia.offset - length, length⟩⟩
  | token {reads : Nat} {fault : LexicalFault}
      (faulty : (source.lexerAfter reads).fault? = some fault) :
      source.Finds ⟨fault, (source.token reads).span⟩

theorem errors_found (source : Source) (reads : Nat) :
    ∀ error ∈ (source.lexerAfter reads).errors, source.Finds error := by
  induction reads with
  | zero => exact fun _ none => absurd none List.not_mem_nil
  | succ reads ih =>
    intro error member
    rw [lexerAfter_succ, Lexer.errors_read, Lexer.errors_skipTrivia, List.mem_append,
      List.mem_append] at member
    rcases member with (before | comment) | fault
    · exact ih error before
    · obtain ⟨length, unclosed, rfl⟩ := Option.map_eq_some_iff.1 (Option.mem_toList.1 comment)
      exact .comment unclosed
    · obtain ⟨fault, faulty, rfl⟩ := Option.map_eq_some_iff.1 (Option.mem_toList.1 fault)
      exact .token faulty

theorem lexicalError_found (source : Source) :
    ∀ error ∈ source.parse.lexicalErrors, source.Finds error := by
  obtain ⟨reads, last⟩ := (Lexer.ofSource source).readAll_last
  rw [parse_lexicalErrors, last]
  exact source.errors_found reads

theorem Finds.erroneous {source : Source} {error : LexicalError} (finds : source.Finds error) :
    source.Erroneous error.span := by
  cases finds with
  | comment unclosed => exact source.skipTrivia_erroneous _ unclosed
  | token _ => exact .token _

theorem lexicalError_erroneous (source : Source) :
    ∀ error ∈ source.parse.lexicalErrors, source.Erroneous error.span :=
  fun error member => (source.lexicalError_found error member).erroneous

theorem gapStart_le_start (source : Source) (reads : Nat) :
    source.gapStart reads ≤ (source.token reads).start := by
  have start := (source.token_cuts reads).1.start
  rw [offset_lexerAfter] at start
  exact start ▸ Nat.le_add_right _ _

theorem token_inside (source : Source) (reads : Nat) :
    (source.token reads).stop ≤ source.length := by
  have placed := (source.lexerAfter_placed (reads + 1)).offset_add
  rw [offset_lexerAfter, source_lexerAfter] at placed
  change source.gapStart (reads + 1) ≤ source.length
  omega

theorem Erroneous.inside {source : Source} {span : Span} (erroneous : source.Erroneous span) :
    span.stop ≤ source.length := by
  cases erroneous with
  | token reads => exact source.token_inside reads
  | comment unclosed =>
    rw [Source.length, unclosed]
    simp only [Span.stop, List.length_append, List.length_cons]
    omega

end Source
end WrenFront
