import WrenFront.Proofs.StringSegments

/-! The errors of a lexer, matched with its tokens. They are found on the way, some in a token and
some in front of one; reading to the end finds an error for every token that is not sound, in their
order, and a comment that is not closed comes after all of them. -/

namespace WrenFront

namespace LexicalFault

/-- A string or a comment that the input ends in. -/
def isUnterminated : LexicalFault → Bool
  | .unexpectedCharacter _ => false
  | .unterminatedString | .unterminatedBlockComment => true

end LexicalFault

namespace Trivia

/-- Blanks and closed comments. -/
inductive Passed : List UInt8 → Prop where
  | none : Passed []
  | blank {byte text} (isBlank : ByteClass.isBlank byte) (others : Passed text) :
      Passed (byte :: text)
  | comment {tail text} (closed : CommentTail tail) (others : Passed text) :
      Passed (47 :: 42 :: tail ++ text)

/-- A comment that begins in the text is never closed. -/
def OpenEnded (text : List UInt8) : Prop :=
  ∃ before comment, text = before ++ 47 :: 42 :: comment ∧ Passed before ∧ Unclosed comment

theorem skip_blank {byte : UInt8} (isBlank : ByteClass.isBlank byte) (text : List UInt8) :
    skip (byte :: text) = skip text := by
  have slash : byte ≠ 47 := by
    rintro rfl
    exact absurd isBlank (by decide)
  rw [skip_byte, if_pos isBlank]
  · rintro ⟨rest, same⟩
    exact slash (List.cons.inj same).1
  · rintro ⟨rest, same⟩
    exact slash (List.cons.inj same).1

theorem skip_closed {tail : List UInt8} (closed : CommentTail tail) (text : List UInt8) :
    skip (47 :: 42 :: tail ++ text) = skip text :=
  closed.skipFrom 0 2 text

theorem Passed.skip {before : List UInt8} (passed : Passed before) (text : List UInt8) :
    Trivia.skip (before ++ text) = Trivia.skip text := by
  induction passed with
  | none => rfl
  | blank isBlank _ ih => rw [List.cons_append, skip_blank isBlank, ih]
  | comment closed _ ih => rw [List.append_assoc, skip_closed closed, ih]

theorem Gap.openEnded {next : TokenKind} {text : List UInt8} (gap : Gap next text)
    (unclosed : (skip text).unclosed.isSome) : OpenEnded text := by
  induction gap with
  | none => cases unclosed
  | blank isBlank others ih =>
    rw [skip_blank isBlank] at unclosed
    obtain ⟨before, comment, rfl, passed, opened⟩ := ih unclosed
    exact ⟨_ :: before, comment, rfl, .blank isBlank passed, opened⟩
  | blockComment closed others ih =>
    rw [skip_closed closed] at unclosed
    obtain ⟨before, comment, rfl, passed, opened⟩ := ih unclosed
    exact ⟨_ ++ before, comment, by simp, .comment closed passed, opened⟩
  | @lineComment text oneLine ends =>
    have skips : skip (47 :: 47 :: text) = ⟨text.dropWhile (· ≠ 10), .none⟩ :=
      skipFrom_lineComment text
    rw [skips] at unclosed
    cases unclosed
  | @unclosedComment text opened ends => exact ⟨[], text, rfl, .none, opened⟩

/-- A comment that is not closed takes all that is left. -/
theorem skip_exhausted {text : List UInt8} {length : Nat}
    (found : (skip text).unclosed = some length) : (skip text).rest = [] :=
  (skipFrom_unclosed .betweenTokens text length found).1

/-- The scanner ends in a comment exactly if one is never closed. -/
theorem skip_unclosed (text : List UInt8) : (skip text).unclosed.isSome ↔ OpenEnded text := by
  constructor
  · intro unclosed
    obtain ⟨length, found⟩ := Option.isSome_iff_exists.1 unclosed
    obtain ⟨gap, same, before⟩ := skip_gap text
    rw [skip_exhausted found, List.append_nil] at same
    subst same
    exact (before .eof (fun _ => rfl) (by simp [skip_exhausted found])).openEnded unclosed
  · rintro ⟨before, comment, rfl, passed, opened⟩
    have skips : skip (47 :: 42 :: comment) = ⟨[], some (2 + comment.length)⟩ :=
      opened.skipFrom 0 2
    rw [passed.skip, skips]
    rfl

end Trivia

/-- The last of the tokens before the end token. -/
def Token.last? (tokens : List Token) : Option Token :=
  tokens.dropLast.getLast?

theorem Token.last?_cons (token : Token) {tokens : List Token} (more : tokens ≠ []) :
    last? (token :: tokens) = some ((last? tokens).getD token) := by
  rw [last?, List.dropLast_cons_of_ne_nil more, List.getLast?_cons, last?]

namespace Lexer

/-- The tokens that are left, and the errors that reading them finds. -/
structure Matched (lexer : Lexer) (tokens : List Token) (errors : List LexicalError) : Prop where
  ahead : ∀ error ∈ errors, lexer.offset ≤ error.span.start
  ordered : errors.Pairwise fun earlier later =>
    earlier.span.start < later.span.start ∧ earlier.span.stop ≤ later.span.start
  strays : (errors.filter fun error => !error.fault.isUnterminated).map LexicalError.span =
    (tokens.filter (·.kind = .error)).map Token.span
  single : errors.countP (·.fault.isUnterminated) ≤ 1
  final : ∀ error ∈ errors, error.fault.isUnterminated →
    errors.getLast? = some error ∧ error.span.stop = lexer.source.length
  string : ∀ error ∈ errors, error.fault = .unterminatedString →
    ∃ token, Token.last? tokens = some token ∧ token.kind = .string ∧ error.span = token.span
  literal : (∃ error ∈ errors, error.fault = .unterminatedString) ↔
    ∃ token, Token.last? tokens = some token ∧ token.kind = .string ∧
      ¬ Lexeme.ClosedByQuote (token.bytes lexer.source)
  comment : (∃ error ∈ errors, error.fault = .unterminatedBlockComment) ↔
    Trivia.OpenEnded (lexer.source.bytes.drop
      ((Token.last? tokens).elim lexer.offset Token.stop))

variable {lexer : Lexer}

/-- What can be wrong with a token. -/
theorem fault?_cases (placed : lexer.Placed) (more : lexer.read.1.kind ≠ .eof) :
    (lexer.fault? = none ∧ lexer.read.1.kind ≠ .error ∧ (lexer.read.1.kind = .string →
        Lexeme.ClosedByQuote (lexer.read.1.bytes lexer.source))) ∨
      (∃ char, lexer.fault? = some (.unexpectedCharacter char) ∧ lexer.read.1.kind = .error) ∨
      (lexer.fault? = some .unterminatedString ∧ lexer.read.1.kind = .string ∧
        ¬ Lexeme.ClosedByQuote (lexer.read.1.bytes lexer.source) ∧ lexer.read.2.rest = []) := by
  have found := read_lexeme placed more
  generalize lexer.read.1.kind = kind, lexer.fault? = fault at found ⊢
  cases fault with
  | none =>
    refine .inl ⟨rfl, fun isError => ?_, ?_⟩
    · obtain ⟨char, faulty⟩ := Lexeme.read_error found isError
      cases faulty
    · rintro rfl
      rcases Lexeme.read_literal found with ⟨closed, -⟩ | ⟨-, faulty, -⟩
      · exact closed
      · cases faulty
  | some fault =>
    cases fault with
    | unexpectedCharacter char =>
      obtain ⟨lead, rest, -, stray⟩ := Lexeme.read_unexpected found rfl
      exact .inr (.inl ⟨char, rfl, congrArg Lexeme.kind stray⟩)
    | unterminatedString =>
      obtain rfl : kind = .string := Lexeme.read_unterminated found rfl
      rcases Lexeme.read_literal found with ⟨-, faulty⟩ | ⟨unclosed, -, exhausted⟩
      · cases faulty
      · exact .inr (.inr ⟨rfl, rfl, unclosed, exhausted⟩)
    | unterminatedBlockComment => exact absurd rfl (Lexeme.read_fault found).notComment

/-- A comment that is not closed is only found at the end, and reaches up to it. -/
theorem comment_found (placed : lexer.Placed) {length : Nat}
    (found : (Trivia.skip lexer.rest).unclosed = some length) :
    lexer.offset + length ≤ lexer.skipTrivia.offset ∧
      lexer.skipTrivia.offset = lexer.source.length ∧ lexer.skipTrivia.rest = [] := by
  have exhausted : lexer.skipTrivia.rest = [] := by
    rw [rest_skipTrivia, Trivia.skip_exhausted found]
  have bound := (Trivia.skipFrom_unclosed .betweenTokens lexer.rest length found).2
  change length ≤ 0 + lexer.rest.length at bound
  have whole := placed.offset_add
  have part := placed.skipTrivia.offset_add
  rw [source_skipTrivia, exhausted, List.length_nil] at part
  exact ⟨by omega, part, exhausted⟩

/-- At the end there is only a comment to be found. -/
theorem Matched.atEnd (placed : lexer.Placed) (atEnd : lexer.read.1.kind = .eof) :
    lexer.Matched [lexer.read.1]
      ((Trivia.skip lexer.rest).unclosed.map fun length => ⟨.unterminatedBlockComment,
        ⟨lexer.skipTrivia.offset - length, length⟩⟩ : Option LexicalError).toList := by
  have ended := Trivia.skip_unclosed lexer.rest
  have rest : lexer.source.bytes.drop lexer.offset = lexer.rest := placed.drop
  cases found : (Trivia.skip lexer.rest).unclosed with
  | none =>
    rw [found] at ended
    constructor <;> simp_all [Token.last?]
  | some length =>
    obtain ⟨inside, whole, -⟩ := comment_found placed found
    rw [found] at ended
    constructor <;> simp_all [Token.last?, Span.stop, LexicalFault.isUnterminated]
    all_goals omega

theorem offset_read (placed : lexer.Placed) (more : lexer.read.1.kind ≠ .eof) :
    lexer.offset ≤ lexer.read.1.start ∧ lexer.read.1.start < lexer.read.1.stop ∧
      lexer.read.2.offset = lexer.read.1.stop := by
  obtain ⟨gap, text, cuts⟩ := read_cuts placed
  refine ⟨cuts.start ▸ Nat.le_add_right _ _, ?_, cuts.stop placed⟩
  rcases cuts.token with ⟨-, atEnd, -⟩ | ⟨fault, found⟩
  · exact absurd atEnd more
  · have shorter := Lexeme.length_read_lt found
    rw [List.length_append, ← cuts.length] at shorter
    exact Nat.lt_add_of_pos_right (by simpa using shorter)

section Step
variable {tokens : List Token} {errors : List LexicalError}

theorem unclosed_next (others : tokens ≠ [])
    (closed : lexer.read.1.kind = .string →
      Lexeme.ClosedByQuote (lexer.read.1.bytes lexer.source)) :
    (∃ token, Token.last? (lexer.read.1 :: tokens) = some token ∧ token.kind = .string ∧
        ¬ Lexeme.ClosedByQuote (token.bytes lexer.source)) ↔
      ∃ token, Token.last? tokens = some token ∧ token.kind = .string ∧
        ¬ Lexeme.ClosedByQuote (token.bytes lexer.source) := by
  rw [Token.last?_cons _ others]
  cases Token.last? tokens with
  | some last => rfl
  | none =>
    refine iff_of_false ?_ nofun
    rintro ⟨token, same, literal, unclosed⟩
    cases same
    exact unclosed (closed literal)

theorem last_next {token : Token} (others : tokens ≠ []) (last : Token.last? tokens = some token) :
    Token.last? (lexer.read.1 :: tokens) = some token := by
  rw [Token.last?_cons _ others, last]
  rfl

/-- What is left after the last token does not depend on where the first one is. -/
theorem after_next (others : tokens ≠ []) (ends : lexer.read.2.offset = lexer.read.1.stop) :
    (Token.last? (lexer.read.1 :: tokens)).elim lexer.offset Token.stop =
      (Token.last? tokens).elim lexer.read.2.offset Token.stop := by
  rw [Token.last?_cons _ others, ends]
  cases Token.last? tokens <;> rfl

/-- A token without a fault adds nothing. -/
theorem Matched.sound (matched : lexer.read.2.Matched tokens errors) (placed : lexer.Placed)
    (more : lexer.read.1.kind ≠ .eof) (others : tokens ≠ []) (known : lexer.read.1.kind ≠ .error)
    (closed : lexer.read.1.kind = .string →
      Lexeme.ClosedByQuote (lexer.read.1.bytes lexer.source)) :
    lexer.Matched (lexer.read.1 :: tokens) errors := by
  obtain ⟨begins, positive, ends⟩ := offset_read placed more
  refine ⟨fun error member => ?_, matched.ordered, ?_, matched.single, ?_, ?_, ?_, ?_⟩
  · exact Nat.le_trans (by omega) (matched.ahead error member)
  · rw [matched.strays, List.filter_cons_of_neg (by simpa using known)]
  · simpa [source_read] using matched.final
  · intro error member fault
    obtain ⟨token, last, literal⟩ := matched.string error member fault
    exact ⟨token, last_next others last, literal⟩
  · rw [unclosed_next others closed, matched.literal, source_read]
  · rw [matched.comment, source_read, after_next others ends]

/-- An unexpected character comes before all that is found later. -/
theorem Matched.stray (matched : lexer.read.2.Matched tokens errors) (placed : lexer.Placed)
    (others : tokens ≠ []) (isError : lexer.read.1.kind = .error) (char : Char) :
    lexer.Matched (lexer.read.1 :: tokens)
      (⟨.unexpectedCharacter char, lexer.read.1.span⟩ :: errors) := by
  have more : lexer.read.1.kind ≠ .eof := by rw [isError]; exact nofun
  have closed (literal : lexer.read.1.kind = .string) :
      Lexeme.ClosedByQuote (lexer.read.1.bytes lexer.source) := by
    cases isError.symm.trans literal
  obtain ⟨begins, positive, ends⟩ := offset_read placed more
  refine ⟨?_, ?_, ?_, ?_, ?_, ?_, ?_, ?_⟩
  · refine List.forall_mem_cons.2 ⟨begins, fun error member => ?_⟩
    exact Nat.le_trans (by omega) (matched.ahead error member)
  · refine List.pairwise_cons.2 ⟨fun error member => ?_, matched.ordered⟩
    have ahead := matched.ahead error member
    rw [ends] at ahead
    exact ⟨Nat.lt_of_lt_of_le positive ahead, ahead⟩
  · rw [List.filter_cons_of_pos rfl, List.filter_cons_of_pos (by simpa using isError),
      List.map_cons, List.map_cons, matched.strays]
  · exact matched.single
  · refine List.forall_mem_cons.2 ⟨nofun, fun error member fault => ?_⟩
    obtain ⟨last, stop⟩ := matched.final error member fault
    exact ⟨by rw [List.getLast?_cons, last]; rfl, stop.trans (by rw [source_read])⟩
  · refine List.forall_mem_cons.2 ⟨nofun, fun error member fault => ?_⟩
    obtain ⟨token, last, literal⟩ := matched.string error member fault
    exact ⟨token, last_next others last, literal⟩
  · rw [unclosed_next others closed, ← source_read, ← matched.literal]
    simp
  · rw [after_next others ends, ← source_read, ← matched.comment]
    simp

/-- A string that is not closed is the last token, and nothing is found after it. -/
theorem Matched.unterminated (placed : lexer.Placed) (literal : lexer.read.1.kind = .string)
    (unclosed : ¬ Lexeme.ClosedByQuote (lexer.read.1.bytes lexer.source))
    (exhausted : lexer.read.2.rest = []) (last : Token) (atEnd : last.kind = .eof) :
    lexer.Matched [lexer.read.1, last] [⟨.unterminatedString, lexer.read.1.span⟩] := by
  have more : lexer.read.1.kind ≠ .eof := by rw [literal]; exact nofun
  obtain ⟨begins, -, ends⟩ := offset_read placed more
  have stop : lexer.read.1.stop = lexer.source.length := by
    have whole := placed.read.offset_add
    rwa [exhausted, ends, source_read] at whole
  have nothing : ¬ Trivia.OpenEnded (lexer.source.bytes.drop lexer.read.1.stop) := by
    rw [← ends, ← source_read, placed.read.drop, exhausted, ← Trivia.skip_unclosed]
    exact nofun
  have here : Token.last? [lexer.read.1, last] = some lexer.read.1 := rfl
  refine ⟨?_, List.pairwise_singleton _ _, ?_, ?_, ?_, ?_, ?_, ?_⟩
  · exact List.forall_mem_singleton.2 begins
  · simp [LexicalFault.isUnterminated, literal, atEnd]
  · simp [LexicalFault.isUnterminated]
  · exact List.forall_mem_singleton.2 fun _ => ⟨rfl, stop⟩
  · simpa using ⟨_, here, literal, rfl⟩
  · simpa [here] using ⟨literal, unclosed⟩
  · simpa [here] using nothing

end Step

/-- There is a token after a comment that is closed. -/
theorem comment_closed (placed : lexer.Placed) (more : lexer.read.1.kind ≠ .eof) :
    (Trivia.skip lexer.rest).unclosed = none := by
  cases found : (Trivia.skip lexer.rest).unclosed with
  | none => rfl
  | some length =>
    obtain ⟨-, -, exhausted⟩ := comment_found placed found
    exact absurd (by rw [read, readLexeme_empty exhausted]) more

theorem readAll_ne_nil (lexer : Lexer) : lexer.readAll.1 ≠ [] := by
  unfold readAll
  split <;> exact List.cons_ne_nil _ _

theorem readAll_exhausted (exhausted : lexer.rest = []) :
    lexer.readAll = ([lexer.source.endToken], lexer) := by
  have atEnd : lexer.read.1.kind = .eof := by rw [read_exhausted exhausted]; rfl
  rw [readAll, if_pos atEnd, read_exhausted exhausted]

/-- Reading to the end finds errors that match the tokens. -/
theorem readAll_matched (placed : lexer.Placed) : ∃ errors,
    lexer.readAll.2.errors = lexer.errors ++ errors ∧ lexer.Matched lexer.readAll.1 errors := by
  fun_induction readAll lexer with
  | case1 lexer atEnd =>
    refine ⟨_, ?_, .atEnd placed atEnd⟩
    rw [errors_read, fault?_end atEnd, errors_skipTrivia]
    simp
  | case2 lexer more tokens last all ih =>
    obtain ⟨errors, found, matched⟩ := ih placed.read
    have others := lexer.read.2.readAll_ne_nil
    rw [all] at found matched others
    rw [errors_read_closed (comment_closed placed more)] at found
    rcases fault?_cases placed more with ⟨sound, known, quoted⟩ | ⟨char, stray, isError⟩ |
      ⟨faulty, literal, unclosed, exhausted⟩
    · refine ⟨errors, ?_, matched.sound placed more others known quoted⟩
      rw [found, sound]
      simp
    · refine ⟨_, ?_, matched.stray placed others isError char⟩
      rw [found, stray]
      simp
    · -- Nothing is left, so there is only the end token and nothing more to be found.
      rw [readAll_exhausted exhausted] at all
      obtain ⟨rfl, rfl⟩ := Prod.mk.inj all
      refine ⟨_, ?_, .unterminated placed literal unclosed exhausted _ rfl⟩
      rw [errors_read_closed (comment_closed placed more), faulty]
      rfl

end Lexer

namespace Source

/-- The lexical errors of a source are in order and apart. Its unexpected characters are its error
tokens. A string or a comment that is not terminated comes last and reaches up to the end: the
string is the last token, unless a quote closes that, and the comment follows it. -/
theorem lexicalErrors_matched (source : Source) :
    (Lexer.ofSource source).Matched source.tokens (Lexer.ofSource source).readAll.2.errors := by
  obtain ⟨errors, found, matched⟩ := Lexer.readAll_matched (Lexer.ofSource_placed source)
  rw [found]
  exact matched

end Source
end WrenFront
