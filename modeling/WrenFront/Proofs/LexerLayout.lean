import WrenFront.Proofs.LexemeSpacing
import WrenFront.Proofs.LexerJoining

/-! Spacing between tokens. The texts of the tokens of a source, laid out with other blanks and
comments between them, are read as the same tokens, each where its text has been laid. -/

namespace WrenFront

/-- A token without its place. -/
def Token.content (source : Source) (token : Token) : TokenKind × List UInt8 :=
  (token.kind, token.bytes source)

/-- The error is one of a token. The others are those of comments. -/
def LexicalError.ofToken (error : LexicalError) : Bool :=
  error.fault ≠ .unterminatedBlockComment

/-- The errors of tokens with these faults. -/
def located (faults : List (Option LexicalFault)) (tokens : List Token) : List LexicalError :=
  (faults.zip tokens).filterMap fun (fault, token) => fault.map (⟨·, token.span⟩)

theorem located_cons (fault : Option LexicalFault) (faults : List (Option LexicalFault))
    (token : Token) (tokens : List Token) : located (fault :: faults) (token :: tokens) =
      (fault.map (⟨·, token.span⟩)).toList ++ located faults tokens := by
  cases fault <;> rfl

namespace Lexer
open Trivia (Spacing Loose)

/-- What is wrong with the next token. -/
def fault? (lexer : Lexer) : Option LexicalFault :=
  (Lexeme.read lexer.openings (Trivia.skip lexer.rest).rest).bind Lexeme.fault

/-- The texts of the tokens that are left, without the end token. -/
def texts (lexer : Lexer) : List (List UInt8) :=
  (lexer.readAll.1.filter (·.kind ≠ .eof)).map (·.bytes lexer.source)

/-- Every text with the gap after it. -/
def pieces (lexer : Lexer) (gaps : List (List UInt8)) : List (List UInt8) :=
  List.zipWith (· ++ ·) lexer.texts gaps

/-- The gaps in front of the texts and after each of them. A text cannot grow into the gap after it,
and the texts are apart. -/
structure Layout (lexer : Lexer) (first : List UInt8) (gaps : List (List UInt8)) : Prop where
  length : gaps.length = lexer.texts.length
  spacing : ∀ gap ∈ first :: gaps, Spacing gap
  loose : ∀ gap ∈ gaps, Loose gap
  apart : ∀ gap ∈ gaps.dropLast, gap ≠ []
  /-- A string that is not closed is the last token, and takes whatever follows it. -/
  unclosed : (∃ error ∈ lexer.readAll.2.errors, error.fault = .unterminatedString) →
    ∀ gap ∈ gaps.getLast?, gap = []

variable {lexer laid : Lexer} {first gap : List UInt8} {gaps : List (List UInt8)}

theorem texts_end (atEnd : lexer.read.1.kind = .eof) : lexer.texts = [] := by
  rw [texts, readAll_end atEnd]
  rfl

theorem texts_more (before : lexer.read.1.kind ≠ .eof) :
    lexer.texts = lexer.read.1.bytes lexer.source :: lexer.read.2.texts := by
  rw [texts, texts, readAll_more before, source_read,
    List.filter_cons_of_pos (by simpa using before), List.map_cons]

theorem errors_read (lexer : Lexer) : lexer.read.2.errors = lexer.skipTrivia.errors ++
    (lexer.fault?.map (⟨·, lexer.read.1.span⟩)).toList := by
  rw [read, errors_readLexeme, openings_skipTrivia, rest_skipTrivia]
  rfl

/-- What a read makes of the lexeme after the trivia. -/
theorem read_found {lexeme : Lexeme}
    (found : Lexeme.read lexer.openings (Trivia.skip lexer.rest).rest = some lexeme) :
    lexer.read.1.kind = lexeme.kind ∧ lexer.read.1.start = lexer.skipTrivia.offset ∧
      lexer.read.2.rest = lexeme.rest ∧ lexer.read.2.openings = lexeme.openings := by
  rw [← openings_skipTrivia, ← rest_skipTrivia] at found
  obtain ⟨token, rest, openings⟩ := readLexeme_found found
  exact ⟨congrArg Token.kind token, congrArg Token.start token, rest, openings⟩

theorem bytes_read {lexeme : Lexeme} {text : List UInt8} (placed : lexer.Placed)
    (found : Lexeme.read lexer.openings (Trivia.skip lexer.rest).rest = some lexeme)
    (front : (Trivia.skip lexer.rest).rest = text ++ lexeme.rest) :
    lexer.read.1.bytes lexer.source = text := by
  rw [← openings_skipTrivia, ← rest_skipTrivia] at found
  rw [← rest_skipTrivia] at front
  have unread := placed.skipTrivia.drop
  rw [source_skipTrivia, front] at unread
  rw [read, (readLexeme_found found).1, Token.bytes, Source.slice, unread, front,
    List.length_append, Nat.add_sub_cancel, List.take_left]

theorem fault?_fits {fault : LexicalFault} (found : lexer.fault? = some fault) :
    fault ≠ .unterminatedBlockComment ∧ (fault = .unterminatedString → lexer.read.2.rest = []) := by
  obtain ⟨lexeme, read, faulty⟩ := Option.bind_eq_some_iff.1 found
  have fits := Lexeme.read_fault read
  refine ⟨?_, ?_⟩
  · rintro rfl
    exact fits.notComment faulty
  · rintro rfl
    rw [(read_found read).2.2.1]
    exact fits.unclosed faulty

theorem tokenErrors_read (lexer : Lexer) : lexer.read.2.errors.filter LexicalError.ofToken =
    lexer.errors.filter LexicalError.ofToken ++
      (lexer.fault?.map (⟨·, lexer.read.1.span⟩)).toList := by
  have inToken : (lexer.fault?.map (⟨·, lexer.read.1.span⟩ : _ → LexicalError)).toList.filter
      LexicalError.ofToken = (lexer.fault?.map (⟨·, lexer.read.1.span⟩)).toList := by
    cases found : lexer.fault? with
    | none => rfl
    | some fault => simp [LexicalError.ofToken, (fault?_fits found).1]
  rw [errors_read, errors_skipTrivia, List.filter_append, List.filter_append, inToken]
  cases (Trivia.skip lexer.rest).unclosed <;> simp [LexicalError.ofToken]

theorem exists_lexeme (before : lexer.read.1.kind ≠ .eof) :
    ∃ lexeme, Lexeme.read lexer.openings (Trivia.skip lexer.rest).rest = some lexeme := by
  cases found : Lexeme.read lexer.openings (Trivia.skip lexer.rest).rest with
  | some lexeme => exact ⟨lexeme, rfl⟩
  | none =>
    rw [← openings_skipTrivia, ← rest_skipTrivia] at found
    exact absurd (by simp only [read, readLexeme, found]) before

/-- A text is read as the same token whatever spacing comes before it and after it. -/
theorem read_laid {rest : List UInt8} (placed : lexer.Placed) (placedToo : laid.Placed)
    (before : lexer.read.1.kind ≠ .eof) (same : laid.openings = lexer.openings)
    (unread : laid.rest = gap ++ (lexer.read.1.bytes lexer.source ++ rest)) (spacing : Spacing gap)
    (loose : Loose rest) (terminated : lexer.fault? = some .unterminatedString → rest = []) :
    laid.read.1.content laid.source = lexer.read.1.content lexer.source ∧
      laid.read.1.start = laid.offset + gap.length ∧ laid.read.2.rest = rest ∧
      laid.read.2.openings = lexer.read.2.openings ∧ laid.fault? = lexer.fault? ∧
      (Trivia.skip laid.rest).unclosed = none := by
  obtain ⟨lexeme, found⟩ := exists_lexeme before
  obtain ⟨text, front⟩ := Lexeme.read_suffix found
  obtain ⟨kind, -, -, openings⟩ := read_found found
  have bytes := bytes_read placed found front.symm
  have fault : lexer.fault? = lexeme.fault := by rw [fault?, found, Option.bind_some]
  have settled := Trivia.skip_settled lexer.rest
  rw [fault] at terminated
  rw [bytes] at unread
  rw [← front] at found settled
  have positive : text ≠ [] := by
    rintro rfl
    exact absurd (Lexeme.length_read_lt found) (Nat.lt_irrefl _)
  have skips : Trivia.skip laid.rest = ⟨text ++ rest, none⟩ := by
    rw [unread, spacing.skip, (settled.respaced positive loose).skip]
  have frontToo : (Trivia.skip laid.rest).rest = text ++ rest := by rw [skips]
  have foundToo := Lexeme.read_respaced found rfl loose terminated
  rw [← same, ← frontToo] at foundToo
  obtain ⟨kindToo, start, left, openingsToo⟩ := read_found foundToo
  have bytesToo := bytes_read placedToo foundToo frontToo
  have offset : laid.skipTrivia.offset = laid.offset + gap.length := by
    have whole := placedToo.offset_add
    have part := placedToo.skipTrivia.offset_add
    rw [source_skipTrivia, rest_skipTrivia, frontToo] at part
    rw [unread, List.length_append] at whole
    omega
  refine ⟨?_, start.trans offset, left, openingsToo.trans openings.symm, ?_, by rw [skips]⟩
  · rw [Token.content, Token.content, kind, kindToo, bytes, bytesToo]
  · rw [fault, fault?, foundToo, Option.bind_some]

theorem fault?_end (atEnd : lexer.read.1.kind = .eof) : lexer.fault? = none := by
  rw [fault?, ← rest_skipTrivia, skipTrivia_end atEnd]
  rfl

theorem errors_read_closed (closed : (Trivia.skip lexer.rest).unclosed = none) :
    lexer.read.2.errors = lexer.errors ++ (lexer.fault?.map (⟨·, lexer.read.1.span⟩)).toList := by
  rw [errors_read, skipTrivia_closed closed]

/-- Spacing alone is read as the end. -/
theorem read_spacing (spacing : Spacing lexer.rest) :
    lexer.read.1.kind = .eof ∧ (Trivia.skip lexer.rest).unclosed = none := by
  have skips := spacing.skip []
  rw [List.append_nil] at skips
  have exhausted : lexer.skipTrivia.rest = [] := by rw [rest_skipTrivia, skips]; rfl
  rw [read, readLexeme_empty exhausted, skips]
  exact ⟨rfl, rfl⟩

theorem content_endToken (source : Source) : source.endToken.content source = (.eof, []) := by
  rw [Token.content, Token.bytes, Source.slice, Source.endToken, List.take_zero]

namespace Layout

theorem next (layout : lexer.Layout first (gap :: gaps)) (before : lexer.read.1.kind ≠ .eof) :
    lexer.read.2.Layout gap gaps := by
  have length := layout.length
  rw [texts_more before, List.length_cons, List.length_cons, Nat.add_right_cancel_iff] at length
  refine ⟨length, fun other member => layout.spacing other (List.mem_cons_of_mem _ member),
    fun other member => layout.loose other (List.mem_cons_of_mem _ member), ?_, ?_⟩
  · intro other member
    apply layout.apart other
    cases gaps with
    | nil => cases member
    | cons next gaps => exact List.mem_cons_of_mem _ member
  · intro unclosed other last
    apply layout.unclosed
    · rw [readAll_more before]
      exact unclosed
    · cases gaps with
      | nil => cases last
      | cons next gaps => exact last

/-- What follows a text does not make it longer. -/
theorem loose_next (layout : lexer.Layout first (gap :: gaps)) :
    Loose (gap ++ (lexer.read.2.pieces gaps).flatten) := by
  cases gap with
  | cons byte gap => exact fun other => layout.loose (byte :: gap) List.mem_cons_self other
  | nil =>
    -- Only the last gap is empty.
    cases gaps with
    | cons next gaps => exact absurd rfl (layout.apart [] List.mem_cons_self)
    | nil =>
      rw [pieces, List.zipWith_nil_right]
      exact nofun

theorem unclosed_next (layout : lexer.Layout first (gap :: gaps))
    (before : lexer.read.1.kind ≠ .eof) (unclosed : lexer.fault? = some .unterminatedString) :
    gap ++ (lexer.read.2.pieces gaps).flatten = [] := by
  have exhausted := (fault?_fits unclosed).2 rfl
  have ends : lexer.read.2.texts = [] := texts_end (by rw [read_exhausted exhausted]; rfl)
  have recorded : ⟨.unterminatedString, lexer.read.1.span⟩ ∈ lexer.read.2.errors := by
    rw [errors_read, unclosed]
    simp
  have none := (layout.next before).length
  rw [ends, List.length_nil, List.length_eq_zero_iff] at none
  subst none
  have empty : gap = [] := by
    refine layout.unclosed ⟨⟨.unterminatedString, lexer.read.1.span⟩, ?_, rfl⟩ gap rfl
    rw [readAll_more before]
    exact lexer.read.2.readAll_errors.subset recorded
  rw [empty, pieces, ends]
  rfl

end Layout

theorem pieces_more (before : lexer.read.1.kind ≠ .eof) :
    lexer.pieces (gap :: gaps) =
      (lexer.read.1.bytes lexer.source ++ gap) :: lexer.read.2.pieces gaps := by
  rw [pieces, texts_more before, List.zipWith_cons_cons, pieces]

/-- Reading on, the second lexer gives the tokens of the first at the places where their texts have
been laid, and finds the same faults in them. -/
theorem readAll_laid (layout : lexer.Layout first gaps) (placed : lexer.Placed)
    (placedToo : laid.Placed) (same : laid.openings = lexer.openings)
    (unread : laid.rest = first ++ (lexer.pieces gaps).flatten) :
    laid.readAll.1.map (·.content laid.source) = lexer.readAll.1.map (·.content lexer.source) ∧
      laid.readAll.1.map (·.start) =
        ((lexer.pieces gaps).map List.length).scanl (· + ·) (laid.offset + first.length) ∧
      ∃ faults : List (Option LexicalFault), faults.length = lexer.readAll.1.length ∧
        lexer.readAll.2.errors.filter LexicalError.ofToken =
          lexer.errors.filter LexicalError.ofToken ++ located faults lexer.readAll.1 ∧
        laid.readAll.2.errors = laid.errors ++ located faults laid.readAll.1 := by
  fun_induction Lexer.readAll lexer generalizing laid first gaps with
  | case1 lexer atEnd =>
    have alone : laid.rest = first := by
      rw [unread, pieces, texts_end atEnd, List.zipWith_nil_left, List.flatten_nil, List.append_nil]
    obtain ⟨atEndToo, closed⟩ := read_spacing (alone ▸ layout.spacing first List.mem_cons_self)
    have whole := placedToo.offset_add
    have errors := lexer.tokenErrors_read
    have errorsToo := errors_read_closed closed
    rw [fault?_end atEnd] at errors
    rw [fault?_end atEndToo] at errorsToo
    rw [readAll_end atEndToo, (read_end atEnd).1, pieces, texts_end atEnd]
    refine ⟨?_, ?_, [none], rfl, errors, errorsToo⟩
    · simp only [List.map_cons, List.map_nil, content_endToken]
    · rw [← alone, whole]
      rfl
  | case2 lexer before tokens last all ih =>
    cases gaps with
    | nil =>
      have none := layout.length
      rw [texts_more before] at none
      cases none
    | cons gap gaps =>
      rw [pieces_more before, List.flatten_cons, List.append_assoc] at unread
      obtain ⟨content, start, left, openings, fault, closed⟩ :=
        read_laid placed placedToo before same unread (layout.spacing first List.mem_cons_self)
          layout.loose_next (layout.unclosed_next before)
      have beforeToo : laid.read.1.kind ≠ .eof := by
        rw [(Prod.mk.inj content).1]
        exact before
      have offset : laid.read.2.offset + gap.length = laid.offset + first.length +
          (lexer.read.1.bytes lexer.source ++ gap).length := by
        have whole := placedToo.offset_add
        have part := placedToo.read.offset_add
        rw [unread] at whole
        rw [left, source_read] at part
        simp only [List.length_append] at whole part ⊢
        omega
      obtain ⟨contents, starts, faults, length, errors, errorsToo⟩ :=
        ih (layout.next before) placed.read placedToo.read openings left
      simp only [source_read] at contents
      rw [all] at contents length errors
      rw [readAll_more beforeToo, pieces_more before]
      refine ⟨?_, ?_, lexer.fault? :: faults, congrArg _ length, ?_, ?_⟩
      · rw [List.map_cons, List.map_cons, content, contents]
      · rw [List.map_cons, List.map_cons, List.scanl_cons, start, starts, offset]
      · rw [errors, tokenErrors_read, located_cons, List.append_assoc]
      · rw [errorsToo, errors_read_closed closed, fault, located_cons, List.append_assoc]

/-- Single spaces between texts, and nothing around them. -/
theorem exists_spaces (texts : List (List UInt8)) : ∃ gaps : List (List UInt8),
    gaps.length = texts.length ∧ (∀ gap ∈ gaps, gap = [] ∨ gap = [32]) ∧
      (∀ gap ∈ gaps.dropLast, gap ≠ []) ∧ (∀ gap ∈ gaps.getLast?, gap = []) ∧
        (List.zipWith (· ++ ·) texts gaps).flatten = [32].intercalate texts := by
  induction texts with
  | nil => exact ⟨[], by simp [List.intercalate]⟩
  | cons text texts ih =>
    obtain ⟨gaps, length, spaces, apart, last, joins⟩ := ih
    cases texts with
    | nil => exact ⟨[[]], by simp⟩
    | cons next texts =>
      cases gaps with
      | nil => cases length
      | cons gap gaps =>
        refine ⟨[32] :: gap :: gaps, congrArg (· + 1) length, ?_, ?_, last, ?_⟩
        · intro other member
          rcases List.mem_cons.1 member with rfl | member
          · exact .inr rfl
          · exact spaces other member
        · intro other member
          rcases List.mem_cons.1 member with rfl | member
          · exact List.cons_ne_nil _ _
          · exact apart other member
        · rw [List.zipWith_cons_cons, List.flatten_cons, joins, List.intercalate_cons_cons]

theorem exists_spaced (lexer : Lexer) : ∃ gaps, lexer.Layout [] gaps ∧
    (lexer.pieces gaps).flatten = [32].intercalate lexer.texts := by
  obtain ⟨gaps, length, spaces, apart, last, joins⟩ := exists_spaces lexer.texts
  refine ⟨gaps, ⟨length, ?_, ?_, apart, fun _ => last⟩, joins⟩
  · intro gap member
    rcases List.mem_cons.1 member with rfl | member
    · exact .none
    · rcases spaces gap member with rfl | rfl
      · exact .none
      · exact .blank rfl .none
  · intro gap member
    rcases spaces gap member with rfl | rfl
    · exact nofun
    · rintro _ ⟨⟩
      rfl

end Lexer

/-- The second source has the tokens of the first, and the same errors in them. -/
structure Source.Rereads (source laid : Source) : Prop where
  contents : laid.tokens.map (·.content laid) = source.tokens.map (·.content source)
  errors : ∃ faults : List (Option LexicalFault), faults.length = source.tokens.length ∧
    (Lexer.ofSource source).readAll.2.errors.filter LexicalError.ofToken =
      located faults source.tokens ∧
    (Lexer.ofSource laid).readAll.2.errors = located faults laid.tokens

namespace Source

theorem rereads_laid {source laid : Source} {first : List UInt8} {gaps : List (List UInt8)}
    (layout : (Lexer.ofSource source).Layout first gaps)
    (written : laid.bytes = first ++ ((Lexer.ofSource source).pieces gaps).flatten) :
    source.Rereads laid ∧ laid.tokens.map (·.start) =
      (((Lexer.ofSource source).pieces gaps).map List.length).scanl (· + ·) first.length := by
  obtain ⟨contents, starts, errors⟩ := Lexer.readAll_laid layout (Lexer.ofSource_placed source)
    (Lexer.ofSource_placed laid) rfl written
  have start : (Lexer.ofSource laid).offset = 0 := Nat.sub_self _
  rw [start, Nat.zero_add] at starts
  exact ⟨⟨contents, errors⟩, starts⟩

/-- A source that lays the texts of another's tokens out with any spacing is read as the same
tokens, each where its text has been laid. So is one that has single spaces between the texts. -/
theorem layout_irrelevant (source : Source) :
    let lexer := Lexer.ofSource source
    (∀ (laid : Source) (first : List UInt8) (gaps : List (List UInt8)), lexer.Layout first gaps →
      laid.bytes = first ++ (lexer.pieces gaps).flatten →
        source.Rereads laid ∧ laid.tokens.map (·.start) =
          ((lexer.pieces gaps).map List.length).scanl (· + ·) first.length) ∧
      ∀ spaced : Source, spaced.bytes = [32].intercalate lexer.texts → source.Rereads spaced := by
  intro lexer
  refine ⟨fun laid first gaps layout written => rereads_laid layout written, ?_⟩
  intro spaced written
  obtain ⟨gaps, layout, joins⟩ := lexer.exists_spaced
  exact (rereads_laid layout (written.trans joins.symm)).1

/-- An unexpected character, a string with an interpolation and a comment that is not closed, with
no blanks: `é1_a"%(0x1)"/*`. -/
def crowded : Source :=
  { id := "crowded"
    bytes := [195, 169, 49, 95, 97, 34, 37, 40, 48, 120, 49, 41, 34, 47, 42] }

/-- The same tokens: `/**/é 1<tab>_a /**/"%( 0x1 )" `. -/
def airy : Source :=
  { id := "airy"
    bytes := [47, 42, 42, 47, 195, 169, 32, 49, 9, 95, 97, 32, 47, 42, 42, 47, 34, 37, 40, 32,
      48, 120, 49, 32, 41, 34, 32] }

/-- The same tokens with single spaces: `é 1 _a "%( 0x1 )"`. -/
def singleSpaced : Source :=
  { id := "single spaced"
    bytes := [195, 169, 32, 49, 32, 95, 97, 32, 34, 37, 40, 32, 48, 120, 49, 32, 41, 34] }

theorem crowded_layout : (Lexer.ofSource crowded).Layout [47, 42, 42, 47]
    [[32], [9], [32, 47, 42, 42, 47], [32], [32], [32]] := by
  refine ⟨by decide +kernel, ?_, ?_, by decide, by decide +kernel⟩
  · have comment : Trivia.Spacing [47, 42, 42, 47] := .comment .mark .none
    have spaceComment : Trivia.Spacing [32, 47, 42, 42, 47] := .blank rfl comment
    have space : Trivia.Spacing [32] := .blank rfl .none
    have tab : Trivia.Spacing [9] := .blank rfl .none
    simp [comment, spaceComment, space, tab]
  · simp [Trivia.Loose, ByteClass.isBlank]

theorem crowded_rereads : (Lexer.ofSource crowded).readAll.2.errors.length = 2 ∧
    crowded.Rereads airy ∧ crowded.Rereads singleSpaced := by
  obtain ⟨laid, joined⟩ := crowded.layout_irrelevant
  refine ⟨by decide +kernel, ?_, ?_⟩
  · exact (laid airy _ _ crowded_layout (by decide +kernel)).1
  · exact joined singleSpaced (by decide +kernel)

end Source
end WrenFront
