import WrenFront.Proofs.ParserSimulation

/-! The tokens that a lexer gives, one read after another. They are those of the source up to the
end token, and from there on the end token again and again, so a parser may as well be fed from the
list of them. -/

namespace WrenFront

/-- The token that stands for the end of a source. -/
def Source.endToken (source : Source) : Token :=
  ⟨.eof, source.length, 0⟩

theorem Lexeme.punctuator?_kind {bytes rest : List UInt8} {kind : TokenKind}
    (found : punctuator? bytes = some (kind, rest)) : kind ∈ TokenKind.punctuators := by
  obtain ⟨⟨other, spelling⟩, member, taken⟩ := List.exists_of_findSome?_eq_some found
  simp only [Option.ite_none_right_eq_some, Option.some.injEq, Prod.mk.injEq] at taken
  obtain ⟨listed, inList, spelled⟩ := List.mem_filterMap.1 member
  cases written : listed.spelling? with
  | none => simp [written] at spelled
  | some text =>
    simp only [written, Option.map_some, Option.some.injEq, Prod.mk.injEq] at spelled
    rw [← taken.2.1, ← spelled.1]
    exact inList

theorem Lexeme.stringSegment_kind (openings : List Nat) (bytes : List UInt8) :
    (stringSegment openings bytes).kind ∈ [TokenKind.string, .interpolation] := by
  unfold stringSegment
  split <;> simp

theorem Lexeme.plain_kind (openings : List Nat) (first : UInt8) (rest : List UInt8) :
    (plain openings first rest).kind ≠ .eof := by
  unfold plain
  split
  · simp
  split
  · next kind rest found =>
    have listed := punctuator?_kind found
    change kind ≠ .eof
    rintro rfl
    exact absurd listed (by decide)
  split
  · split <;> simp
  split
  · intro same
    have kind := stringSegment_kind openings rest
    rw [same] at kind
    exact absurd kind (by decide)
  split
  · split <;> simp
  split
  · simp only [name]
    cases found : TokenKind.keyword? (Text.Utf8.text ((first :: rest).takeWhile ByteClass.isWord)) with
    | none => simp
    | some kind =>
      have listed := List.mem_of_find?_eq_some found
      change kind ≠ .eof
      rintro rfl
      exact absurd listed (by decide)
  · simp [unexpected]

/-- Only the end of the input is read as an end token. -/
theorem Lexeme.read_kind {openings : List Nat} {bytes : List UInt8} {lexeme : Lexeme}
    (found : read openings bytes = some lexeme) : lexeme.kind ≠ .eof := by
  cases bytes with
  | nil => simp [read] at found
  | cons first rest =>
    simp only [read] at found
    split at found
    · cases found; simp
    · split at found
      · cases found
        intro same
        have kind := stringSegment_kind ‹_› rest
        rw [same] at kind
        exact absurd kind (by decide)
      · cases found; simp
    · cases found; exact plain_kind openings first rest

theorem Lexeme.read_isSome (openings : List Nat) (first : UInt8) (rest : List UInt8) :
    ∃ lexeme, read openings (first :: rest) = some lexeme := by
  simp only [read]
  split
  · exact ⟨_, rfl⟩
  · split <;> exact ⟨_, rfl⟩
  · exact ⟨_, rfl⟩

namespace Lexer

@[simp]
theorem source_skipTrivia (lexer : Lexer) : lexer.skipTrivia.source = lexer.source := by
  unfold skipTrivia
  dsimp only
  split <;> rfl

theorem source_readLexeme (lexer : Lexer) : lexer.readLexeme.2.source = lexer.source := by
  unfold readLexeme
  dsimp only
  split
  · rfl
  · split <;> rfl

@[simp]
theorem source_read (lexer : Lexer) : lexer.read.2.source = lexer.source :=
  (source_readLexeme lexer.skipTrivia).trans (source_skipTrivia lexer)

/-- A lexeme makes a token of the same kind, as long as the bytes that it takes. -/
theorem readLexeme_found {lexer : Lexer} {lexeme : Lexeme}
    (found : Lexeme.read lexer.openings lexer.rest = some lexeme) :
    lexer.readLexeme.1 = ⟨lexeme.kind, lexer.offset, lexer.rest.length - lexeme.rest.length⟩ ∧
      lexer.readLexeme.2.rest = lexeme.rest ∧ lexer.readLexeme.2.openings = lexeme.openings := by
  simp only [readLexeme, found]
  cases lexeme.fault with
  | none => exact ⟨rfl, rfl, rfl⟩
  | some fault => exact ⟨rfl, rfl, rfl⟩

theorem readLexeme_empty {lexer : Lexer} (empty : lexer.rest = []) :
    lexer.readLexeme = (⟨.eof, lexer.offset, 0⟩, lexer) := by
  simp [readLexeme, empty, Lexeme.read]

/-- An end token is given only where nothing is left after the trivia. -/
theorem skipTrivia_end {lexer : Lexer} (atEnd : lexer.read.1.kind = .eof) :
    lexer.skipTrivia.rest = [] := by
  cases front : lexer.skipTrivia.rest with
  | nil => rfl
  | cons first rest =>
    obtain ⟨lexeme, found⟩ := Lexeme.read_isSome lexer.skipTrivia.openings first rest
    rw [← front] at found
    rw [read, (readLexeme_found found).1] at atEnd
    exact absurd atEnd (Lexeme.read_kind found)

/-- An end token leaves nothing to read, and says so by its place. -/
theorem read_end {lexer : Lexer} (atEnd : lexer.read.1.kind = .eof) :
    lexer.read.1 = lexer.source.endToken ∧ lexer.read.2.rest = [] := by
  have empty := skipTrivia_end atEnd
  rw [read, readLexeme_empty empty, offset, empty, source_skipTrivia]
  exact ⟨rfl, rfl⟩

/-- Past the end nothing changes any more. -/
theorem read_exhausted {lexer : Lexer} (exhausted : lexer.rest = []) :
    lexer.read = (lexer.source.endToken, lexer) := by
  obtain ⟨source, rest, openings, errors⟩ := lexer
  cases exhausted
  simp [read, skipTrivia, Trivia.skip, Trivia.skipFrom, readLexeme, Lexeme.read, offset,
    Source.endToken]

theorem readAll_end {lexer : Lexer} (atEnd : lexer.read.1.kind = .eof) :
    lexer.readAll = ([lexer.source.endToken], lexer.read.2) := by
  rw [readAll, if_pos atEnd, (read_end atEnd).1]

theorem readAll_more {lexer : Lexer} (more : lexer.read.1.kind ≠ .eof) :
    lexer.readAll = (lexer.read.1 :: lexer.read.2.readAll.1, lexer.read.2.readAll.2) := by
  rw [readAll, if_neg more]

/-- The end token is the last of all the tokens, and the only one of its kind. -/
theorem readAll_ends (lexer : Lexer) : ∃ before,
    lexer.readAll.1 = before ++ [lexer.source.endToken] ∧ (∀ token ∈ before, token.kind ≠ .eof) ∧
      lexer.readAll.2.rest = [] := by
  fun_induction readAll lexer with
  | case1 lexer atEnd => exact ⟨[], by simp [read_end atEnd]⟩
  | case2 lexer more tokens last all ih =>
    simp only [all, source_read] at ih
    obtain ⟨before, same, kinds, exhausted⟩ := ih
    refine ⟨lexer.read.1 :: before, by simp [same], ?_, exhausted⟩
    intro token member
    rcases List.mem_cons.1 member with rfl | member
    · exact more
    · exact kinds token member

end Lexer

open Lexer in
theorem Feed.Reads.exhausted {lexer last : Lexer} {tokens : List Token}
    (reads : Reads lexer tokens last) (exhausted : lexer.rest = []) :
    last = lexer ∧ tokens = List.replicate tokens.length lexer.source.endToken := by
  induction reads with
  | none => exact ⟨rfl, rfl⟩
  | @more lexer last tokens rest ih =>
    have same : next lexer = (lexer.source.endToken, lexer) := read_exhausted exhausted
    simp only [same] at ih rest ⊢
    obtain ⟨sameLast, copies⟩ := ih exhausted
    exact ⟨sameLast, by rw [List.length_cons, List.replicate_succ, ← copies]⟩

/-- What is read until some end token is all there is, with copies of the end token after it. -/
theorem Feed.Reads.all {lexer last : Lexer} {tokens : List Token} (reads : Reads lexer tokens last)
    (ended : ∃ token ∈ tokens, token.kind = .eof) :
    last = lexer.readAll.2 ∧ ∃ copies,
      tokens = lexer.readAll.1 ++ List.replicate copies lexer.source.endToken := by
  induction reads with
  | none => simp at ended
  | @more lexer last tokens rest ih =>
    change Reads lexer.read.2 tokens last at rest
    change _ ∧ ∃ copies, lexer.read.1 :: tokens = _
    by_cases atEnd : lexer.read.1.kind = .eof
    · obtain ⟨sameEnd, exhausted⟩ := Lexer.read_end atEnd
      obtain ⟨sameLast, copies⟩ := rest.exhausted exhausted
      rw [Lexer.readAll_end atEnd]
      exact ⟨sameLast, tokens.length, by simpa [sameEnd] using copies⟩
    · have later : ∃ token ∈ tokens, token.kind = .eof := by
        obtain ⟨token, member, kind⟩ := ended
        rcases List.mem_cons.1 member with rfl | member
        · exact absurd kind atEnd
        · exact ⟨token, member, kind⟩
      obtain ⟨sameLast, copies, same⟩ := ih later
      change last = lexer.read.2.readAll.2 at sameLast
      change tokens = lexer.read.2.readAll.1 ++
        List.replicate copies lexer.read.2.source.endToken at same
      rw [Lexer.readAll_more atEnd]
      exact ⟨sameLast, copies, by simpa using same⟩

/-- A list of tokens to be given one by one, and a token to go on with once they run out. -/
structure Reel where
  tokens : List Token
  last : Token

def Reel.next (reel : Reel) : Token × Reel :=
  match reel.tokens with
  | [] => (reel.last, reel)
  | token :: tokens => (token, { reel with tokens })

instance : Feed Reel Token where
  next := Reel.next
  kind := Token.kind
  unread reel := reel.tokens.length

/-- The tokens of a source, read in advance. -/
def Source.reel (source : Source) : Reel :=
  ⟨source.tokens, source.endToken⟩

namespace Feed.Reads

theorem reel_copies (last : Token) (count : Nat) :
    Reads (⟨[], last⟩ : Reel) (List.replicate count last) ⟨[], last⟩ := by
  induction count with
  | zero => exact .none
  | succ count ih => exact .more ih

/-- Whatever a lexer gives, the reel of all its tokens gives too. -/
theorem reel {lexer last : Lexer} {tokens : List Token} (reads : Reads lexer tokens last) :
    ∃ image, Reads (⟨lexer.readAll.1, lexer.source.endToken⟩ : Reel) tokens image := by
  induction reads with
  | none => exact ⟨_, .none⟩
  | @more lexer last tokens rest ih =>
    change Reads lexer.read.2 tokens last at rest
    change ∃ image, Reads _ (lexer.read.1 :: tokens) image
    by_cases atEnd : lexer.read.1.kind = .eof
    · obtain ⟨sameEnd, exhausted⟩ := Lexer.read_end atEnd
      have copies := (rest.exhausted exhausted).2
      rw [Lexer.source_read] at copies
      rw [Lexer.readAll_end atEnd, sameEnd, copies]
      exact ⟨_, .more (reel_copies _ _)⟩
    · obtain ⟨image, reads⟩ := ih
      change Reads (⟨lexer.read.2.readAll.1, lexer.read.2.source.endToken⟩ : Reel) tokens image
        at reads
      rw [Lexer.source_read] at reads
      rw [Lexer.readAll_more atEnd]
      exact ⟨image, .more reads⟩

/-- A lexer gives no more tokens than it has bytes before it comes to the end. -/
theorem lexer_left {lexer last : Lexer} {tokens : List Token} (reads : Reads lexer tokens last) :
    ∀ token ∈ tokens.drop lexer.rest.length, token.kind = .eof := by
  induction reads with
  | none => simp
  | @more lexer last tokens rest ih =>
    change Reads lexer.read.2 tokens last at rest
    change ∀ token ∈ (lexer.read.1 :: tokens).drop lexer.rest.length, token.kind = .eof
    change ∀ token ∈ tokens.drop lexer.read.2.rest.length, token.kind = .eof at ih
    intro token member
    by_cases atEnd : lexer.read.1.kind = .eof
    · obtain ⟨sameEnd, exhausted⟩ := Lexer.read_end atEnd
      have copies := (rest.exhausted exhausted).2
      rcases List.mem_cons.1 (List.mem_of_mem_drop member) with rfl | member
      · exact atEnd
      · rw [copies] at member
        rw [List.eq_of_mem_replicate member]
        rfl
    · have shorter := Lexer.length_read_lt lexer atEnd
      obtain ⟨length, same⟩ : ∃ length, lexer.rest.length = length + 1 :=
        ⟨lexer.rest.length - 1, by omega⟩
      rw [same, List.drop_succ_cons] at member
      exact ih token ((List.drop_sublist_drop_left tokens (by omega)).subset member)

theorem reel_left {reel last : Reel} {tokens : List Token} (reads : Reads reel tokens last)
    (atEnd : reel.last.kind = .eof) : ∀ token ∈ tokens.drop reel.tokens.length, token.kind = .eof := by
  induction reads with
  | none => simp
  | @more reel last tokens rest ih =>
    intro token member
    obtain ⟨list, final⟩ := reel
    cases list with
    | nil =>
      rcases List.mem_cons.1 member with rfl | member
      · exact atEnd
      · exact ih atEnd token member
    | cons first list => exact ih atEnd token member

end Feed.Reads

namespace ParserState
variable {σ τ : Type} [Feed σ τ]

theorem ofFeed_takes (feed : σ) :
    Takes { feed, rounds := Feed.unread feed + 2 } [] (ofFeed feed) :=
  (Parse.lookahead_takes _).1

/-- A feed that knows how many tokens it has left has room for the loops. -/
theorem unread_roomy {feed : σ} (left : ∀ read last, Feed.Reads feed read last →
    ∀ token ∈ read.drop (Feed.unread feed), Feed.kind σ token = .eof) :
    Roomy { feed, rounds := Feed.unread feed + 2 : ParserState σ τ } := by
  refine ⟨Feed.unread feed, ?_, left⟩
  change Feed.unread feed < Feed.unread feed + 2
  omega

theorem ofLexer_roomy (lexer : Lexer) : (ofFeed lexer).Roomy :=
  (ofFeed_takes lexer).roomy (unread_roomy fun _ _ reads => reads.lexer_left)

theorem ofReel_roomy {reel : Reel} (atEnd : reel.last.kind = .eof) : (ofFeed reel).Roomy :=
  (ofFeed_takes reel).roomy (unread_roomy fun _ _ reads => reads.reel_left atEnd)

/-- Parsers that start on corresponding feeds start out alike. -/
theorem ofFeed_alike {ρ υ : Type} [Feed ρ υ] {f : τ → υ} {feed : σ} {mirror : ρ}
    (kinds : ∀ token, Feed.kind ρ (f token) = Feed.kind σ token)
    (mirrors : Feed.Mirrors f feed mirror)
    (roomy : Roomy { feed, rounds := Feed.unread feed + 2 : ParserState σ τ })
    (mirrorRoomy : Roomy { feed := mirror, rounds := Feed.unread mirror + 2 : ParserState ρ υ }) :
    Mirrors f (ofFeed feed) (ofFeed mirror) := by
  refine (Parse.lookahead_agrees _ _ ?_).2
  exact ⟨kinds, mirrors, rfl, fun _ => rfl, rfl, rfl, roomy, mirrorRoomy⟩

/-- A parser on a lexer and one on the tokens read in advance start out alike. -/
theorem ofFeed_mirrors (source : Source) :
    Mirrors id (ofFeed (Lexer.ofSource source)) (ofFeed source.reel) := by
  have feed : Feed.Mirrors id (Lexer.ofSource source) source.reel := by
    intro tokens last reads
    rw [List.map_id]
    exact reads.reel
  exact ofFeed_alike (fun _ => rfl) feed (unread_roomy fun _ _ reads => reads.lexer_left)
    (unread_roomy fun _ _ reads => reads.reel_left rfl)

end ParserState

/-- Parsing a source is parsing its tokens, read in advance. -/
theorem Source.parse_reel (source : Source) :
    source.parse.module = (Parse.module (ParserState.ofFeed source.reel)).1 ∧
      source.parse.problems = (Parse.module (ParserState.ofFeed source.reel)).2.problems := by
  obtain ⟨module, mirrors⟩ := Parse.module_agrees _ _ (ParserState.ofFeed_mirrors source)
  have problems := mirrors.problems
  rw [Module.mapTokens_id] at module
  rw [Problem.mapTokens_id] at problems
  exact ⟨module.symm, problems.symm⟩

end WrenFront
