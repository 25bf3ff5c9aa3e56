import WrenFront.Proofs.LexerStream

/-! How the lexer's stack of open interpolations goes along with the tokens it gives. A string segment
that ends in `%(` opens an interpolation, and a segment that begins with `)` closes one, so at any
time the stack is as high as the one count exceeds the other. -/

namespace WrenFront

theorem Trivia.skipFrom_suffix (place : Place) (bytes : List UInt8) :
    (skipFrom place bytes).rest <:+ bytes := by
  fun_induction skipFrom place bytes <;> grind [List.suffix_cons, List.IsSuffix.trans]

/-- The kinds of the segments of string literals. -/
def stringKinds : List TokenKind :=
  [.string, .interpolation]

namespace Lexeme

theorem punctuator?_suffix {bytes rest : List UInt8} {kind : TokenKind}
    (found : punctuator? bytes = some (kind, rest)) : rest <:+ bytes := by
  obtain ⟨⟨other, spelling⟩, member, taken⟩ := List.exists_of_findSome?_eq_some found
  simp only [Option.ite_none_right_eq_some, Option.some.injEq, Prod.mk.injEq] at taken
  rw [← taken.2.2]
  exact List.drop_suffix _ _

theorem stringTail_suffix (bytes : List UInt8) : (stringTail bytes).2 <:+ bytes := by
  fun_induction stringTail bytes <;> grind [List.suffix_cons, List.IsSuffix.trans]

theorem stringSegment_suffix (openings : List Nat) (bytes : List UInt8) :
    (stringSegment openings bytes).rest <:+ bytes := by
  have suffix := stringTail_suffix bytes
  unfold stringSegment
  split <;> simp_all

theorem plain_suffix (openings : List Nat) (first : UInt8) (rest : List UInt8) :
    (plain openings first rest).rest <:+ first :: rest := by
  have further {bytes : List UInt8} (suffix : bytes <:+ rest) : bytes <:+ first :: rest :=
    suffix.trans (List.suffix_cons _ _)
  unfold plain
  split
  · exact List.suffix_cons _ _
  split
  · next found => exact punctuator?_suffix found
  split
  · split
    · exact further ((List.dropWhile_suffix _).trans (List.suffix_cons _ _))
    · exact further (List.dropWhile_suffix _)
  split
  · exact further (stringSegment_suffix openings rest)
  split
  · split
    · exact further ((List.dropWhile_suffix _).trans (List.suffix_cons _ _))
    · exact further (List.dropWhile_suffix _)
  split
  · exact List.dropWhile_suffix _
  · exact further (List.drop_suffix _ _)

theorem read_suffix {openings : List Nat} {bytes : List UInt8} {lexeme : Lexeme}
    (found : read openings bytes = some lexeme) : lexeme.rest <:+ bytes := by
  cases bytes with
  | nil => simp [read] at found
  | cons first rest =>
    simp only [read] at found
    split at found
    · cases found
      exact List.suffix_cons _ _
    · split at found
      · cases found
        exact (stringSegment_suffix _ rest).trans (List.suffix_cons _ _)
      · cases found
        exact List.suffix_cons _ _
    · cases found
      exact plain_suffix openings first rest

theorem stringSegment_openings (openings : List Nat) (bytes : List UInt8) :
    (stringSegment openings bytes).openings.length =
      openings.length + if (stringSegment openings bytes).kind = .interpolation then 1 else 0 := by
  unfold stringSegment
  split <;> simp

/-- Apart from the closing of an interpolation, only a quote begins a string segment. -/
theorem plain_strings (openings : List Nat) (first : UInt8) (rest : List UInt8) :
    (first = 34 ∧ plain openings first rest = stringSegment openings rest) ∨
      ((plain openings first rest).kind ∉ stringKinds ∧
        (plain openings first rest).openings = openings) := by
  unfold plain
  split
  · exact .inr ⟨by simp [stringKinds], rfl⟩
  split
  · next kind rest found =>
    have listed := punctuator?_kind found
    have apart : ∀ kind ∈ TokenKind.punctuators, kind ∉ stringKinds := by decide
    exact .inr ⟨apart kind listed, rfl⟩
  split
  · split <;> exact .inr ⟨by simp [stringKinds], rfl⟩
  split
  · next quote => exact .inl ⟨quote, rfl⟩
  split
  · split <;> exact .inr ⟨by simp [stringKinds], rfl⟩
  split
  · refine .inr ⟨?_, rfl⟩
    simp only [name]
    cases found : TokenKind.keyword?
        (Text.Utf8.text ((first :: rest).takeWhile ByteClass.isWord)) with
    | none => simp [stringKinds]
    | some kind =>
      have apart : ∀ kind ∈ TokenKind.keywords, kind ∉ stringKinds := by decide
      exact apart kind (List.mem_of_find?_eq_some found)
  · exact .inr ⟨by simp [unexpected, stringKinds], rfl⟩

/-- One lexeme opens at most one interpolation and closes at most one. -/
theorem read_balance {openings : List Nat} {first : UInt8} {rest : List UInt8} {lexeme : Lexeme}
    (found : read openings (first :: rest) = some lexeme) :
    (lexeme.kind ∈ stringKinds → first = 34 ∨ first = 41) ∧
      lexeme.openings.length + (if lexeme.kind ∈ stringKinds ∧ first = 41 then 1 else 0) =
        openings.length + if lexeme.kind = .interpolation then 1 else 0 := by
  simp only [read] at found
  split at found
  · cases found
    simp [stringKinds]
  · split at found
    · cases found
      next outer _ =>
      -- The innermost interpolation is closed, and another may be opened in its place.
      have kind : (stringSegment outer rest).kind ∈ stringKinds := stringSegment_kind outer rest
      have height := stringSegment_openings outer rest
      refine ⟨fun _ => .inr rfl, ?_⟩
      simp only [kind, true_and, ite_true, List.length_cons]
      omega
    · cases found
      simp [stringKinds]
  · cases found
    rcases plain_strings openings first rest with ⟨rfl, same⟩ | ⟨other, same⟩
    · rw [same, stringSegment_openings]
      simp
    · rw [same]
      have plain : (Lexeme.plain openings first rest).kind ≠ .interpolation := by
        intro same
        rw [same] at other
        exact other (by decide)
      simp [other, plain]

end Lexeme

namespace Token

/-- The token is a string segment that opens an interpolation. -/
def opens (token : Token) : Bool :=
  token.kind = .interpolation

/-- The byte that a token begins with. -/
def first? (source : Source) (token : Token) : Option UInt8 :=
  (token.bytes source).head?

/-- The token is a string segment that goes on after an interpolation. -/
def resumes (source : Source) (token : Token) : Bool :=
  token.kind ∈ stringKinds ∧ token.first? source = some 41

end Token

namespace Lexer

/-- The unread bytes are the last ones of the source. -/
def Placed (lexer : Lexer) : Prop :=
  lexer.rest <:+ lexer.source.bytes

theorem ofSource_placed (source : Source) : (ofSource source).Placed :=
  List.suffix_rfl

theorem Placed.skipTrivia {lexer : Lexer} (placed : lexer.Placed) : lexer.skipTrivia.Placed := by
  have suffix := (Trivia.skipFrom_suffix .betweenTokens lexer.rest).trans placed
  unfold Lexer.skipTrivia
  dsimp only
  split <;> exact suffix

theorem Placed.readLexeme {lexer : Lexer} (placed : lexer.Placed) : lexer.readLexeme.2.Placed := by
  unfold Lexer.readLexeme
  split
  · exact placed
  · next found =>
    have suffix := (Lexeme.read_suffix found).trans placed
    dsimp only
    split <;> exact suffix

theorem Placed.read {lexer : Lexer} (placed : lexer.Placed) : lexer.read.2.Placed :=
  placed.skipTrivia.readLexeme

theorem Placed.drop {lexer : Lexer} (placed : lexer.Placed) :
    lexer.source.bytes.drop lexer.offset = lexer.rest :=
  (List.suffix_iff_eq_drop.1 placed).symm

/-- A token of any length begins with the first of the unread bytes. -/
theorem Placed.first? {lexer : Lexer} (placed : lexer.Placed) (kind : TokenKind) {length : Nat}
    (positive : 0 < length) :
    Token.first? lexer.source ⟨kind, lexer.offset, length⟩ = lexer.rest.head? := by
  change ((lexer.source.bytes.drop lexer.offset).take length).head? = _
  rw [placed.drop, List.head?_take, if_neg (Nat.pos_iff_ne_zero.1 positive)]

/-- What one read does to the stack, and how a string segment begins. -/
theorem readLexeme_balance {lexer : Lexer} (placed : lexer.Placed) :
    (lexer.readLexeme.1.kind ∈ stringKinds →
        lexer.readLexeme.1.first? lexer.source = some 34 ∨
          lexer.readLexeme.1.first? lexer.source = some 41) ∧
      lexer.readLexeme.2.openings.length +
          (if lexer.readLexeme.1.resumes lexer.source then 1 else 0) =
        lexer.openings.length + if lexer.readLexeme.1.opens then 1 else 0 := by
  cases found : Lexeme.read lexer.openings lexer.rest with
  | none =>
    simp only [readLexeme, found]
    simp [Token.resumes, Token.opens, stringKinds]
  | some lexeme =>
    have shorter := Lexeme.length_read_lt found
    have positive : 0 < lexer.rest.length - lexeme.rest.length := by omega
    obtain ⟨first, rest, front⟩ : ∃ first rest, lexer.rest = first :: rest :=
      List.exists_cons_of_length_pos (Nat.zero_lt_of_lt shorter)
    have begins := placed.first? lexeme.kind positive
    have head : lexer.rest.head? = some first := by rw [front, List.head?_cons]
    have token : lexer.readLexeme.1 =
        ⟨lexeme.kind, lexer.offset, lexer.rest.length - lexeme.rest.length⟩ := by
      simp only [readLexeme, found]
      split <;> rfl
    have openings : lexer.readLexeme.2.openings = lexeme.openings := by
      simp only [readLexeme, found]
      split <;> rfl
    rw [front] at found
    obtain ⟨quoted, balance⟩ := Lexeme.read_balance found
    rw [token, openings]
    simp only [Token.resumes, Token.opens, begins, head, Option.some.injEq]
    exact ⟨quoted, by simpa only [decide_eq_true_eq] using balance⟩

theorem openings_skipTrivia (lexer : Lexer) : lexer.skipTrivia.openings = lexer.openings := by
  unfold skipTrivia
  dsimp only
  split <;> rfl

theorem read_balance {lexer : Lexer} (placed : lexer.Placed) :
    (lexer.read.1.kind ∈ stringKinds →
        lexer.read.1.first? lexer.source = some 34 ∨
          lexer.read.1.first? lexer.source = some 41) ∧
      lexer.read.2.openings.length + (if lexer.read.1.resumes lexer.source then 1 else 0) =
        lexer.openings.length + if lexer.read.1.opens then 1 else 0 := by
  have balance := readLexeme_balance placed.skipTrivia
  rw [source_skipTrivia, openings_skipTrivia] at balance
  exact balance

/-- Reading to the end, every string segment begins with a quote or a closing parenthesis. -/
theorem readAll_delimited {lexer : Lexer} (placed : lexer.Placed) :
    ∀ token ∈ lexer.readAll.1, token.kind ∈ stringKinds →
      token.first? lexer.source = some 34 ∨ token.first? lexer.source = some 41 := by
  fun_induction readAll lexer with
  | case1 lexer atEnd =>
    intro token member kind
    rw [List.mem_singleton.1 member, atEnd] at kind
    exact absurd kind (by decide)
  | case2 lexer more tokens last all ih =>
    intro token member
    rcases List.mem_cons.1 member with rfl | member
    · exact (read_balance placed).1
    · rw [all, source_read] at ih
      exact ih placed.read token member

/-- Reading to the end, the stack is left as high as there are more interpolations opened than
closed. -/
theorem readAll_balance {lexer : Lexer} (placed : lexer.Placed) :
    lexer.readAll.2.openings.length + lexer.readAll.1.countP (Token.resumes lexer.source) =
      lexer.openings.length + lexer.readAll.1.countP Token.opens := by
  fun_induction readAll lexer with
  | case1 lexer atEnd =>
    have balance := (read_balance placed).2
    simpa [List.countP_cons] using balance
  | case2 lexer more tokens last all ih =>
    have balance := (read_balance placed).2
    rw [all, source_read] at ih
    have further := ih placed.read
    simp only [List.countP_cons] at further ⊢
    omega

end Lexer

theorem Source.tokens_balance (source : Source) :
    (Lexer.ofSource source).readAll.2.openings.length + source.tokens.countP (·.resumes source) =
      source.tokens.countP Token.opens :=
  (Lexer.readAll_balance (Lexer.ofSource_placed source)).trans (Nat.zero_add _)

end WrenFront
