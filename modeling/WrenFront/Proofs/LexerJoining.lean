import WrenFront.Proofs.LexerTiling

/-! Two sources read as one, with a line feed between them. No token and no gap goes across a line
feed, unless it is a string or a block comment that is still open there; so the first source is read
as it would be alone, and the second one as it would be alone but further on. -/

namespace WrenFront

/-- Any other byte in front of a line feed was there before. -/
theorem first_joined {byte : UInt8} {text more rest : List UInt8} (other : byte ≠ 10)
    (same : text ++ 10 :: more = byte :: rest) : ∃ after, text = byte :: after := by
  cases text with
  | nil => exact absurd (List.cons.inj same).1.symm other
  | cons first text => exact ⟨text, by rw [(List.cons.inj same).1]⟩

namespace Trivia

theorem marked_joined {byte : UInt8} {text : List UInt8} (more : List UInt8)
    (plain : marked (byte :: text) = false) : marked (byte :: (text ++ 10 :: more)) = false := by
  cases text with
  | nil =>
    unfold marked
    split <;> simp_all
  | cons next text =>
    rw [← plain, List.cons_append]
    unfold marked
    split <;> split <;> simp_all

theorem mark_joined {byte first second : UInt8} {text : List UInt8} (more : List UInt8)
    (other : second ≠ 10) (unmarked : ∀ rest, byte = first → text = second :: rest → False) :
    ¬ ∃ rest, byte :: (text ++ 10 :: more) = first :: second :: rest := by
  rintro ⟨rest, same⟩
  obtain ⟨begins, goesOn⟩ := List.cons.inj same
  obtain ⟨after, found⟩ := first_joined other goesOn
  exact unmarked after begins found

/-- The scanner stops before a line feed that follows the text, if it is in no block comment. -/
theorem skipFrom_joined {place : Place} {text : List UInt8} (more : List UInt8)
    (closed : (skipFrom place text).unclosed = none) :
    skipFrom place (text ++ 10 :: more) = ⟨(skipFrom place text).rest ++ 10 :: more, none⟩ := by
  fun_induction skipFrom place text with
  | case1 => cases closed
  | case2 place open' =>
    cases place with
    | betweenTokens => rfl
    | lineComment => rfl
    | blockComment depth length => exact absurd rfl (open' depth length)
  | case5 byte text noLine noBlock isBlank ih =>
    have skips := skip_byte (mark_joined more (by decide) noLine) (mark_joined more (by decide) noBlock)
    rw [if_pos isBlank] at skips
    exact skips.trans (ih closed)
  | case6 byte text noLine noBlock notBlank =>
    have skips := skip_byte (mark_joined more (by decide) noLine) (mark_joined more (by decide) noBlock)
    rw [if_neg notBlank] at skips
    exact skips
  | case7 text => rfl
  | case8 byte text notFeed ih =>
    rw [List.cons_append, skipFrom, if_neg notFeed, ih closed]
  | case12 depth length byte text noOpen noClose noCloseToo ih =>
    have plain : marked (byte :: text) = false := by
      unfold marked
      split
      · next same =>
        obtain ⟨rfl, rfl⟩ := List.cons.inj same
        exact (noOpen _ rfl rfl).elim
      · next same =>
        obtain ⟨rfl, rfl⟩ := List.cons.inj same
        cases depth with
        | zero => exact (noClose _ rfl rfl rfl).elim
        | succ depth => exact (noCloseToo depth _ rfl rfl rfl).elim
      · rfl
    rw [List.cons_append, skipFrom_byte depth length (marked_joined more plain), ih closed]
  | _ => exact ‹_ → _› closed

theorem skip_joined {text : List UInt8} (more : List UInt8) (closed : (skip text).unclosed = none) :
    skip (text ++ 10 :: more) = ⟨(skip text).rest ++ 10 :: more, none⟩ :=
  skipFrom_joined more closed

/-- How far the scanner is in a block comment. -/
def Place.length : Place → Nat
  | .blockComment _ length => length
  | _ => 0

/-- A comment that is not closed ends with the text, and is no longer than what has been skipped. -/
theorem skipFrom_unclosed (place : Place) (text : List UInt8) :
    ∀ length ∈ (skipFrom place text).unclosed,
      (skipFrom place text).rest = [] ∧ length ≤ place.length + text.length := by
  fun_induction skipFrom place text <;> grind [Place.length]

end Trivia

namespace Lexeme

/-- The lexeme, with a line feed and more after what it leaves. -/
def before (lexeme : Lexeme) (more : List UInt8) : Lexeme :=
  { lexeme with rest := lexeme.rest ++ 10 :: more }

theorem dropWhile_joined {isClass : UInt8 → Bool} (other : isClass 10 = false)
    (bytes more : List UInt8) :
    (bytes ++ 10 :: more).dropWhile isClass = bytes.dropWhile isClass ++ 10 :: more := by
  induction bytes with
  | nil => simp [other]
  | cons byte bytes ih =>
    rw [List.cons_append, List.dropWhile_cons, List.dropWhile_cons, ih]
    split <;> rfl

theorem takeWhile_joined {isClass : UInt8 → Bool} (other : isClass 10 = false)
    (bytes more : List UInt8) :
    (bytes ++ 10 :: more).takeWhile isClass = bytes.takeWhile isClass := by
  induction bytes with
  | nil => simp [other]
  | cons byte bytes ih => rw [List.cons_append, List.takeWhile_cons, List.takeWhile_cons, ih]

theorem isPrefixOf_joined {spelling : List UInt8} (oneLine : 10 ∉ spelling)
    (bytes more : List UInt8) :
    spelling.isPrefixOf (bytes ++ 10 :: more) = spelling.isPrefixOf bytes := by
  induction spelling generalizing bytes with
  | nil => rfl
  | cons byte spelling ih =>
    rw [List.mem_cons, not_or] at oneLine
    cases bytes with
    | nil => simp [List.isPrefixOf, Ne.symm oneLine.1]
    | cons first bytes => simp only [List.cons_append, List.isPrefixOf, ih oneLine.2]

theorem spellings_oneLine : ∀ entry ∈ spellings, 10 ∉ entry.2 := by
  decide

theorem punctuator?_joined (bytes more : List UInt8) : punctuator? (bytes ++ 10 :: more) =
    (punctuator? bytes).map fun found => (found.1, found.2 ++ 10 :: more) := by
  have oneLine := spellings_oneLine
  unfold punctuator?
  generalize spellings = entries at oneLine ⊢
  induction entries with
  | nil => rfl
  | cons entry entries ih =>
    obtain ⟨kind, spelling⟩ := entry
    have rest := ih fun entry member => oneLine entry (List.mem_cons_of_mem _ member)
    have plain : 10 ∉ spelling := oneLine _ List.mem_cons_self
    rw [List.findSome?_cons, List.findSome?_cons, rest]
    dsimp only
    rw [isPrefixOf_joined plain]
    by_cases fits : spelling.isPrefixOf bytes
    · have short := (List.isPrefixOf_iff_prefix.1 fits).length_le
      rw [if_pos fits, if_pos fits, List.drop_append_of_le_length short]
      rfl
    · rw [if_neg fits, if_neg fits]

theorem stringTail_joined {bytes : List UInt8} (more : List UInt8)
    (ends : (stringTail bytes).1 ≠ .endOfInput) : stringTail (bytes ++ 10 :: more) =
      ((stringTail bytes).1, (stringTail bytes).2 ++ 10 :: more) := by
  fun_induction stringTail bytes with
  | case1 => exact absurd rfl ends
  | case2 => exact absurd rfl ends
  | case3 byte bytes ih => exact ih ends
  | case4 bytes => rfl
  | case5 bytes => rfl
  | case6 byte bytes lone escaped opening notQuote ih =>
    rw [List.cons_append, stringTail.eq_5, if_neg notQuote, ih ends]
    · exact fun backslash none => absurd none (by simp)
    · intro next rest backslash
      cases bytes with
      | nil => exact (lone backslash rfl).elim
      | cons first bytes => exact (escaped first bytes backslash rfl).elim
    · intro rest percent same
      obtain ⟨after, found⟩ := first_joined (by decide) same
      exact opening after percent found

theorem stringSegment_joined {openings : List Nat} {bytes : List UInt8} (more : List UInt8)
    (unfaulted : (stringSegment openings bytes).fault = none) :
    stringSegment openings (bytes ++ 10 :: more) = (stringSegment openings bytes).before more := by
  cases found : stringTail bytes with
  | mk ending rest =>
    have same (ends : ending ≠ .endOfInput) : stringTail (bytes ++ 10 :: more) =
        (ending, rest ++ 10 :: more) := by
      rw [stringTail_joined more (by rw [found]; exact ends), found]
    cases ending with
    | quote => simp only [stringSegment, same (by decide), found, before]
    | interpolation => simp only [stringSegment, same (by decide), found, before]
    | endOfInput => simp [stringSegment, found] at unfaulted

theorem name_joined (openings : List Nat) (bytes more : List UInt8) :
    name openings (bytes ++ 10 :: more) = (name openings bytes).before more := by
  simp only [name, before, takeWhile_joined (rfl : ByteClass.isWord 10 = false),
    dropWhile_joined (rfl : ByteClass.isWord 10 = false)]

theorem plain_joined {openings : List Nat} {first : UInt8} {rest : List UInt8} (more : List UInt8)
    (unfaulted : (plain openings first rest).fault = none) :
    plain openings first (rest ++ 10 :: more) = (plain openings first rest).before more := by
  have punctuator := punctuator?_joined (first :: rest) more
  have word (bytes : List UInt8) := dropWhile_joined (rfl : ByteClass.isWord 10 = false) bytes more
  have digits (bytes : List UInt8) := dropWhile_joined (rfl : ByteClass.isDigit 10 = false) bytes more
  have hex (bytes : List UInt8) :=
    dropWhile_joined (rfl : ByteClass.isHexDigit 10 = false) bytes more
  rw [List.cons_append] at punctuator
  unfold plain at unfaulted ⊢
  rw [punctuator]
  by_cases feed : first = 10
  · rw [if_pos feed, if_pos feed]
    rfl
  rw [if_neg feed] at unfaulted ⊢
  rw [if_neg feed]
  cases found : punctuator? (first :: rest) with
  | some found => rfl
  | none =>
    simp only [found, Option.map_none] at unfaulted ⊢
    by_cases underscore : first = 95
    · rw [if_pos underscore, if_pos underscore]
      split
      · next after same =>
        obtain ⟨rest, rfl⟩ := first_joined (by decide) same
        obtain rfl := (List.cons.inj same).2
        exact congrArg (Lexeme.mk _ · openings none) (word rest)
      · next single =>
        split
        · exact (single _ rfl).elim
        · exact congrArg (Lexeme.mk _ · openings none) (word rest)
    rw [if_neg underscore] at unfaulted ⊢
    rw [if_neg underscore]
    by_cases quote : first = 34
    · rw [if_pos quote] at unfaulted ⊢
      rw [if_pos quote]
      exact stringSegment_joined more unfaulted
    rw [if_neg quote] at unfaulted ⊢
    rw [if_neg quote]
    by_cases digit : ByteClass.isDigit first
    · rw [if_pos digit, if_pos digit]
      split
      · next after same =>
        obtain ⟨rest, rfl⟩ := first_joined (by decide) same
        obtain rfl := (List.cons.inj same).2
        exact congrArg (Lexeme.mk _ · openings none) (hex rest)
      · next decimal =>
        split
        · exact (decimal _ rfl rfl).elim
        · exact congrArg (Lexeme.mk _ · openings none) (digits rest)
    rw [if_neg digit] at unfaulted ⊢
    rw [if_neg digit]
    by_cases letter : ByteClass.isLetter first
    · rw [if_pos letter, if_pos letter]
      exact name_joined openings (first :: rest) more
    · rw [if_neg letter] at unfaulted
      cases unfaulted

theorem read_joined {openings : List Nat} {bytes : List UInt8} {lexeme : Lexeme}
    (more : List UInt8) (found : read openings bytes = some lexeme)
    (unfaulted : lexeme.fault = none) :
    read openings (bytes ++ 10 :: more) = some (lexeme.before more) := by
  cases bytes with
  | nil => cases found
  | cons first rest =>
    rw [List.cons_append]
    simp only [read] at found ⊢
    split at found
    · cases found
      rfl
    · split at found
      · next last =>
        cases found
        rw [if_pos last, stringSegment_joined more unfaulted]
      · next nested =>
        cases found
        rw [if_neg nested]
        rfl
    · cases found
      rw [plain_joined more unfaulted]

end Lexeme

/-- Puts other tokens in the place of the end token. -/
def graft (more : List Token) : List Token → List Token
  | [] => more
  | token :: rest => if token.kind = .eof then more else token :: graft more rest

namespace Lexer

theorem errors_skipTrivia (lexer : Lexer) : lexer.skipTrivia.errors = lexer.errors ++
    ((Trivia.skip lexer.rest).unclosed.map fun length => ⟨.unterminatedBlockComment,
      ⟨lexer.skipTrivia.offset - length, length⟩⟩ : Option LexicalError).toList := by
  cases unclosed : (Trivia.skip lexer.rest).unclosed with
  | none => simp [skipTrivia, unclosed]
  | some length => simp [skipTrivia, unclosed, record, offset]

theorem errors_readLexeme (lexer : Lexer) : lexer.readLexeme.2.errors = lexer.errors ++
    (((Lexeme.read lexer.openings lexer.rest).bind Lexeme.fault).map fun fault =>
      ⟨fault, lexer.readLexeme.1.span⟩ : Option LexicalError).toList := by
  cases found : Lexeme.read lexer.openings lexer.rest with
  | none => simp [readLexeme, found]
  | some lexeme =>
    cases fault : lexeme.fault with
    | none => simp [readLexeme, found, fault]
    | some fault => simp [readLexeme, found, fault, record, Token.span]

/-- A read without an error comes upon no fault. -/
theorem read_clean {lexer : Lexer} (clean : lexer.read.2.errors = lexer.errors) :
    (Trivia.skip lexer.rest).unclosed = none ∧
      (Lexeme.read lexer.skipTrivia.openings lexer.skipTrivia.rest).bind Lexeme.fault = none := by
  rw [read, errors_readLexeme, errors_skipTrivia, List.append_assoc] at clean
  have none := List.append_eq_nil_iff.1 (List.append_right_eq_self.1 clean)
  simpa using none

theorem read_errors (lexer : Lexer) : lexer.errors <+: lexer.read.2.errors := by
  rw [read, errors_readLexeme, errors_skipTrivia, List.append_assoc]
  exact List.prefix_append _ _

theorem readAll_errors (lexer : Lexer) : lexer.errors <+: lexer.readAll.2.errors := by
  fun_induction readAll lexer with
  | case1 lexer atEnd => exact lexer.read_errors
  | case2 lexer more tokens last all ih =>
    rw [all] at ih
    exact lexer.read_errors.trans ih

/-- Every token comes from a read, and what is recorded up to it stays recorded. -/
theorem readAll_reads (lexer : Lexer) : ∀ token ∈ lexer.readAll.1, ∃ reads,
    (lexer.after reads).read.1 = token ∧
      (lexer.after reads).read.2.errors <+: lexer.readAll.2.errors := by
  fun_induction readAll lexer with
  | case1 lexer atEnd =>
    intro token only
    exact ⟨0, (List.mem_singleton.1 only).symm, List.prefix_rfl⟩
  | case2 lexer more tokens last all ih =>
    have later := lexer.read.2.readAll_errors
    rw [all] at ih later
    intro token member
    rcases List.mem_cons.1 member with rfl | member
    · exact ⟨0, rfl, later⟩
    · obtain ⟨reads, same, recorded⟩ := ih token member
      exact ⟨reads + 1, same, recorded⟩

/-- The second lexer has a line feed and `more` to read after all that the first one has. -/
structure Leads (lexer : Lexer) (more : List UInt8) (joined : Lexer) : Prop where
  rest : joined.rest = lexer.rest ++ 10 :: more
  openings : joined.openings = lexer.openings
  errors : joined.errors = lexer.errors
  length : joined.source.length = lexer.source.length + (1 + more.length)

section Leads
variable {lexer joined : Lexer} {more : List UInt8}

theorem Leads.offset (leads : lexer.Leads more joined) : joined.offset = lexer.offset := by
  rw [Lexer.offset, Lexer.offset, leads.rest, leads.length, List.length_append, List.length_cons]
  omega

theorem skipTrivia_closed (closed : (Trivia.skip lexer.rest).unclosed = none) :
    lexer.skipTrivia = { lexer with rest := (Trivia.skip lexer.rest).rest } := by
  unfold skipTrivia
  dsimp only
  rw [closed]

theorem Leads.skipTrivia (leads : lexer.Leads more joined)
    (closed : (Trivia.skip lexer.rest).unclosed = none) :
    lexer.skipTrivia.Leads more joined.skipTrivia := by
  have skips := Trivia.skip_joined more closed
  rw [← leads.rest] at skips
  have closedToo : (Trivia.skip joined.rest).unclosed = none := by rw [skips]
  rw [skipTrivia_closed closed, skipTrivia_closed closedToo, skips]
  exact ⟨rfl, leads.openings, leads.errors, leads.length⟩

theorem readLexeme_unfaulted {lexeme : Lexeme}
    (found : Lexeme.read lexer.openings lexer.rest = some lexeme)
    (unfaulted : lexeme.fault = none) : lexer.readLexeme =
      (⟨lexeme.kind, lexer.offset, lexer.rest.length - lexeme.rest.length⟩,
        { lexer with rest := lexeme.rest, openings := lexeme.openings }) := by
  simp only [readLexeme, found, unfaulted]

theorem Leads.read (leads : lexer.Leads more joined)
    (clean : lexer.read.2.errors = lexer.errors) (before : lexer.read.1.kind ≠ .eof) :
    joined.read.1 = lexer.read.1 ∧ lexer.read.2.Leads more joined.read.2 := by
  obtain ⟨closed, unfaulted⟩ := read_clean clean
  have skipped := leads.skipTrivia closed
  cases found : Lexeme.read lexer.skipTrivia.openings lexer.skipTrivia.rest with
  | none =>
    have ends : lexer.read.1.kind = .eof := by simp only [Lexer.read, readLexeme, found]
    exact absurd ends before
  | some lexeme =>
    have none : lexeme.fault = none := by rw [← unfaulted, found, Option.bind_some]
    have foundToo := Lexeme.read_joined more found none
    rw [← skipped.rest, ← skipped.openings] at foundToo
    rw [Lexer.read, Lexer.read, readLexeme_unfaulted found none, readLexeme_unfaulted foundToo none]
    refine ⟨?_, rfl, rfl, skipped.errors, skipped.length⟩
    rw [skipped.offset, skipped.rest]
    simp only [Lexeme.before, List.length_append, Nat.add_sub_add_right]

/-- Where the first lexer comes to its end the second one reads the line feed. -/
theorem Leads.feed (leads : lexer.Leads more joined) (clean : lexer.read.2.errors = lexer.errors)
    (ends : lexer.read.1.kind = .eof) : joined.read = (⟨.line, lexer.source.length, 1⟩,
      { joined with rest := more, openings := lexer.read.2.openings }) := by
  obtain ⟨closed, -⟩ := read_clean clean
  have skipped := leads.skipTrivia closed
  have exhausted := skipTrivia_end ends
  have front : joined.skipTrivia.rest = 10 :: more := by
    rw [skipped.rest, exhausted, List.nil_append]
  have closedToo : (Trivia.skip joined.rest).unclosed = none := by
    rw [leads.rest, Trivia.skip_joined more closed]
  have found := Lexeme.read_feed joined.skipTrivia.openings more
  rw [← front] at found
  have stack : lexer.read.2.openings = joined.skipTrivia.openings := by
    rw [Lexer.read, readLexeme_empty exhausted, skipped.openings]
  have start : joined.skipTrivia.offset = lexer.source.length := by
    rw [skipped.offset, Lexer.offset, exhausted, source_skipTrivia]
    rfl
  rw [Lexer.read, readLexeme_unfaulted found rfl, stack, start, front, skipTrivia_closed closedToo,
    List.length_cons, Nat.add_sub_cancel_left]

/-- Reading to the end, the second lexer gives the tokens of the first, a newline for the end, and
then what it reads on from there. -/
theorem Leads.readAll (leads : lexer.Leads more joined)
    (clean : lexer.readAll.2.errors = lexer.errors) : ∃ after : Lexer,
      joined.readAll = (graft (⟨.line, lexer.source.length, 1⟩ :: after.readAll.1) lexer.readAll.1,
        after.readAll.2) ∧ after.source = joined.source ∧ after.rest = more ∧
          after.openings = lexer.readAll.2.openings ∧ after.errors = lexer.errors := by
  fun_induction Lexer.readAll lexer generalizing joined with
  | case1 lexer atEnd =>
    have feed := leads.feed clean atEnd
    refine ⟨joined.read.2, ?_, ?_, ?_, ?_, ?_⟩
    · have goesOn : joined.read.1.kind ≠ .eof := by simp [feed]
      rw [readAll_more goesOn, graft, if_pos atEnd, feed]
    · rw [feed]
    · rw [feed]
    · rw [feed]
    · rw [feed]
      exact leads.errors
  | case2 lexer before tokens last all ih =>
    have grown := lexer.read.2.readAll_errors
    rw [all] at ih grown
    dsimp only at clean ih grown ⊢
    have cleanRead : lexer.read.2.errors = lexer.errors := by
      rw [clean] at grown
      exact (lexer.read_errors.eq_of_length_le grown.length_le).symm
    obtain ⟨same, further⟩ := leads.read cleanRead before
    obtain ⟨after, joins, source, rest, openings, errors⟩ := ih further (clean.trans cleanRead.symm)
    refine ⟨after, ?_, source.trans (source_read joined), rest, openings, errors.trans cleanRead⟩
    have goesOn : joined.read.1.kind ≠ .eof := same ▸ before
    rw [readAll_more goesOn, joins, graft, if_neg before, same, source_read]

end Leads

end Lexer

/-- The token that amount further on. -/
def Token.shift (amount : Nat) (token : Token) : Token :=
  { token with start := token.start + amount }

def LexicalError.shift (amount : Nat) (error : LexicalError) : LexicalError :=
  { error with span := ⟨error.span.start + amount, error.span.length⟩ }

namespace Lexer

/-- The second lexer has the same bytes left, but that amount further on in its source. -/
structure Shifts (lexer : Lexer) (amount : Nat) (later : Lexer) : Prop where
  placed : lexer.Placed
  rest : later.rest = lexer.rest
  openings : later.openings = lexer.openings
  errors : later.errors = lexer.errors.map (·.shift amount)
  length : later.source.length = lexer.source.length + amount

section Shifts
variable {lexer later : Lexer} {amount : Nat}

theorem offset_shift (placed : lexer.Placed) (rest : later.rest = lexer.rest)
    (length : later.source.length = lexer.source.length + amount) :
    later.offset = lexer.offset + amount := by
  have whole := placed.offset_add
  rw [offset, rest, length]
  omega

theorem Shifts.skipTrivia (shifts : lexer.Shifts amount later) :
    lexer.skipTrivia.Shifts amount later.skipTrivia := by
  have placed := shifts.placed.skipTrivia
  have rest : later.skipTrivia.rest = lexer.skipTrivia.rest := by
    rw [rest_skipTrivia, rest_skipTrivia, shifts.rest]
  have length : later.skipTrivia.source.length = lexer.skipTrivia.source.length + amount := by
    rw [source_skipTrivia, source_skipTrivia, shifts.length]
  refine ⟨placed, rest, ?_, ?_, length⟩
  · rw [openings_skipTrivia, openings_skipTrivia, shifts.openings]
  · have start := offset_shift placed rest length
    rw [errors_skipTrivia, errors_skipTrivia, shifts.rest, shifts.errors, List.map_append, start]
    cases unclosed : (Trivia.skip lexer.rest).unclosed with
    | none => rfl
    | some length =>
      -- A comment that runs into the end has begun after the lexer's own offset.
      obtain ⟨exhausted, bound⟩ := Trivia.skipFrom_unclosed .betweenTokens lexer.rest length unclosed
      change length ≤ 0 + lexer.rest.length at bound
      have fits : length ≤ lexer.skipTrivia.offset := by
        have whole := placed.offset_add
        have part := shifts.placed.offset_add
        rw [source_skipTrivia, rest_skipTrivia, Trivia.skip, exhausted, List.length_nil] at whole
        omega
      simp [LexicalError.shift, Nat.sub_add_comm fits]

theorem Shifts.readLexeme (shifts : lexer.Shifts amount later) :
    later.readLexeme.1 = lexer.readLexeme.1.shift amount ∧
      lexer.readLexeme.2.Shifts amount later.readLexeme.2 := by
  have start := offset_shift shifts.placed shifts.rest shifts.length
  have same : Lexeme.read later.openings later.rest = Lexeme.read lexer.openings lexer.rest := by
    rw [shifts.openings, shifts.rest]
  cases found : Lexeme.read lexer.openings lexer.rest with
  | none =>
    rw [found] at same
    simp only [Lexer.readLexeme, found, same, start]
    exact ⟨rfl, shifts⟩
  | some lexeme =>
    obtain ⟨token, rest, openings⟩ := readLexeme_found found
    obtain ⟨tokenToo, restToo, openingsToo⟩ := readLexeme_found (same.trans found)
    have shifted : later.readLexeme.1 = lexer.readLexeme.1.shift amount := by
      rw [token, tokenToo, start, shifts.rest]
      rfl
    refine ⟨shifted, shifts.placed.readLexeme, restToo.trans rest.symm,
      openingsToo.trans openings.symm, ?_, ?_⟩
    · rw [errors_readLexeme, errors_readLexeme, same, shifted, shifts.errors, found, Option.bind_some]
      cases lexeme.fault with
      | none => simp
      | some fault => simp [LexicalError.shift, Token.shift, Token.span]
    · rw [source_readLexeme, source_readLexeme, shifts.length]

theorem Shifts.read (shifts : lexer.Shifts amount later) :
    later.read.1 = lexer.read.1.shift amount ∧ lexer.read.2.Shifts amount later.read.2 :=
  shifts.skipTrivia.readLexeme

theorem Shifts.readAll (shifts : lexer.Shifts amount later) :
    later.readAll.1 = lexer.readAll.1.map (·.shift amount) ∧
      lexer.readAll.2.Shifts amount later.readAll.2 := by
  fun_induction Lexer.readAll lexer generalizing later with
  | case1 lexer atEnd =>
    obtain ⟨same, after⟩ := shifts.read
    have atEndToo : later.read.1.kind = .eof := by rw [same]; exact atEnd
    rw [Lexer.readAll, if_pos atEndToo, same]
    exact ⟨rfl, after⟩
  | case2 lexer more tokens last all ih =>
    obtain ⟨same, after⟩ := shifts.read
    have moreToo : later.read.1.kind ≠ .eof := by rw [same]; exact more
    obtain ⟨others, final⟩ := ih after
    rw [all] at others final
    rw [readAll_more moreToo, same, others]
    exact ⟨rfl, final⟩

end Shifts

end Lexer

namespace Source
variable {script rest joined : Source}

theorem length_joined (joins : joined.bytes = script.bytes ++ 10 :: rest.bytes) :
    joined.length = script.length + (1 + rest.length) := by
  simp only [length, joins, List.length_append, List.length_cons, Nat.add_comm]

/-- The tokens of two sources with a line feed between them, if the first one ends outside strings
and comments. -/
theorem tokens_joined (joins : joined.bytes = script.bytes ++ 10 :: rest.bytes)
    (clean : (Lexer.ofSource script).readAll.2.errors = [])
    (closed : (Lexer.ofSource script).readAll.2.openings = []) :
    joined.tokens = graft (⟨.line, script.length, 1⟩ ::
        rest.tokens.map (·.shift (script.length + 1))) script.tokens ∧
      (Lexer.ofSource joined).readAll.2.errors =
        (Lexer.ofSource rest).readAll.2.errors.map (·.shift (script.length + 1)) := by
  have leads : (Lexer.ofSource script).Leads rest.bytes (Lexer.ofSource joined) :=
    ⟨joins, rfl, rfl, length_joined joins⟩
  obtain ⟨after, all, source, unread, openings, errors⟩ := leads.readAll clean
  have shifts : (Lexer.ofSource rest).Shifts (script.length + 1) after := by
    refine ⟨Lexer.ofSource_placed rest, unread, openings.trans closed, errors, ?_⟩
    rw [source]
    change joined.length = rest.length + (script.length + 1)
    rw [length_joined joins]
    omega
  obtain ⟨tokens, final⟩ := shifts.readAll
  rw [Source.tokens, all]
  refine ⟨?_, final.errors⟩
  rw [tokens]
  rfl

end Source

end WrenFront
