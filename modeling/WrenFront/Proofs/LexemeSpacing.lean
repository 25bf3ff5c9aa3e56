import WrenFront.Proofs.TriviaGrammar

/-! What is seen of a token from its own text. To find out where a token ends the lexer looks at the
bytes after it, but nothing and a blank tell it the same; so a text that has been read as a token is
read as that token wherever nothing or a blank comes after it. -/

namespace WrenFront

namespace Trivia

/-- Blanks and closed block comments. -/
inductive Spacing : List UInt8 → Prop where
  | none : Spacing []
  | blank {byte text} (isBlank : ByteClass.isBlank byte = true) (others : Spacing text) :
      Spacing (byte :: text)
  | comment {tail text} (closed : CommentTail tail) (others : Spacing text) :
      Spacing (47 :: 42 :: tail ++ text)

/-- Nothing, or a text that begins with a blank. -/
def Loose (text : List UInt8) : Prop :=
  ∀ byte ∈ text.head?, ByteClass.isBlank byte = true

theorem mem_of_blank {byte : UInt8} (isBlank : ByteClass.isBlank byte = true) :
    byte ∈ [32, 9, 13] := by
  simpa [ByteClass.isBlank, or_assoc] using isBlank

theorem Loose.take {text : List UInt8} (loose : Loose text) (count : Nat) :
    Loose (text.take count) := by
  intro byte first
  rw [List.head?_take] at first
  split at first
  · cases first
  · exact loose byte first

theorem Spacing.skip {gap : List UInt8} (spacing : Spacing gap) (rest : List UInt8) :
    Trivia.skip (gap ++ rest) = Trivia.skip rest := by
  induction spacing with
  | none => rfl
  | blank isBlank _ ih =>
    rw [List.cons_append, skip_byte, if_pos isBlank, ih]
    all_goals
      rintro ⟨after, same⟩
      rw [(List.cons.inj same).1] at isBlank
      cases isBlank
  | @comment tail text closed _ ih =>
    rw [List.append_assoc, ← ih]
    exact closed.skipFrom 0 2 (text ++ rest)

theorem Settled.skip {text : List UInt8} (settled : Settled text) :
    Trivia.skip text = ⟨text, none⟩ := by
  cases text with
  | nil => rfl
  | cons byte text =>
    obtain ⟨notBlank, uncommented⟩ := settled byte text rfl
    rw [skip_byte, notBlank]
    · rfl
    · rintro ⟨rest, same⟩
      obtain ⟨rfl, rfl⟩ := List.cons.inj same
      exact (uncommented rfl).1 rfl
    · rintro ⟨rest, same⟩
      obtain ⟨rfl, rfl⟩ := List.cons.inj same
      exact (uncommented rfl).2 rfl

/-- A token begins no comment that it did not begin before. -/
theorem Settled.respaced {text rest more : List UInt8} (settled : Settled (text ++ rest))
    (positive : text ≠ []) (loose : Loose more) : Settled (text ++ more) := by
  rintro byte after same
  cases text with
  | nil => exact absurd rfl positive
  | cons first text =>
    obtain ⟨rfl, rfl⟩ := List.cons.inj same
    obtain ⟨notBlank, uncommented⟩ := settled first (text ++ rest) rfl
    refine ⟨notBlank, fun slash => ?_⟩
    cases text with
    | cons next text => exact uncommented slash
    | nil =>
      constructor
      · intro second
        exact absurd (loose 47 second) (by decide)
      · intro second
        exact absurd (loose 42 second) (by decide)

end Trivia

namespace Lexeme
open Trivia (Loose)

/-- A run ends where it ended before, if blanks are not of its class. -/
theorem run_respaced {isClass : UInt8 → Bool} (other : [32, 9, 13].any isClass = false)
    {text rest more : List UInt8} (taken : (text ++ rest).takeWhile isClass = text)
    (loose : Loose more) :
    (text ++ more).takeWhile isClass = text ∧ (text ++ more).dropWhile isClass = more := by
  have all : ∀ byte ∈ text, isClass byte = true := by
    rw [← taken]
    exact List.all_eq_true.1 List.all_takeWhile
  rw [List.takeWhile_append_of_pos all, List.dropWhile_append_of_pos all]
  cases more with
  | nil => simp
  | cons byte more =>
    have stops := List.any_eq_false.1 other byte (Trivia.mem_of_blank (loose byte rfl))
    simp [stops]

theorem takeWhile_eq_of_left {isClass : UInt8 → Bool} {text rest : List UInt8}
    (left : (text ++ rest).dropWhile isClass = rest) : (text ++ rest).takeWhile isClass = text := by
  have whole := List.takeWhile_append_dropWhile (p := isClass) (l := text ++ rest)
  rw [left] at whole
  exact List.append_cancel_right whole

/-- A lexeme that ends with a run. -/
theorem run_lexeme {isClass : UInt8 → Bool} (other : [32, 9, 13].any isClass = false)
    {text rest more : List UInt8} (left : (text ++ rest).dropWhile isClass = rest)
    (loose : Loose more) {kind : TokenKind} {openings : List Nat} :
    Lexeme.mk kind ((text ++ more).dropWhile isClass) openings none =
      ⟨kind, more, openings, none⟩ := by
  rw [(run_respaced other (takeWhile_eq_of_left left) loose).2]

theorem length_stringTail_lt {bytes rest : List UInt8} {ending : StringEnd}
    (found : stringTail bytes = (ending, rest)) (ends : ending ≠ .endOfInput) :
    rest.length < bytes.length := by
  fun_induction stringTail bytes with
  | case3 byte bytes ih => exact Nat.lt_succ_of_lt (Nat.lt_succ_of_lt (ih found))
  | case6 byte bytes _ _ _ _ ih => exact Nat.lt_succ_of_lt (ih found)
  | case4 bytes | case5 bytes =>
    cases found
    simp only [List.length_cons]
    omega
  | case1 | case2 =>
    cases found
    exact absurd rfl ends

/-- A byte in front of more than is left belongs to what was read. -/
theorem uncons_append {byte : UInt8} {text rest bytes : List UInt8}
    (same : text ++ rest = byte :: bytes) (shorter : rest.length ≤ bytes.length) :
    ∃ after, text = byte :: after ∧ after ++ rest = bytes := by
  cases text with
  | nil =>
    rw [List.nil_append] at same
    rw [same, List.length_cons] at shorter
    omega
  | cons first text =>
    obtain ⟨rfl, rest⟩ := List.cons.inj same
    exact ⟨text, rfl, rest⟩

/-- A string segment that ends is read without what follows it. -/
theorem stringTail_respaced {text rest : List UInt8} (more : List UInt8) {ending : StringEnd}
    (found : stringTail (text ++ rest) = (ending, rest)) (ends : ending ≠ .endOfInput) :
    stringTail (text ++ more) = (ending, more) := by
  generalize same : text ++ rest = bytes at found
  fun_induction stringTail bytes generalizing text with
  | case1 =>
    cases found
    exact absurd rfl ends
  | case2 =>
    cases found
    exact absurd rfl ends
  | case3 byte bytes ih =>
    have shorter := length_stringTail_lt found ends
    obtain ⟨body, rfl, inside⟩ := uncons_append same (by simp only [List.length_cons]; omega)
    obtain ⟨tail, rfl, inner⟩ := uncons_append inside (Nat.le_of_lt shorter)
    exact @ih tail inner found
  | case4 bytes =>
    cases found
    obtain rfl : text = [37, 40] := List.append_cancel_right same
    rfl
  | case5 bytes =>
    cases found
    obtain rfl : text = [34] := List.append_cancel_right same
    rfl
  | case6 byte bytes lone escaped opening notQuote ih =>
    have shorter := length_stringTail_lt found ends
    obtain ⟨body, rfl, inside⟩ := uncons_append same (Nat.le_of_lt shorter)
    -- The byte after this one is read as well, so it is the same as before.
    cases body with
    | nil =>
      rw [← inside] at shorter
      exact absurd shorter (Nat.lt_irrefl _)
    | cons next body =>
      rw [← ih inside found, List.cons_append, stringTail.eq_5, if_neg notQuote]
      · exact fun _ none => by cases none
      · intro other after backslash
        exact (escaped next (body ++ rest) backslash inside.symm).elim
      · rintro after percent opens
        obtain ⟨rfl, -⟩ := List.cons.inj opens
        exact (opening (body ++ rest) percent inside.symm).elim

theorem stringTail_endOfInput {bytes rest : List UInt8}
    (found : stringTail bytes = (.endOfInput, rest)) : rest = [] := by
  fun_induction stringTail bytes with
  | case1 | case2 => exact (Prod.mk.inj found).2.symm
  | case4 | case5 => cases found
  | case3 _ _ ih | case6 _ _ _ _ _ _ ih => exact ih found

section Respaced
variable {openings : List Nat} {text rest more : List UInt8}

theorem stringSegment_respaced (left : (stringSegment openings (text ++ rest)).rest = rest)
    (terminated : (stringSegment openings (text ++ rest)).fault = some .unterminatedString →
      more = []) : stringSegment openings (text ++ more) =
        { stringSegment openings (text ++ rest) with rest := more } := by
  cases found : stringTail (text ++ rest) with
  | mk ending after =>
    obtain rfl : after = rest := by
      rw [← left, stringSegment, found]
      cases ending <;> rfl
    cases ending with
    | quote => simp only [stringSegment, found, stringTail_respaced more found (by decide)]
    | interpolation => simp only [stringSegment, found, stringTail_respaced more found (by decide)]
    | endOfInput =>
      obtain rfl := stringTail_endOfInput found
      obtain rfl : more = [] := terminated (by rw [stringSegment, found])
      simp only [stringSegment, found]

/-- A text without blanks that is in front of the input is so whatever follows. -/
theorem prefix_loose {spelling : List UInt8}
    (solid : spelling.any ByteClass.isBlank = false) (loose : Loose more)
    (fits : spelling <+: text ++ more) : spelling <+: text := by
  rcases List.prefix_or_prefix_of_prefix fits (List.prefix_append text more) with inside | outside
  · exact inside
  · obtain ⟨after, rfl⟩ := outside
    cases after with
    | nil => simp
    | cons byte after =>
      obtain ⟨further, same⟩ := (List.prefix_append_right_inj text).1 fits
      have isBlank := loose byte (by rw [← same]; rfl)
      exact absurd isBlank (List.any_eq_false.1 solid byte (by simp))

theorem spellings_solid : ∀ entry ∈ spellings, entry.2.any ByteClass.isBlank = false := by
  decide +kernel

theorem refused_respaced {entry : TokenKind × List UInt8} (member : entry ∈ spellings)
    (loose : Loose more) (refused : ¬ entry.2.isPrefixOf (text ++ rest) = true) :
    ¬ entry.2.isPrefixOf (text ++ more) = true := by
  intro fits
  have solid := spellings_solid entry member
  have inside := prefix_loose solid loose (List.isPrefixOf_iff_prefix.1 fits)
  exact refused (List.isPrefixOf_iff_prefix.2 (inside.trans (List.prefix_append text rest)))

theorem punctuator?_respaced {kind : TokenKind} (loose : Loose more)
    (found : punctuator? (text ++ rest) = some (kind, rest)) :
    punctuator? (text ++ more) = some (kind, more) := by
  obtain ⟨earlier, ⟨other, spelling⟩, later, split, fits, unfit⟩ :=
    List.findSome?_eq_some_iff.1 found
  simp only [Option.ite_none_right_eq_some, Option.some.injEq, Prod.mk.injEq] at fits
  obtain ⟨isPrefix, rfl, left⟩ := fits
  obtain rfl : spelling = text := by
    have whole := List.prefix_iff_eq_append.1 (List.isPrefixOf_iff_prefix.1 isPrefix)
    rw [left] at whole
    exact List.append_cancel_right whole
  refine List.findSome?_eq_some_iff.2 ⟨earlier, (other, spelling), later, split, ?_, ?_⟩
  · simp [List.isPrefixOf_iff_prefix]
  · intro entry member
    have listed : entry ∈ spellings := by simp [split, member]
    have refused := unfit entry member
    simp only [ite_eq_right_iff, reduceCtorEq, imp_false] at refused ⊢
    exact refused_respaced listed loose refused

theorem punctuator?_none_respaced (loose : Loose more)
    (unfound : punctuator? (text ++ rest) = none) : punctuator? (text ++ more) = none := by
  refine List.findSome?_eq_none_iff.2 fun entry member => ?_
  have refused := List.findSome?_eq_none_iff.1 unfound entry member
  simp only [ite_eq_right_iff, reduceCtorEq, imp_false] at refused ⊢
  exact refused_respaced member loose refused

theorem name_respaced (left : (name openings (text ++ rest)).rest = rest) (loose : Loose more) :
    name openings (text ++ more) = { name openings (text ++ rest) with rest := more } := by
  have taken := takeWhile_eq_of_left left
  obtain ⟨takenToo, ends⟩ := run_respaced rfl taken loose
  simp only [name, taken, takenToo, ends]

/-- Of the bytes that go on with a character as many are taken as before. -/
theorem unexpected_respaced {lead : UInt8}
    (left : (unexpected openings lead (text ++ rest)).rest = rest) (loose : Loose more) :
    unexpected openings lead (text ++ more) =
      { unexpected openings lead (text ++ rest) with rest := more } := by
  let width := ByteClass.width lead - 1
  have taken : ((text ++ rest).take width).takeWhile ByteClass.isContinuation = text := by
    have isPrefix := (List.takeWhile_prefix ByteClass.isContinuation).trans
      (List.take_prefix width (text ++ rest))
    have whole := List.prefix_iff_eq_append.1 isPrefix
    rw [show (text ++ rest).drop _ = rest from left] at whole
    exact List.append_cancel_right whole
  have fits : text.length ≤ width := by
    rw [← taken]
    exact Nat.le_trans (List.takeWhile_prefix _).length_le (List.length_take_le _ _)
  have cut (after : List UInt8) :
      (text ++ after).take width = text ++ after.take (width - text.length) := by
    rw [List.take_append, List.take_of_length_le fits]
  have takenToo : ((text ++ more).take width).takeWhile ByteClass.isContinuation = text := by
    rw [cut] at taken ⊢
    exact (run_respaced rfl taken (loose.take _)).1
  simp only [unexpected, show ByteClass.width lead - 1 = width from rfl, taken, takenToo,
    List.drop_left]

/-- A mark in front is part of the text, if what is left is all that follows it. -/
theorem mark_respaced (mark : List UInt8) (solid : mark.any ByteClass.isBlank = false)
    (loose : Loose more)
    (follows : ∀ after, text ++ rest = mark ++ after → rest <:+ after) :
    (∃ after, text = mark ++ after) ∨
      (∀ after, text ++ rest ≠ mark ++ after) ∧ ∀ after, text ++ more ≠ mark ++ after := by
  by_cases inside : mark <+: text
  · obtain ⟨after, same⟩ := inside
    exact .inl ⟨after, same.symm⟩
  · refine .inr ⟨fun after same => inside ?_, fun after same => inside ?_⟩
    · have bound := (follows after same).length_le
      have lengths := congrArg List.length same
      rw [List.length_append, List.length_append] at lengths
      exact List.prefix_of_prefix_length_le ⟨after, same.symm⟩ (List.prefix_append text rest)
        (by omega)
    · exact prefix_loose solid loose ⟨after, same.symm⟩

theorem plain_respaced {first : UInt8}
    (left : (plain openings first (text ++ rest)).rest = rest) (loose : Loose more)
    (terminated : (plain openings first (text ++ rest)).fault = some .unterminatedString →
      more = []) : plain openings first (text ++ more) =
        { plain openings first (text ++ rest) with rest := more } := by
  unfold plain at left terminated ⊢
  by_cases feed : first = 10
  · rw [if_pos feed] at left
    obtain rfl : text = [] := List.append_left_eq_self.1 left
    rw [if_pos feed, if_pos feed]
    rfl
  rw [if_neg feed] at left terminated ⊢
  rw [if_neg feed]
  cases found : punctuator? (first :: (text ++ rest)) with
  | some taken =>
    obtain ⟨kind, after⟩ := taken
    simp only [found] at left
    obtain rfl : after = rest := left
    have foundToo : punctuator? (first :: text ++ more) = _ := punctuator?_respaced loose found
    rw [List.cons_append] at foundToo
    simp only [foundToo]
  | none =>
    have unfound : punctuator? (first :: text ++ more) = _ := punctuator?_none_respaced loose found
    rw [List.cons_append] at unfound
    simp only [found] at left terminated
    simp only [unfound]
    by_cases underscore : first = 95
    · subst underscore
      rw [if_pos rfl] at left ⊢
      rw [if_pos rfl]
      -- A second underscore would be part of the text, not of what is left.
      have follows (after : List UInt8) (same : 95 :: text ++ rest = [95, 95] ++ after) :
          rest <:+ after := by
        rw [show text ++ rest = 95 :: after from (List.cons.inj same).2] at left
        exact left ▸ List.dropWhile_suffix _
      obtain ⟨after, same⟩ | ⟨single, singleToo⟩ :=
        mark_respaced [95, 95] rfl loose follows
      · obtain rfl := (List.cons.inj same).2
        exact run_lexeme rfl left loose
      · split
        · next after same => exact absurd (congrArg _ same) (singleToo after)
        · split at left
          · next after same => exact absurd (congrArg _ same) (single after)
          · exact run_lexeme rfl left loose
    rw [if_neg underscore] at left terminated ⊢
    rw [if_neg underscore]
    by_cases quote : first = 34
    · rw [if_pos quote] at left terminated ⊢
      rw [if_pos quote]
      exact stringSegment_respaced left terminated
    rw [if_neg quote] at left terminated ⊢
    rw [if_neg quote]
    by_cases digit : ByteClass.isDigit first
    · rw [if_pos digit] at left ⊢
      rw [if_pos digit]
      have follows (after : List UInt8) (same : first :: text ++ rest = [48, 120] ++ after) :
          rest <:+ after := by
        obtain ⟨rfl, marked⟩ := List.cons.inj same
        rw [show text ++ rest = 120 :: after from marked] at left
        exact left ▸ List.dropWhile_suffix _
      obtain ⟨after, same⟩ | ⟨single, singleToo⟩ :=
        mark_respaced [48, 120] rfl loose follows
      · obtain ⟨rfl, rfl⟩ := List.cons.inj same
        exact run_lexeme rfl left loose
      · split
        · next after same => exact absurd (congrArg _ same) (singleToo after)
        · split at left
          · next after same _ => exact absurd (congrArg _ same) (single after)
          · exact run_lexeme rfl left loose
    rw [if_neg digit] at left terminated ⊢
    rw [if_neg digit]
    by_cases letter : ByteClass.isLetter first
    · rw [if_pos letter] at left ⊢
      rw [if_pos letter]
      exact @name_respaced openings (first :: text) rest more left loose
    · rw [if_neg letter] at left ⊢
      rw [if_neg letter]
      exact unexpected_respaced left loose

/-- Which token is in front, and what is wrong with it, is seen from its own text. -/
theorem read_respaced {lexeme : Lexeme} (found : read openings (text ++ rest) = some lexeme)
    (left : lexeme.rest = rest) (loose : Loose more)
    (terminated : lexeme.fault = some .unterminatedString → more = []) :
    read openings (text ++ more) = some { lexeme with rest := more } := by
  cases text with
  | nil =>
    have shorter := length_read_lt found
    rw [left, List.nil_append] at shorter
    exact absurd shorter (Nat.lt_irrefl _)
  | cons first text =>
    have alone (same : text ++ rest = rest) : text ++ more = more := by
      rw [List.append_left_eq_self.1 same, List.nil_append]
    simp only [List.cons_append, read] at found ⊢
    split at found
    · cases found
      rw [alone left]
    · split at found
      · next last =>
        cases found
        rw [if_pos last, stringSegment_respaced left terminated]
      · next nested =>
        cases found
        rw [if_neg nested, alone left]
    · cases found
      rw [plain_respaced left loose terminated]

end Respaced

theorem plain_cases (openings : List Nat) (first : UInt8) (bytes : List UInt8) :
    (plain openings first bytes).fault = none ∨
      plain openings first bytes = stringSegment openings bytes ∨
        plain openings first bytes = unexpected openings first bytes := by
  unfold plain
  split
  · exact .inl rfl
  split
  · exact .inl rfl
  split
  · split <;> exact .inl rfl
  split
  · exact .inr (.inl rfl)
  split
  · split <;> exact .inl rfl
  split
  · exact .inl rfl
  · exact .inr (.inr rfl)

/-- Only string segments and unexpected characters can have a fault. -/
theorem read_cases {openings : List Nat} {bytes : List UInt8} {lexeme : Lexeme}
    (found : read openings bytes = some lexeme) : ∃ first rest, bytes = first :: rest ∧
      (lexeme.fault = none ∨ (∃ outer, lexeme = stringSegment outer rest) ∨
        lexeme = unexpected openings first rest) := by
  cases bytes with
  | nil => cases found
  | cons first rest =>
    refine ⟨first, rest, rfl, ?_⟩
    simp only [read] at found
    split at found
    · cases found
      exact .inl rfl
    · split at found
      · cases found
        exact .inr (.inl ⟨_, rfl⟩)
      · cases found
        exact .inl rfl
    · cases found
      exact (plain_cases openings first rest).imp_right (.imp_left fun same => ⟨openings, same⟩)

/-- A string that is not closed takes all that is left. A comment is no lexeme. -/
structure FaultFits (lexeme : Lexeme) : Prop where
  unclosed : lexeme.fault = some .unterminatedString → lexeme.rest = []
  notComment : lexeme.fault ≠ some .unterminatedBlockComment

theorem FaultFits.of_none {lexeme : Lexeme} (sound : lexeme.fault = none) : lexeme.FaultFits := by
  constructor
  · intro faulty
    rw [sound] at faulty
    cases faulty
  · intro faulty
    rw [sound] at faulty
    cases faulty

theorem stringSegment_fault (openings : List Nat) (bytes : List UInt8) :
    (stringSegment openings bytes).FaultFits := by
  unfold stringSegment
  split
  · exact .of_none rfl
  · exact .of_none rfl
  · next found => exact ⟨fun _ => stringTail_endOfInput found, by simp⟩

theorem read_fault {openings : List Nat} {bytes : List UInt8} {lexeme : Lexeme}
    (found : read openings bytes = some lexeme) : lexeme.FaultFits := by
  obtain ⟨first, rest, -, sound | ⟨outer, rfl⟩ | rfl⟩ := read_cases found
  · exact .of_none sound
  · exact stringSegment_fault outer rest
  · exact ⟨by simp [unexpected], by simp [unexpected]⟩

/-- A character is unexpected only if it was read as a token of its own. -/
theorem read_unexpected {openings : List Nat} {bytes : List UInt8} {lexeme : Lexeme} {char : Char}
    (found : read openings bytes = some lexeme)
    (faulty : lexeme.fault = some (.unexpectedCharacter char)) :
    ∃ lead rest, bytes = lead :: rest ∧ lexeme = unexpected openings lead rest := by
  obtain ⟨first, rest, same, sound | ⟨outer, rfl⟩ | stray⟩ := read_cases found
  · cases sound.symm.trans faulty
  · unfold stringSegment at faulty
    split at faulty <;> cases faulty
  · exact ⟨first, rest, same, stray⟩

end Lexeme

end WrenFront
