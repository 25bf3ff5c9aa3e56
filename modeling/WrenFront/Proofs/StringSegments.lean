import WrenFront.Proofs.LexerLayout

/-! String segments described without the scanner. Nothing in a segment ends it, what ends it is a
quote or the beginning of an interpolation, and a quote ends it exactly if no backslash escapes
it. -/

namespace WrenFront

namespace Lexeme

/-- Bytes that are inside a string segment. A backslash takes the byte after it along. -/
inductive Inside : List UInt8 → Prop where
  | none : Inside []
  | escape {byte text} (others : Inside text) : Inside (92 :: byte :: text)
  | byte {byte text} (notSlash : byte ≠ 92) (notQuote : byte ≠ 34)
      (closed : byte = 37 → text.head? ≠ some 40) (others : Inside text) : Inside (byte :: text)

/-- How a string segment goes on after its first byte, and what is left after it. -/
inductive Tail : StringEnd → List UInt8 → List UInt8 → Prop where
  | quote {body} (inside : Inside body) (rest : List UInt8) : Tail .quote (body ++ 34 :: rest) rest
  | interpolation {body} (inside : Inside body) (rest : List UInt8) :
      Tail .interpolation (body ++ 37 :: 40 :: rest) rest
  /-- The last byte may be a backslash that has nothing to escape. -/
  | endOfInput {body last} (inside : Inside body) (slash : last = [] ∨ last = [92]) :
      Tail .endOfInput (body ++ last) []

theorem Tail.escape {ending : StringEnd} {text rest : List UInt8} (byte : UInt8)
    (tail : Tail ending text rest) : Tail ending (92 :: byte :: text) rest := by
  cases tail with
  | quote inside rest => exact .quote (.escape inside) rest
  | interpolation inside rest => exact .interpolation (.escape inside) rest
  | endOfInput inside slash => exact .endOfInput (.escape inside) slash

theorem Tail.byte {ending : StringEnd} {byte : UInt8} {text rest : List UInt8}
    (notSlash : byte ≠ 92) (notQuote : byte ≠ 34) (closed : byte = 37 → text.head? ≠ some 40)
    (tail : Tail ending text rest) : Tail ending (byte :: text) rest := by
  have inside {body more : List UInt8} (others : Inside body) (same : text = body ++ more) :
      Inside (byte :: body) := by
    refine .byte notSlash notQuote (fun percent opens => closed percent ?_) others
    rw [same, List.head?_append, opens]
    rfl
  cases tail with
  | quote others rest => exact .quote (inside others rfl) rest
  | interpolation others rest => exact .interpolation (inside others rfl) rest
  | endOfInput others slash => exact .endOfInput (inside others rfl) slash

/-- The scanner stops at the first byte that is not inside. -/
theorem stringTail_tail (bytes : List UInt8) :
    Tail (stringTail bytes).1 bytes (stringTail bytes).2 := by
  fun_induction stringTail bytes with
  | case1 => exact .endOfInput .none (.inl rfl)
  | case2 => exact .endOfInput .none (.inr rfl)
  | case3 byte rest ih => exact ih.escape byte
  | case4 rest => exact .interpolation .none rest
  | case5 rest => exact .quote .none rest
  | case6 byte rest noEnd noEscape noOpening notQuote ih =>
    refine ih.byte ?_ notQuote ?_
    · rintro rfl
      cases rest with
      | nil => exact noEnd rfl rfl
      | cons next rest => exact noEscape next rest rfl rfl
    · rintro rfl opens
      obtain ⟨rest, rfl⟩ := List.head?_eq_some_iff.1 opens
      exact noOpening rest rfl rfl

/-- How many backslashes a text ends with. -/
def slashes (text : List UInt8) : Nat :=
  (text.reverse.takeWhile (· = 92)).length

/-- The last byte is a quote, and the backslashes right before it make pairs, so that none of them
escapes it. -/
def ClosedByQuote (text : List UInt8) : Prop :=
  ∃ first body, text = first :: (body ++ [34]) ∧ slashes body % 2 = 0

theorem slashes_all {text : List UInt8} (all : ∀ byte ∈ text, byte = 92) :
    text.reverse.takeWhile (· = 92) = text.reverse := by
  have whole : (text.reverse ++ []).takeWhile (· = 92) = text.reverse ++ [].takeWhile (· = 92) :=
    List.takeWhile_append_of_pos (by simpa using all)
  simpa using whole

theorem slashes_cons (byte : UInt8) (text : List UInt8) : slashes (byte :: text) =
    slashes text + if byte = 92 ∧ text.all (· = 92) then 1 else 0 := by
  rw [slashes, slashes, List.reverse_cons, List.takeWhile_append]
  by_cases all : text.all (· = 92)
  · rw [slashes_all (by simpa using all), if_pos rfl, List.length_append]
    by_cases slash : byte = 92
    · rw [if_pos ⟨slash, all⟩]
      simp [slash]
    · rw [if_neg fun both => slash both.1]
      simp [slash]
  · rw [if_neg, if_neg fun both => all both.2, Nat.add_zero]
    intro same
    have whole := (List.takeWhile_prefix _).eq_of_length same
    have slashes := List.all_eq_true.1 (whole ▸ List.all_takeWhile)
    exact all (by simpa using slashes)

/-- An escape adds two backslashes at the end of a text or none. -/
theorem slashes_escape (byte : UInt8) (text : List UInt8) :
    slashes (92 :: byte :: text) % 2 = slashes text % 2 := by
  simp only [slashes_cons, List.all_cons, Bool.and_eq_true, decide_eq_true_eq, true_and]
  split <;> omega

theorem slashes_byte {byte : UInt8} (notSlash : byte ≠ 92) (text : List UInt8) :
    slashes (byte :: text) = slashes text := by
  rw [slashes_cons, if_neg fun both => notSlash both.1, Nat.add_zero]

theorem Inside.slashes_even {text : List UInt8} (inside : Inside text) : slashes text % 2 = 0 := by
  induction inside with
  | none => rfl
  | escape others ih => rwa [slashes_escape]
  | byte notSlash _ _ _ ih => rwa [slashes_byte notSlash]

/-- What ends a string segment: a quote, or the two bytes that an interpolation begins with. -/
def Marked (bytes : List UInt8) : Prop :=
  bytes.head? = some 34 ∨ [37, 40] <+: bytes

/-- Such a mark is inside only if a backslash escapes it. -/
theorem Inside.escaped {body more : List UInt8} (inside : Inside (body ++ more))
    (marked : Marked more) : slashes body % 2 = 1 := by
  generalize same : body ++ more = text at inside
  -- An escape takes two bytes off the front, which does not change what is counted modulo two.
  induction inside generalizing body with
  | none =>
    obtain ⟨-, rfl⟩ := List.append_eq_nil_iff.1 same
    simp [Marked] at marked
  | @escape byte text others ih =>
    match body, same with
    | [], same =>
      subst same
      simp [Marked] at marked
    | [slash], same =>
      obtain rfl : slash = 92 := (List.cons.inj same).1
      rfl
    | slash :: byte :: body, same =>
      obtain ⟨rfl, rest⟩ := List.cons.inj same
      obtain ⟨-, rest⟩ := List.cons.inj rest
      rw [slashes_escape]
      exact ih rest
  | @byte byte text notSlash notQuote closed others ih =>
    match body, same with
    | [], same =>
      subst same
      rcases marked with quote | ⟨rest, opening⟩
      · exact absurd (Option.some.inj quote) notQuote
      · obtain ⟨rfl, rfl⟩ := List.cons.inj opening
        exact absurd rfl (closed rfl)
    | first :: body, same =>
      obtain ⟨rfl, rest⟩ := List.cons.inj same
      rw [slashes_byte notSlash]
      exact ih rest

/-- A literal is closed by a quote that is not escaped, unless it takes all that is left. -/
theorem Tail.closedByQuote {ending : StringEnd} (first : UInt8) {text rest : List UInt8}
    (tail : Tail ending (text ++ rest) rest) (literal : ending ≠ .interpolation) :
    ending = .quote ↔ ClosedByQuote (first :: text) := by
  constructor
  · rintro rfl
    generalize whole : text ++ rest = bytes at tail
    cases tail with
    | @quote body inside rest =>
      have same : text = body ++ [34] := List.append_cancel_right (by simpa using whole)
      exact ⟨first, body, by rw [same], inside.slashes_even⟩
  · rintro ⟨_, body, same, even⟩
    obtain ⟨-, rfl⟩ := List.cons.inj same
    generalize whole : body ++ [34] ++ rest = bytes at tail
    cases tail with
    | quote inside rest => rfl
    | interpolation => exact absurd rfl literal
    | @endOfInput inner last inside slash =>
      rcases slash with rfl | rfl
      · rw [List.append_nil, List.append_nil] at whole
        rw [← whole] at inside
        exact absurd (even.symm.trans (inside.escaped (.inl rfl))) (by decide)
      · have last := congrArg List.getLast? whole
        simp at last

theorem stringSegment_eq (openings : List Nat) (bytes : List UInt8) :
    (stringSegment openings bytes).rest = (stringTail bytes).2 ∧
      (stringSegment openings bytes).kind =
        (if (stringTail bytes).1 = .interpolation then .interpolation else .string) ∧
      (stringSegment openings bytes).fault =
        if (stringTail bytes).1 = .endOfInput then some .unterminatedString else none := by
  unfold stringSegment
  split <;> simp_all

section Read
variable {openings next : List Nat} {kind : TokenKind} {text rest bytes : List UInt8}
  {fault : Option LexicalFault} {lexeme : Lexeme}

/-- Where the scanner of string segments starts. -/
theorem read_delimited (found : read openings bytes = some lexeme)
    (isString : lexeme.kind ∈ stringKinds) : ∃ first rest outer, (first = 34 ∨ first = 41) ∧
      bytes = first :: rest ∧ lexeme = stringSegment outer rest := by
  cases bytes with
  | nil => cases found
  | cons first rest =>
    simp only [read] at found
    split at found
    · cases found
      simp [stringKinds] at isString
    · split at found
      · exact ⟨41, rest, _, .inr rfl, rfl, (Option.some.inj found).symm⟩
      · cases found
        simp [stringKinds] at isString
    · cases found
      rcases plain_strings openings first rest with ⟨rfl, same⟩ | ⟨other, -⟩
      · exact ⟨34, rest, openings, .inl rfl, rfl, same⟩
      · exact absurd isString other

/-- A string segment is a delimiter and a tail, and it has a fault only if the input ends it. -/
theorem read_segment (found : read openings (text ++ rest) = some ⟨kind, rest, next, fault⟩)
    (isString : kind ∈ stringKinds) : ∃ first body ending, (first = 34 ∨ first = 41) ∧
      text = first :: body ∧ Tail ending (body ++ rest) rest ∧
      kind = (if ending = .interpolation then .interpolation else .string) ∧
      fault = if ending = .endOfInput then some .unterminatedString else none := by
  obtain ⟨first, bytes, outer, delimits, same, segment⟩ := read_delimited found isString
  obtain ⟨left, kinds, faults⟩ := stringSegment_eq outer bytes
  rw [← segment] at left kinds faults
  cases text with
  | nil =>
    have shorter := length_read_lt found
    exact absurd shorter (Nat.lt_irrefl _)
  | cons other body =>
    obtain ⟨rfl, rfl⟩ := List.cons.inj same
    have tail := stringTail_tail (body ++ rest)
    rw [show (stringTail (body ++ rest)).2 = rest from left.symm] at tail
    exact ⟨other, body, _, delimits, rfl, tail, kinds, faults⟩

theorem read_unterminated (found : read openings bytes = some lexeme)
    (faulty : lexeme.fault = some .unterminatedString) : lexeme.kind = .string := by
  obtain ⟨first, rest, -, sound | ⟨outer, rfl⟩ | rfl⟩ := read_cases found
  · cases sound.symm.trans faulty
  · obtain ⟨-, kind, fault⟩ := stringSegment_eq outer rest
    rw [fault] at faulty
    rw [kind]
    split at faulty
    · next ends => rw [ends]; rfl
    · cases faulty
  · cases faulty

/-- A literal has a fault exactly if no quote closes it, and then it takes all that is left. -/
theorem read_literal (found : read openings (text ++ rest) = some ⟨.string, rest, next, fault⟩) :
    (ClosedByQuote text ∧ fault = none) ∨
      (¬ ClosedByQuote text ∧ fault = some .unterminatedString ∧ rest = []) := by
  obtain ⟨first, body, ending, -, rfl, tail, kind, rfl⟩ := read_segment found (by decide)
  have literal : ending ≠ .interpolation := by
    rintro rfl
    cases kind
  have closed := tail.closedByQuote first literal
  cases ending with
  | quote => exact .inl ⟨closed.1 rfl, rfl⟩
  | interpolation => exact absurd rfl literal
  | endOfInput =>
    refine .inr ⟨fun quote => absurd (closed.2 quote) (by decide), rfl, ?_⟩
    generalize body ++ rest = bytes at tail
    cases tail
    rfl

theorem plain_error (openings : List Nat) (first : UInt8) (rest : List UInt8) :
    (plain openings first rest).kind ≠ .error ∨
      ∃ char, (plain openings first rest).fault = some (.unexpectedCharacter char) := by
  unfold plain
  split
  · exact .inl (by simp)
  split
  · next kind rest found =>
    have apart : ∀ kind ∈ TokenKind.punctuators, kind ≠ .error := by decide
    exact .inl (apart kind (punctuator?_kind found))
  split
  · split <;> exact .inl (by simp)
  split
  · have strings := stringSegment_kind openings rest
    have apart : ∀ kind ∈ [TokenKind.string, .interpolation], kind ≠ .error := by decide
    exact .inl (apart _ strings)
  split
  · split <;> exact .inl (by simp)
  split
  · left
    simp only [name]
    cases found : TokenKind.keyword?
        (Text.Utf8.text ((first :: rest).takeWhile ByteClass.isWord)) with
    | none => decide
    | some kind =>
      have apart : ∀ kind ∈ TokenKind.keywords, kind ≠ .error := by decide
      exact apart kind (List.mem_of_find?_eq_some found)
  · exact .inr ⟨_, rfl⟩

/-- An error token is always an unexpected character. -/
theorem read_error (found : read openings bytes = some lexeme) (isError : lexeme.kind = .error) :
    ∃ char, lexeme.fault = some (.unexpectedCharacter char) := by
  cases bytes with
  | nil => cases found
  | cons first rest =>
    simp only [read] at found
    split at found
    · cases found
      cases isError
    · next depth outer =>
      split at found
      · cases found
        have strings := stringSegment_kind outer rest
        rw [isError] at strings
        simp at strings
      · cases found
        cases isError
    · cases found
      exact (plain_error openings first rest).resolve_left fun other => other isError

end Read
end Lexeme

/-- What a read makes of the bytes in front, seen from the token. -/
theorem Lexer.read_lexeme {lexer : Lexer} (placed : lexer.Placed)
    (more : lexer.read.1.kind ≠ .eof) :
    Lexeme.read lexer.openings (lexer.read.1.bytes lexer.source ++ lexer.read.2.rest) =
      some ⟨lexer.read.1.kind, lexer.read.2.rest, lexer.read.2.openings, lexer.fault?⟩ := by
  obtain ⟨lexeme, found⟩ := exists_lexeme more
  obtain ⟨text, front⟩ := Lexeme.read_suffix found
  obtain ⟨kind, -, rest, openings⟩ := read_found found
  have fault : lexer.fault? = lexeme.fault := by rw [fault?, found, Option.bind_some]
  rw [bytes_read placed found front.symm, rest, front, found, kind, openings, fault]

end WrenFront
