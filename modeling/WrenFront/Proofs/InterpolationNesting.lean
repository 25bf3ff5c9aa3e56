import WrenFront.Proofs.LexemeGrammar

/-! Interpolations nest, and so do the parentheses inside each of them. The lexer keeps a number for
every open interpolation; what these numbers stand for is read off the tokens alone, by going through
those that follow the segment which opened it. -/

namespace WrenFront

def parenKinds : List TokenKind :=
  [.leftParen, .rightParen]

/-- No parenthesis is closed before it is opened. -/
def Opened (parens : List TokenKind) : Prop :=
  ∀ front, front <+: parens → front.count .rightParen ≤ front.count .leftParen

theorem opened_nil : Opened [] := by
  intro front isPrefix
  rw [List.prefix_nil.1 isPrefix]
  exact Nat.le_refl _

theorem Opened.concat {parens : List TokenKind} (opened : Opened parens) {kind : TokenKind}
    (bound : (parens ++ [kind]).count .rightParen ≤ (parens ++ [kind]).count .leftParen) :
    Opened (parens ++ [kind]) := by
  intro front isPrefix
  rcases List.prefix_concat_iff.1 isPrefix with rfl | shorter
  · exact bound
  · exact opened front shorter

/-- The tokens after a segment that opened an interpolation: how many others are open inside it, and
the parentheses that stand in it and in none of those. -/
structure Inside where
  others : Nat := 0
  parens : List TokenKind := []

namespace Inside

/-- Goes on by one token, unless it resumes the string and so ends the interpolation. -/
def next? (source : Source) (inside : Inside) (token : Token) : Option Inside :=
  match token.resumes source, inside.others with
  | true, 0 => none
  | true, others + 1 => some { inside with others := others + token.opens.toNat }
  | false, others => some
    { others := others + token.opens.toNat,
      parens := if others = 0 ∧ token.kind ∈ parenKinds then inside.parens ++ [token.kind]
        else inside.parens }

def after? (source : Source) (inside : Inside) (tokens : List Token) : Option Inside :=
  tokens.foldlM (next? source) inside

variable {source : Source} {token : Token}

theorem next?_resumes (resumes : token.resumes source) (others : Nat) (parens : List TokenKind) :
    next? source ⟨others + 1, parens⟩ token = some ⟨others + token.opens.toNat, parens⟩ := by
  simp only [next?, resumes]

theorem next?_fresh (fresh : token.resumes source = false) (others : Nat)
    (parens : List TokenKind) :
    next? source ⟨others, parens⟩ token = some ⟨others + token.opens.toNat,
      if others = 0 ∧ token.kind ∈ parenKinds then parens ++ [token.kind] else parens⟩ := by
  simp only [next?, fresh]

theorem next?_outside (fresh : token.resumes source = false) {others : Nat}
    (parens : List TokenKind) (outside : others ≠ 0 ∨ token.kind ∉ parenKinds) :
    next? source ⟨others, parens⟩ token = some ⟨others + token.opens.toNat, parens⟩ := by
  have not : ¬ (others = 0 ∧ token.kind ∈ parenKinds) := by
    rintro ⟨zero, paren⟩
    exact outside.elim (· zero) (· paren)
  rw [next?_fresh fresh, if_neg not]

/-- How many others are open changes by the same amount wherever the count begins. -/
theorem next?_shift {inside next lifted lifted' : Inside} {extra : Nat}
    (steps : next? source inside token = some next)
    (stepsToo : next? source lifted token = some lifted')
    (same : lifted.others = inside.others + extra) : lifted'.others = next.others + extra := by
  obtain ⟨others, parens⟩ := inside
  obtain ⟨othersToo, parensToo⟩ := lifted
  dsimp only at same
  subst same
  cases resumes : token.resumes source with
  | false =>
    rw [next?_fresh resumes] at steps stepsToo
    cases steps
    cases stepsToo
    exact Nat.add_right_comm _ _ _
  | true =>
    cases others with
    | zero => simp [next?, resumes] at steps
    | succ others =>
      rw [next?_resumes resumes] at steps
      rw [Nat.add_right_comm, next?_resumes resumes] at stepsToo
      cases steps
      cases stepsToo
      exact Nat.add_right_comm _ _ _

theorem after?_shift {tokens : List Token} {inside next lifted lifted' : Inside} {extra : Nat}
    (steps : after? source inside tokens = some next)
    (stepsToo : after? source lifted tokens = some lifted')
    (same : lifted.others = inside.others + extra) : lifted'.others = next.others + extra := by
  induction tokens generalizing inside lifted with
  | nil =>
    cases steps
    cases stepsToo
    exact same
  | cons token tokens ih =>
    obtain ⟨middle, step, steps⟩ := Option.bind_eq_some_iff.1 steps
    obtain ⟨middleToo, stepToo, stepsToo⟩ := Option.bind_eq_some_iff.1 stepsToo
    exact ih steps stepsToo (next?_shift step stepToo same)

/-- Where a segment opens an interpolation there is one more inside. -/
theorem next?_opens {inside next : Inside} (opens : token.opens)
    (steps : next? source inside token = some next) : 0 < next.others := by
  unfold next? at steps
  split at steps
  · cases steps
  · cases steps
    simp [opens]
  · cases steps
    simp [opens]

end Inside

/-- Some segment has opened an interpolation that is still open after the tokens, with `others` open
inside it. With none inside it, it is the latest that has not been resumed. -/
def Unresumed (source : Source) (tokens : List Token) (others : Nat) (parens : List TokenKind) :
    Prop :=
  ∃ before segment since, tokens = before ++ segment :: since ∧ segment.opens ∧
    Inside.after? source {} since = some ⟨others, parens⟩

section Unresumed
variable {source : Source} {tokens : List Token} {token : Token} {others : Nat}
  {parens : List TokenKind}

theorem unresumed_concat (opens : token.opens) : Unresumed source (tokens ++ [token]) 0 [] :=
  ⟨tokens, token, [], rfl, opens, rfl⟩

theorem Unresumed.concat {next : Inside} (unresumed : Unresumed source tokens others parens)
    (steps : Inside.next? source ⟨others, parens⟩ token = some next) :
    Unresumed source (tokens ++ [token]) next.others next.parens := by
  obtain ⟨before, segment, since, rfl, opens, after⟩ := unresumed
  refine ⟨before, segment, since ++ [token], ?_, opens, ?_⟩
  · rw [List.append_assoc, List.cons_append]
  · change (since ++ [token]).foldlM (Inside.next? source) {} = _
    rw [List.foldlM_append]
    change (Inside.after? source {} since).bind _ = _
    rw [after, Option.bind_some, List.foldlM_cons, steps]
    rfl

/-- An interpolation with none open inside it is not followed by another that is still open. -/
theorem unresumed_last {segment later : Token} {middle since sinceToo : List Token}
    {parensToo : List TokenKind} (split : segment :: since = middle ++ later :: sinceToo)
    (opens : later.opens) (outer : Inside.after? source {} since = some ⟨0, parens⟩)
    (inner : Inside.after? source {} sinceToo = some ⟨0, parensToo⟩) : parens = parensToo := by
  cases middle with
  | nil =>
    obtain ⟨-, rfl⟩ := List.cons.inj split
    rw [outer] at inner
    cases inner
    rfl
  | cons first middle =>
    have longer : since = middle ++ later :: sinceToo := (List.cons.inj split).2
    rw [longer, Inside.after?, List.foldlM_append] at outer
    obtain ⟨between, -, outer⟩ := Option.bind_eq_some_iff.1 outer
    rw [List.foldlM_cons] at outer
    obtain ⟨opened, step, outer⟩ := Option.bind_eq_some_iff.1 outer
    have more := Inside.next?_opens opens step
    have same := Inside.after?_shift inner outer (Nat.zero_add _).symm
    dsimp only at same
    omega

theorem Unresumed.unique {parensToo : List TokenKind}
    (unresumed : Unresumed source tokens 0 parens)
    (unresumedToo : Unresumed source tokens 0 parensToo) : parens = parensToo := by
  obtain ⟨before, segment, since, rfl, opens, after⟩ := unresumed
  obtain ⟨beforeToo, segmentToo, sinceToo, same, opensToo, afterToo⟩ := unresumedToo
  rcases List.append_eq_append_iff.1 same with ⟨middle, -, split⟩ | ⟨middle, -, split⟩
  · exact unresumed_last split opensToo after afterToo
  · exact (unresumed_last split opens afterToo after).symm

end Unresumed

/-- What a token does to the stack of the lexer. -/
inductive Token.Turns (source : Source) (token : Token) : List Nat → List Nat → Prop where
  | resume {depth outer} (resumes : token.resumes source) (last : depth ≤ 1) :
      Turns source token (depth :: outer) (if token.opens then 1 :: outer else outer)
  | start {openings} (fresh : token.resumes source = false) (opens : token.opens) :
      Turns source token openings (1 :: openings)
  | left {depth outer} (isLeft : token.kind = .leftParen) :
      Turns source token (depth :: outer) ((depth + 1) :: outer)
  | right {depth outer} (isRight : token.kind = .rightParen) (more : 1 < depth) :
      Turns source token (depth :: outer) ((depth - 1) :: outer)
  | other {openings} (fresh : token.resumes source = false) (closed : token.opens = false)
      (counted : openings = [] ∨ token.kind ∉ parenKinds) : Turns source token openings openings

namespace Lexeme

theorem stringSegment_opens (openings : List Nat) (bytes : List UInt8) :
    (stringSegment openings bytes).openings =
      if (stringSegment openings bytes).kind = .interpolation then 1 :: openings else openings := by
  unfold stringSegment
  split <;> rfl

/-- What a lexeme does to the stack, seen from the token that is made of it. -/
theorem read_turns {source : Source} {token : Token} {openings : List Nat} {first : UInt8}
    {rest : List UInt8} {lexeme : Lexeme} (found : read openings (first :: rest) = some lexeme)
    (kind : token.kind = lexeme.kind) (begins : token.first? source = some first)
    (parens : lexeme.kind ∈ parenKinds → first = 40 ∨ first = 41) :
    token.Turns source openings lexeme.openings := by
  have resumes : token.resumes source = decide (lexeme.kind ∈ stringKinds ∧ first = 41) := by
    simp only [Token.resumes, kind, begins, Option.some.injEq]
  have opens : token.opens = decide (lexeme.kind = .interpolation) := by
    simp only [Token.opens, kind]
  simp only [read] at found
  split at found
  · cases found
    exact .left kind
  · next depth outer =>
    split at found
    · next last =>
      cases found
      have isString : (stringSegment outer rest).kind ∈ stringKinds := stringSegment_kind outer rest
      rw [stringSegment_opens, ← kind]
      have turns : token.Turns source (depth :: outer) (if token.opens then 1 :: outer else outer) :=
        .resume (by simp [resumes, isString]) last
      simpa [Token.opens] using turns
    · cases found
      exact .right kind (by omega)
  · next notLeft notRight =>
    cases found
    rcases plain_strings openings first rest with ⟨rfl, same⟩ | ⟨notString, same⟩
    · have fresh : token.resumes source = false := by simp [resumes]
      rw [same] at kind opens ⊢
      rw [stringSegment_opens]
      split
      · next isOpening => exact .start fresh (by simp [opens, isOpening])
      · next isLiteral =>
        refine .other fresh (by simp [opens, isLiteral]) (.inr ?_)
        have apart : ∀ kind ∈ stringKinds, kind ∉ parenKinds := by decide
        rw [kind]
        exact apart _ (stringSegment_kind openings rest)
    · rw [same]
      refine .other (by simp [resumes, notString]) ?_ ?_
      · have plain : (Lexeme.plain openings first rest).kind ≠ .interpolation := by
          intro opening
          rw [opening] at notString
          exact notString (by decide)
        simp [opens, plain]
      · cases openings with
        | nil => exact .inl rfl
        | cons depth outer =>
          refine .inr fun paren => ?_
          rw [kind] at paren
          rcases parens paren with rfl | rfl
          · exact notLeft depth outer rfl rfl
          · exact notRight depth outer rfl rfl

/-- Only parentheses are written as parentheses. -/
theorem Written.paren {kind : TokenKind} {text after : List UInt8}
    (written : Written kind text after) (paren : kind ∈ parenKinds) :
    text = [40] ∨ text = [41] := by
  simp only [parenKinds, List.mem_cons, List.not_mem_nil, or_false] at paren
  rcases paren with rfl | rfl
  · exact .inl (Option.some.inj (Fixed.spelled written)).symm
  · exact .inr (Option.some.inj (Fixed.spelled written)).symm

end Lexeme

namespace Source

/-- The tokens that have been read. -/
def history (source : Source) (reads : Nat) : List Token :=
  (List.range reads).map source.token

theorem history_succ (source : Source) (reads : Nat) :
    source.history (reads + 1) = source.history reads ++ [source.token reads] := by
  simp [history, List.range_succ]

/-- The interpolations that are open, innermost first. -/
def openings (source : Source) (reads : Nat) : List Nat :=
  (source.lexerAfter reads).openings

/-- A read gives the end token and changes no interpolation, or it gives a token that begins with
the byte in front. -/
theorem token_read (source : Source) (reads : Nat) :
    ((source.token reads).kind = .eof ∧ source.openings (reads + 1) = source.openings reads) ∨
      ∃ first rest lexeme, (source.token reads).first? source = some first ∧
        Lexeme.read (source.openings reads) (first :: rest) = some lexeme ∧
          lexeme.kind = (source.token reads).kind ∧
            lexeme.openings = source.openings (reads + 1) := by
  have cuts := (source.token_cuts reads).1
  rw [openings, openings, lexerAfter_succ]
  rcases cuts.token with ⟨-, atEnd, same⟩ | ⟨fault, found⟩
  · exact .inl ⟨atEnd, same⟩
  · cases text : (source.token reads).bytes source with
    | nil =>
      rw [text] at found
      exact absurd (Lexeme.length_read_lt found) (Nat.lt_irrefl _)
    | cons first more =>
      rw [text] at found
      exact .inr ⟨first, _, _, by rw [Token.first?, text, List.head?_cons], found, rfl, rfl⟩

theorem token_turns (source : Source) (reads : Nat) :
    (source.token reads).Turns source (source.openings reads) (source.openings (reads + 1)) := by
  rcases source.token_read reads with ⟨atEnd, same⟩ | ⟨first, rest, lexeme, begins, found, kind, same⟩
  · rw [same]
    exact .other (by simp [Token.resumes, atEnd, stringKinds]) (by simp [Token.opens, atEnd])
      (.inr (by simp [atEnd, parenKinds]))
  · rw [← same]
    refine Lexeme.read_turns found kind.symm begins fun paren => ?_
    have written := (source.token_cuts reads).1.written
    rw [kind] at paren
    rw [Token.first?] at begins
    rcases written.paren paren with text | text
    · rw [text] at begins
      exact .inl (Option.some.inj begins).symm
    · rw [text] at begins
      exact .inr (Option.some.inj begins).symm

end Source

/-- What the numbers of the stack stand for: each entry is one more than the parentheses that are
open in its interpolation, after the tokens that have been read. -/
def Tracks (source : Source) (tokens : List Token) (openings : List Nat) : Prop :=
  ∀ others depth, openings[others]? = some depth → ∃ parens,
    Unresumed source tokens others parens ∧ Opened parens ∧
      depth + parens.count .rightParen = parens.count .leftParen + 1

section Tracks
variable {source : Source} {tokens : List Token} {token : Token} {openings next : List Nat}

theorem Token.paren_closed (source : Source) (paren : token.kind ∈ parenKinds) :
    token.resumes source = false ∧ token.opens = false := by
  have apart : ∀ kind ∈ parenKinds, kind ∉ stringKinds ∧ kind ≠ .interpolation := by decide
  obtain ⟨notString, notOpening⟩ := apart _ paren
  simp [Token.resumes, Token.opens, notString, notOpening]

/-- The entry of an interpolation that the token adds no parenthesis to. -/
theorem Tracks.keep (tracks : Tracks source tokens openings) (others : Nat) {depth moved : Nat}
    (entry : openings[others]? = some depth)
    (steps : ∀ parens, Inside.next? source ⟨others, parens⟩ token = some ⟨moved, parens⟩) :
    ∃ parens, Unresumed source (tokens ++ [token]) moved parens ∧ Opened parens ∧
      depth + parens.count .rightParen = parens.count .leftParen + 1 := by
  obtain ⟨parens, unresumed, opened, counts⟩ := tracks others depth entry
  exact ⟨parens, unresumed.concat (steps parens), opened, counts⟩

/-- The entry of the interpolation that a parenthesis stands in. -/
theorem Tracks.add {depth depth' : Nat} {outer : List Nat}
    (tracks : Tracks source tokens (depth :: outer)) (paren : token.kind ∈ parenKinds)
    (positive : 0 < depth') (counts : depth' + [token.kind].count .rightParen =
      depth + [token.kind].count .leftParen) :
    ∃ parens, Unresumed source (tokens ++ [token]) 0 parens ∧ Opened parens ∧
      depth' + parens.count .rightParen = parens.count .leftParen + 1 := by
  obtain ⟨fresh, closed⟩ := Token.paren_closed source paren
  obtain ⟨parens, unresumed, opened, before⟩ := tracks 0 depth rfl
  have steps : Inside.next? source ⟨0, parens⟩ token = some ⟨0, parens ++ [token.kind]⟩ := by
    rw [Inside.next?_fresh fresh, closed, if_pos ⟨rfl, paren⟩]
    rfl
  have after : depth' + (parens ++ [token.kind]).count .rightParen =
      (parens ++ [token.kind]).count .leftParen + 1 := by
    rw [List.count_append, List.count_append]
    omega
  exact ⟨parens ++ [token.kind], unresumed.concat steps, opened.concat (by omega), after⟩

/-- The entry of the interpolation that a token opens. -/
theorem tracks_begin (opens : token.opens) :
    ∃ parens, Unresumed source (tokens ++ [token]) 0 parens ∧ Opened parens ∧
      1 + parens.count .rightParen = parens.count .leftParen + 1 :=
  ⟨[], unresumed_concat opens, opened_nil, rfl⟩

theorem Tracks.paren {depth depth' : Nat} {outer : List Nat}
    (tracks : Tracks source tokens (depth :: outer)) (paren : token.kind ∈ parenKinds)
    (positive : 0 < depth') (counts : depth' + [token.kind].count .rightParen =
      depth + [token.kind].count .leftParen) :
    Tracks source (tokens ++ [token]) (depth' :: outer) := by
  obtain ⟨fresh, closed⟩ := Token.paren_closed source paren
  intro others entry found
  cases others with
  | zero =>
    cases found
    exact tracks.add paren positive counts
  | succ others =>
    refine tracks.keep (others + 1) found fun parens => ?_
    rw [Inside.next?_outside fresh parens (.inl (Nat.succ_ne_zero _)), closed]
    rfl

theorem Token.Turns.tracks (turns : token.Turns source openings next)
    (tracks : Tracks source tokens openings) : Tracks source (tokens ++ [token]) next := by
  cases turns with
  | @resume top outer resumes last =>
    intro others depth entry
    split at entry
    · next opens =>
      cases others with
      | zero =>
        cases entry
        exact tracks_begin opens
      | succ others =>
        refine tracks.keep (others + 1) entry fun parens => ?_
        rw [Inside.next?_resumes resumes, opens]
        rfl
    · next literal =>
      refine tracks.keep (others + 1) entry fun parens => ?_
      rw [Inside.next?_resumes resumes, Bool.eq_false_iff.2 literal]
      rfl
  | start fresh opens =>
    intro others depth entry
    cases others with
    | zero =>
      cases entry
      exact tracks_begin opens
    | succ others =>
      refine tracks.keep others entry fun parens => ?_
      have kind : token.kind = .interpolation := by simpa [Token.opens] using opens
      rw [Inside.next?_outside fresh parens (.inr (by simp [kind, parenKinds])), opens]
      rfl
  | left isLeft =>
    exact tracks.paren (by simp [isLeft, parenKinds]) (Nat.succ_pos _) (by rw [isLeft]; rfl)
  | right isRight more =>
    refine tracks.paren (by simp [isRight, parenKinds]) (by omega) ?_
    rw [isRight]
    exact Nat.sub_add_cancel (Nat.le_of_lt more)
  | other fresh closed counted =>
    rcases counted with rfl | notParen
    · exact fun _ _ entry => absurd entry (by simp)
    · intro others depth entry
      refine tracks.keep others entry fun parens => ?_
      rw [Inside.next?_outside fresh parens (.inr notParen), closed]
      rfl

theorem Token.Turns.resumed (turns : token.Turns source openings next)
    (resumes : token.resumes source) : ∃ depth outer, openings = depth :: outer ∧ depth ≤ 1 := by
  have notParen (paren : token.kind ∈ parenKinds) : False := by
    rw [(Token.paren_closed source paren).1] at resumes
    cases resumes
  cases turns with
  | resume _ last => exact ⟨_, _, rfl, last⟩
  | start fresh | other fresh =>
    rw [fresh] at resumes
    cases resumes
  | left isLeft => exact (notParen (by simp [isLeft, parenKinds])).elim
  | right isRight => exact (notParen (by simp [isRight, parenKinds])).elim

theorem Token.Turns.closed (turns : token.Turns source openings next)
    (isRight : token.kind = .rightParen) :
    openings = [] ∨ ∃ depth outer, openings = depth :: outer ∧ 1 < depth := by
  have paren : token.kind ∈ parenKinds := by simp [isRight, parenKinds]
  obtain ⟨fresh, closed⟩ := Token.paren_closed source paren
  cases turns with
  | resume resumes =>
    rw [fresh] at resumes
    cases resumes
  | start _ opens =>
    rw [closed] at opens
    cases opens
  | left isLeft =>
    rw [isRight] at isLeft
    cases isLeft
  | right _ more => exact .inr ⟨_, _, rfl, more⟩
  | other _ _ counted => exact .inl (counted.resolve_right (· paren))

end Tracks

namespace Source
variable (source : Source)

variable {source} {reads : Nat}

end Source

theorem Lexeme.bytes_tail (kind : TokenKind) : ∀ text ∈ kind.bytes?, 41 ∉ text.tail := by
  cases kind <;> decide

/-- Past its first byte, only a string segment has parentheses. -/
theorem Lexeme.Written.tail {kind : TokenKind} {text after : List UInt8}
    (written : Written kind text after) (paren : 41 ∈ text.tail) : kind ∈ stringKinds := by
  have run {isClass : UInt8 → Bool} {word after : List UInt8} (run : Run isClass word after)
      (other : isClass 41 = false) : 41 ∉ word := by
    intro member
    rw [run.all 41 member] at other
    cases other
  have fixed (spelled : Fixed kind text after) : kind ∈ stringKinds :=
    absurd paren (bytes_tail kind text spelled.spelled)
  cases kind
  case string | interpolation => decide
  case name => exact absurd (List.mem_of_mem_tail paren) (run written.word rfl)
  case field =>
    obtain ⟨word, rfl, -, isWord⟩ := written
    exact absurd paren (run isWord rfl)
  case staticField =>
    obtain ⟨word, rfl, isWord⟩ := written
    exact absurd paren (by simpa using run isWord rfl)
  case number =>
    rcases written with ⟨digits, rfl, isHex⟩ | ⟨-, isDecimal, -⟩
    · exact absurd paren (by simpa using run isHex rfl)
    · exact absurd (List.mem_of_mem_tail paren) (run isDecimal rfl)
  case error =>
    obtain ⟨lead, more, rfl, -, continues, -⟩ := written
    exact absurd (continues 41 paren) (by decide)
  case eof =>
    rw [written.1] at paren
    cases paren
  all_goals exact fixed written

namespace Source
variable {source : Source} {reads offset : Nat}

end Source

end WrenFront
