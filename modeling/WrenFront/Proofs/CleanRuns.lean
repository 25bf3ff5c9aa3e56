import WrenFront.Proofs.LexerStream
import WrenFront.Proofs.Grammar

/-! Runs without a complaint, on tokens read in advance. `Yields` says what follows from such a run,
and `Runs` says that there is one. Both are read forward over a rule: what is left of the tokens
after one move is what the next move begins at. -/

namespace WrenFront
open Grammar (front)

/-- The end token comes last, and only there. -/
inductive Ended : List Token → Prop where
  | last {token} (ends : token.kind = .eof) : Ended [token]
  | more {token rest} (before : token.kind ≠ .eof) (others : Ended rest) : Ended (token :: rest)

theorem Ended.tail {token : Token} {rest : List Token} (ended : Ended (token :: rest))
    (before : token.kind ≠ .eof) : Ended rest := by
  cases ended with
  | last ends => exact absurd ends before
  | more _ others => exact others

theorem Ended.cons {input : List Token} (ended : Ended input) : ∃ token rest, input = token :: rest := by
  cases ended with
  | last => exact ⟨_, _, rfl⟩
  | more => exact ⟨_, _, rfl⟩

namespace ParserState

/-- The tokens that have not been taken. -/
def ahead (state : ParserState Reel Token) : List Token :=
  state.current.toList ++ state.feed.tokens

/-- A parser on a reel, before the end token. -/
structure Fed (state : ParserState Reel Token) : Prop where
  roomy : state.Roomy
  ended : Ended state.ahead

end ParserState

theorem Source.tokens_ended (source : Source) : Ended source.tokens := by
  obtain ⟨before, same, kinds, -⟩ := (Lexer.ofSource source).readAll_ends
  rw [Source.tokens, same]
  clear same
  induction before with
  | nil => exact .last rfl
  | cons token before ih =>
    exact .more (kinds token List.mem_cons_self)
      (ih fun token member => kinds token (List.mem_cons_of_mem _ member))

namespace Parse
open ParserState
variable {α β : Type}

theorem lookahead_ahead {state : ParserState Reel Token} {token : Token} {rest : List Token}
    (ahead : state.ahead = token :: rest) :
    (lookahead state).1 = token ∧ (lookahead state).2.ahead = token :: rest := by
  obtain ⟨⟨tokens, last⟩, current⟩ := state
  cases current with
  | some found =>
    obtain ⟨rfl, same⟩ := List.cons.inj ahead
    exact ⟨rfl, ahead⟩
  | none =>
    cases tokens with
    | nil => cases ahead
    | cons found tokens =>
      obtain ⟨rfl, same⟩ := List.cons.inj ahead
      exact ⟨rfl, ahead⟩

theorem ofReel_fed (source : Source) : (ofFeed source.reel).Fed ∧
    (ofFeed source.reel).ahead = source.tokens ∧ (ofFeed source.reel).depth = 0 ∧
      (ofFeed source.reel).problems = [] := by
  obtain ⟨token, rest, cons⟩ := source.tokens_ended.cons
  have unread : ahead { feed := source.reel, rounds := Feed.unread source.reel + 2 } =
      token :: rest := cons
  have ahead : (ofFeed source.reel).ahead = source.tokens :=
    (lookahead_ahead unread).2.trans cons.symm
  exact ⟨⟨ofReel_roomy rfl, ahead ▸ source.tokens_ended⟩, ahead, (ofFeed_takes _).depth,
    lookahead_problems _⟩

theorem lookahead_front {state : ParserState Reel Token} (fed : state.Fed) :
    (lookahead state).1.kind = front state.ahead ∧ (lookahead state).2.ahead = state.ahead ∧
      (lookahead state).2.Fed := by
  obtain ⟨token, rest, ahead⟩ := fed.ended.cons
  obtain ⟨first, same⟩ := lookahead_ahead ahead
  have unchanged : (lookahead state).2.ahead = state.ahead := same.trans ahead.symm
  refine ⟨by rw [first, ahead]; rfl, unchanged, (lookahead_takes state).1.roomy fed.roomy, ?_⟩
  rw [unchanged]
  exact fed.ended

theorem advance_ahead {state : ParserState Reel Token} {token : Token} {rest : List Token}
    (ahead : state.ahead = token :: rest) :
    (advance state).1 = token ∧ (advance state).2.ahead = rest := by
  obtain ⟨first, same⟩ := lookahead_ahead ahead
  refine ⟨first, ?_⟩
  have read := (lookahead_takes state).2
  rw [ParserState.ahead, read] at same
  exact (List.cons.inj same).2

theorem advance_fed {state : ParserState Reel Token} {token : Token} {rest : List Token}
    (fed : state.Fed) (ahead : state.ahead = token :: rest) (before : token.kind ≠ .eof) :
    (advance state).2.Fed := by
  refine ⟨(advance_takes state).roomy fed.roomy, ?_⟩
  rw [(advance_ahead ahead).2]
  exact (ahead ▸ fed.ended).tail before

/-- What a run gives and leaves if it makes no complaint. -/
def Yields (input : List Token) (program : Parse Reel Token α)
    (post : α → List Token → Prop) : Prop :=
  ∀ state, state.Fed → state.ahead = input → (program state).2.problems = state.problems →
    post (program state).1 (program state).2.ahead ∧ (program state).2.Fed

/-- A run gives `value` and leaves `rest`, without a complaint. -/
def Runs (input : List Token) (program : Parse Reel Token α) (value : α) (rest : List Token) :
    Prop :=
  ∀ state, state.Fed → state.ahead = input → (program state).1 = value ∧
    (program state).2.ahead = rest ∧ (program state).2.problems = state.problems ∧
      (program state).2.Fed

section Yields
variable {input : List Token} {post : β → List Token → Prop}

theorem Yields.pure {value : β} (holds : post value input) :
    Yields input (Pure.pure value) post := by
  intro state fed ahead _
  exact ⟨ahead ▸ holds, fed⟩

theorem Yields.mono {program : Parse Reel Token β} {weaker : β → List Token → Prop}
    (yields : Yields input program post) (implies : ∀ value rest, post value rest → weaker value rest) :
    Yields input program weaker := by
  intro state fed ahead clean
  obtain ⟨holds, after⟩ := yields state fed ahead clean
  exact ⟨implies _ _ holds, after⟩

/-- A run without a complaint has none in its parts, since problems are never withdrawn. -/
theorem Yields.bind {program : Parse Reel Token α} {next : α → Parse Reel Token β}
    {middle : α → List Token → Prop} [Steps program] (first : Yields input program middle)
    (rest : ∀ value left, middle value left → Yields left (next value) post)
    [∀ value, Steps (next value)] :
    Yields input (program >>= next) post := by
  intro state fed ahead clean
  obtain ⟨_, begins⟩ := takes program state
  obtain ⟨_, goesOn⟩ := takes (next (program state).1) (program state).2
  rw [bind_apply] at clean ⊢
  have cleanFirst := begins.clean goesOn clean
  obtain ⟨holds, after⟩ := first state fed ahead cleanFirst
  exact rest _ _ holds _ after rfl (clean.trans cleanFirst.symm)

theorem Yields.map {program : Parse Reel Token α} {f : α → β}
    (yields : Yields input program fun value rest => post (f value) rest) :
    Yields input (f <$> program) post :=
  yields

theorem peek_bind {next : TokenKind → Parse Reel Token β} {state : ParserState Reel Token}
    (fed : state.Fed) : (peek >>= next) state = next (front state.ahead) (lookahead state).2 := by
  rw [← (lookahead_front fed).1]
  rfl

theorem Yields.peeked {next : TokenKind → Parse Reel Token β}
    (rest : Yields input (next (front input)) post) : Yields input (peek >>= next) post := by
  intro state fed ahead clean
  obtain ⟨-, same, after⟩ := lookahead_front fed
  rw [peek_bind fed, ahead] at clean ⊢
  exact rest _ after (same.trans ahead) (clean.trans (lookahead_problems state).symm)

/-- Once a kind other than the end has been seen, a token of that kind is there to take. -/
theorem Yields.advanced {kind : TokenKind} {next : Token → Parse Reel Token β}
    (seen : front input = kind) (before : (kind == .eof) = false)
    (rest : ∀ token left, input = token :: left → token.kind = kind →
      Yields left (next token) post) : Yields input (advance >>= next) post := by
  intro state fed ahead clean
  obtain ⟨token, left, cons⟩ := (ahead ▸ fed.ended).cons
  obtain ⟨first, after⟩ := advance_ahead (ahead.trans cons)
  have isKind : token.kind = kind := by
    rw [cons] at seen
    exact seen
  have fedAfter := advance_fed fed (ahead.trans cons) (isKind ▸ ne_of_beq_false before)
  rw [bind_apply, first] at clean ⊢
  exact rest token left cons isKind _ fedAfter after (clean.trans (advance_problems state).symm)

theorem Yields.found {kind : TokenKind} {next : Option Token → Parse Reel Token β}
    (before : (kind == .eof) = false) (missing : front input ≠ kind → Yields input (next none) post)
    (found : ∀ token left, input = token :: left → token.kind = kind →
      Yields left (next (some token)) post) :
    Yields input (accept? kind >>= next) post := by
  change Yields input (peek >>= fun kindFound =>
    (if kindFound = kind then some <$> advance else Pure.pure none) >>= next) post
  refine .peeked ?_
  split
  · next same =>
    change Yields input (advance >>= fun token => next (some token)) post
    exact .advanced same before found
  · next other => exact missing other

theorem Yields.foundAny {kinds : List TokenKind} {next : Option Token → Parse Reel Token β}
    (before : .eof ∉ kinds) (missing : front input ∉ kinds → Yields input (next none) post)
    (found : ∀ token left, input = token :: left → token.kind ∈ kinds →
      Yields left (next (some token)) post) :
    Yields input (acceptAny? kinds >>= next) post := by
  change Yields input (peek >>= fun kindFound =>
    (if kinds.contains kindFound then some <$> advance else Pure.pure none) >>= next) post
  refine .peeked ?_
  split
  · next listed =>
    have member : front input ∈ kinds := List.contains_iff_mem.1 listed
    change Yields input (advance >>= fun token => next (some token)) post
    have within : front input ≠ .eof := fun same => before (same ▸ member)
    refine .advanced rfl (beq_false_of_ne within) fun token left cons same => ?_
    exact found token left cons (same ▸ member)
  · next other => exact missing fun member => other (List.contains_iff_mem.2 member)

theorem Yields.accepted {kind : TokenKind} {found missing : Parse Reel Token β}
    (before : (kind == .eof) = false)
    (first : ∀ token left, input = token :: left → token.kind = kind → Yields left found post)
    (second : front input ≠ kind → Yields input missing post) :
    Yields input (accept kind >>= fun accepted => if accepted then found else missing) post := by
  have same : Yields input (accept? kind >>= fun token => if token.isSome then found else missing)
      post := .found before second first
  exact same

theorem Yields.expecting {kind : TokenKind} {what : String} {next : Token → Parse Reel Token β}
    [∀ token, Steps (next token)] (before : (kind == .eof) = false)
    (rest : ∀ token left, input = token :: left → token.kind = kind →
      Yields left (next token) post) : Yields input (expect kind what >>= next) post := by
  have expected : Yields input (expect kind what) fun token left =>
      input = token :: left ∧ token.kind = kind := by
    intro state fed ahead clean
    obtain ⟨token, left, cons⟩ := (ahead ▸ fed.ended).cons
    obtain ⟨first, after⟩ := advance_ahead (ahead.trans cons)
    rw [expect_apply] at clean ⊢
    by_cases same : Feed.kind Reel (lookahead state).1 = kind
    · have isKind : token.kind = kind := first ▸ same
      rw [if_pos same, first, after]
      exact ⟨⟨cons, isKind⟩, advance_fed fed (ahead.trans cons) (isKind ▸ ne_of_beq_false before)⟩
    · rw [if_neg same] at clean
      simp [noting] at clean
  exact expected.bind fun token left holds => rest token left holds.1 holds.2

theorem Yields.complains {complaint : Complaint} {next : Unit → Parse Reel Token β}
    [∀ value, Steps (next value)] : Yields input (complain complaint >>= next) post := by
  have never : Yields input (complain complaint) fun _ _ => False := by
    intro state _ _ clean
    obtain ⟨token, added⟩ := complain_problems complaint state
    simp [added] at clean
  exact never.bind fun _ _ impossible => impossible.elim

/-- What stands in for an expression is never without a complaint. -/
theorem Yields.missing {complaint : Complaint} {next : Token → Parse Reel Token β}
    [∀ token, Steps (next token)] : Yields input
      (lookahead >>= fun token => complain complaint >>= fun _ => next token) post := by
  have looks : Yields input lookahead fun _ _ => True := fun state fed _ _ =>
    ⟨trivial, (lookahead_front fed).2.2⟩
  exact looks.bind fun _ _ _ => .complains

theorem Yields.deeper {rule : Parse Reel Token β} (yields : Yields input rule post) :
    Yields input (deeper rule) post := by
  intro state fed ahead clean
  obtain ⟨holds, after⟩ := yields { state with depth := state.depth + 1 } ⟨fed.roomy, fed.ended⟩
    ahead clean
  exact ⟨holds, after.roomy, after.ended⟩

/-- What one round of a loop contributes to what the whole loop reads. -/
def Round.Extends (rule : List Token → List Token → List α → Prop) (input : List Token) :
    Round α → List Token → Prop
  | .stop, rest => rule input rest []
  | .last value, rest => rule input rest [value]
  | .more value, middle =>
    ∀ rest values, rule middle rest values → rule input rest (value :: values)

theorem Yields.loop {round : Parse Reel Token (Round α)} [Steps round] [Advancing round]
    {rule : List Token → List Token → List α → Prop}
    (rounds : ∀ input, Yields input round (Round.Extends rule input)) (input : List Token) :
    Yields input (loop round) fun values rest => rule input rest values := by
  intro state fed ahead clean
  obtain ⟨count, left⟩ : ∃ count, state.Left count := by
    obtain ⟨count, -, left⟩ := fed.roomy
    exact ⟨count, left⟩
  induction count using Nat.strongRecOn generalizing state input with
  | ind count ih =>
    obtain ⟨_, begins⟩ := takes round state
    rw [loop_apply fed.roomy] at clean ⊢
    cases ending : (round state).1 with
    | stop =>
      rw [ending] at clean
      obtain ⟨holds, after⟩ := rounds input state fed ahead clean
      rw [ending] at holds
      exact ⟨holds, after⟩
    | last value =>
      rw [ending] at clean
      obtain ⟨holds, after⟩ := rounds input state fed ahead clean
      rw [ending] at holds
      exact ⟨holds, after⟩
    | more value =>
      rw [ending] at clean
      obtain ⟨_, goesOn⟩ := takes (Parse.loop round) (round state).2
      have cleanFirst := begins.clean goesOn clean
      obtain ⟨holds, after⟩ := rounds input state fed ahead cleanFirst
      rw [ending] at holds
      obtain ⟨fewer, less, leftAfter⟩ := (Advancing.advances state value ending).left left
      obtain ⟨rest, final⟩ :=
        ih fewer less _ _ after rfl (clean.trans cleanFirst.symm) leftAfter
      exact ⟨holds _ _ rest, final⟩

end Yields

section Runs
variable {input left final : List Token} {token : Token} {kind : TokenKind} {value : α} {result : β}

theorem Runs.pure {input : List Token} {value : α} : Runs input (Pure.pure value) value input :=
  fun _ fed ahead => ⟨rfl, ahead, rfl, fed⟩

theorem Runs.bind {program : Parse Reel Token α} {next : α → Parse Reel Token β}
    (first : Runs input program value left) (rest : Runs left (next value) result final) :
    Runs input (program >>= next) result final := by
  intro state fed ahead
  obtain ⟨same, ahead, clean, fed⟩ := first state fed ahead
  rw [bind_apply, same]
  obtain ⟨same, ahead, cleanRest, fed⟩ := rest _ fed ahead
  exact ⟨same, ahead, cleanRest.trans clean, fed⟩

theorem Runs.map {program : Parse Reel Token α} {f : α → β}
    (runs : Runs input program value left) : Runs input (f <$> program) (f value) left := by
  intro state fed ahead
  obtain ⟨same, after⟩ := runs state fed ahead
  exact ⟨congrArg f same, after⟩

theorem Runs.peeked {next : TokenKind → Parse Reel Token β}
    (rest : Runs input (next (front input)) result final) :
    Runs input (peek >>= next) result final := by
  intro state fed ahead
  obtain ⟨-, same, after⟩ := lookahead_front fed
  rw [peek_bind fed, ahead]
  obtain ⟨holds, aheadAfter, clean, fedAfter⟩ := rest _ after (same.trans ahead)
  exact ⟨holds, aheadAfter, clean.trans (lookahead_problems state), fedAfter⟩

theorem Runs.advanced {next : Token → Parse Reel Token β} (isKind : token.kind = kind)
    (before : (kind == .eof) = false) (rest : Runs left (next token) result final) :
    Runs (token :: left) (advance >>= next) result final := by
  intro state fed ahead
  obtain ⟨first, after⟩ := advance_ahead ahead
  rw [bind_apply, first]
  have fedNext := advance_fed fed ahead (isKind ▸ ne_of_beq_false before)
  obtain ⟨holds, aheadAfter, clean, fedAfter⟩ := rest _ fedNext after
  exact ⟨holds, aheadAfter, clean.trans (advance_problems state), fedAfter⟩

theorem Runs.found {next : Option Token → Parse Reel Token β} (isKind : token.kind = kind)
    (before : (kind == .eof) = false) (rest : Runs left (next (some token)) result final) :
    Runs (token :: left) (accept? kind >>= next) result final := by
  change Runs (token :: left) (peek >>= fun kindFound =>
    (if kindFound = kind then some <$> advance else Pure.pure none) >>= next) result final
  refine .peeked ?_
  rw [front, if_pos isKind]
  change Runs (token :: left) (advance >>= fun token => next (some token)) result final
  exact .advanced isKind before rest

theorem Runs.missing {next : Option Token → Parse Reel Token β} (other : front input ≠ kind)
    (rest : Runs input (next none) result final) :
    Runs input (accept? kind >>= next) result final := by
  change Runs input (peek >>= fun kindFound =>
    (if kindFound = kind then some <$> advance else Pure.pure none) >>= next) result final
  refine .peeked ?_
  rw [if_neg other]
  exact rest

theorem Runs.foundAny {kinds : List TokenKind} {next : Option Token → Parse Reel Token β}
    (member : token.kind ∈ kinds) (before : .eof ∉ kinds)
    (rest : Runs left (next (some token)) result final) :
    Runs (token :: left) (acceptAny? kinds >>= next) result final := by
  change Runs (token :: left) (peek >>= fun kindFound =>
    (if kinds.contains kindFound then some <$> advance else Pure.pure none) >>= next) result final
  refine .peeked ?_
  rw [front, if_pos (List.contains_iff_mem.2 member)]
  change Runs (token :: left) (advance >>= fun token => next (some token)) result final
  have within : token.kind ≠ .eof := fun atEnd => before (atEnd ▸ member)
  exact .advanced rfl (beq_false_of_ne within) rest

theorem Runs.missingAny {kinds : List TokenKind} {next : Option Token → Parse Reel Token β}
    (other : front input ∉ kinds) (rest : Runs input (next none) result final) :
    Runs input (acceptAny? kinds >>= next) result final := by
  change Runs input (peek >>= fun kindFound =>
    (if kinds.contains kindFound then some <$> advance else Pure.pure none) >>= next) result final
  refine .peeked ?_
  rw [if_neg fun contained => other (List.contains_iff_mem.1 contained)]
  exact rest

theorem Runs.accepted {found missing : Parse Reel Token β} (isKind : token.kind = kind)
    (before : (kind == .eof) = false) (rest : Runs left found result final) :
    Runs (token :: left) (accept kind >>= fun accepted => if accepted then found else missing)
      result final := by
  have same : Runs (token :: left)
      (accept? kind >>= fun token => if token.isSome then found else missing) result final :=
    .found isKind before rest
  exact same

theorem Runs.declined {found missing : Parse Reel Token β} (other : front input ≠ kind)
    (rest : Runs input missing result final) :
    Runs input (accept kind >>= fun accepted => if accepted then found else missing)
      result final := by
  have same : Runs input (accept? kind >>= fun token => if token.isSome then found else missing)
      result final := .missing other rest
  exact same

theorem Runs.expected {what : String} (isKind : token.kind = kind)
    (before : (kind == .eof) = false) : Runs (token :: left) (expect kind what) token left := by
  intro state fed ahead
  obtain ⟨first, after⟩ := advance_ahead ahead
  have same : Feed.kind Reel (lookahead state).1 = kind := by
    change (advance state).1.kind = kind
    rw [first, isKind]
  rw [expect_apply, if_pos same]
  exact ⟨first, after, advance_problems state, advance_fed fed ahead (isKind ▸ ne_of_beq_false before)⟩

theorem Runs.deeper {rule : Parse Reel Token α} (runs : Runs input rule value left) :
    Runs input (deeper rule) value left := by
  intro state fed ahead
  obtain ⟨same, after, clean, fedAfter⟩ :=
    runs { state with depth := state.depth + 1 } ⟨fed.roomy, fed.ended⟩ ahead
  exact ⟨same, after, clean, fedAfter.roomy, fedAfter.ended⟩

section Loops
variable {round : Parse Reel Token (Round α)} [Steps round] [Advancing round]

theorem Runs.stop (runs : Runs input round .stop left) : Runs input (loop round) [] left := by
  intro state fed ahead
  obtain ⟨ending, after⟩ := runs state fed ahead
  rw [loop_apply fed.roomy, ending]
  exact ⟨rfl, after⟩

theorem Runs.last (runs : Runs input round (.last value) left) :
    Runs input (loop round) [value] left := by
  intro state fed ahead
  obtain ⟨ending, after⟩ := runs state fed ahead
  rw [loop_apply fed.roomy, ending]
  exact ⟨rfl, after⟩

theorem Runs.more {values : List α} (runs : Runs input round (.more value) left)
    (rest : Runs left (loop round) values final) :
    Runs input (loop round) (value :: values) final := by
  intro state fed ahead
  obtain ⟨ending, ahead, clean, after⟩ := runs state fed ahead
  rw [loop_apply fed.roomy, ending]
  obtain ⟨same, ahead, cleanRest, fedRest⟩ := rest _ after ahead
  exact ⟨congrArg _ same, ahead, cleanRest.trans clean, fedRest⟩

end Loops
end Runs

end Parse
end WrenFront
