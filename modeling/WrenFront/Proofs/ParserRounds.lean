import WrenFront.Proofs.ParserSteps

/-! Loops stop by themselves. Every round that asks for another one takes a token from before the
end, and there are fewer of those than a loop has rounds, so no loop is ever cut short and the
number of rounds does not matter. -/

namespace WrenFront

variable {σ τ α β : Type} [Feed σ τ]

namespace ParserState

/-- Nothing but end tokens comes after the first `count` tokens. -/
def Left (count : Nat) (state : ParserState σ τ) : Prop :=
  ∀ read last, Feed.Reads state.feed read last →
    ∀ token ∈ (state.current.toList ++ read).drop count, Feed.kind σ token = .eof

/-- There are more rounds than tokens before the end. -/
def Roomy (state : ParserState σ τ) : Prop :=
  ∃ count < state.rounds, state.Left count

/-- A token from before the end is taken on the way. -/
def Advances (state final : ParserState σ τ) : Prop :=
  ∃ tokens, state.Takes tokens final ∧ ∃ token ∈ tokens, Feed.kind σ token ≠ .eof

theorem Takes.left {state final : ParserState σ τ} {tokens : List τ} {count : Nat}
    (takes : state.Takes tokens final) (left : state.Left count) :
    final.Left (count - tokens.length) := by
  intro read last reads token member
  obtain ⟨before, readsBefore, same⟩ := takes.reads
  apply left (before ++ read) last (readsBefore.append reads)
  rw [← List.append_assoc, same, List.append_assoc, List.drop_append]
  exact List.mem_append_right _ member

theorem Left.mono {state : ParserState σ τ} {count more : Nat} (left : state.Left count)
    (bound : count ≤ more) : state.Left more :=
  fun read last reads token member =>
    left read last reads token ((List.drop_sublist_drop_left _ bound).subset member)

theorem Takes.roomy {state final : ParserState σ τ} {tokens : List τ}
    (takes : state.Takes tokens final) (roomy : state.Roomy) : final.Roomy := by
  obtain ⟨count, bound, left⟩ := roomy
  refine ⟨count - tokens.length, ?_, takes.left left⟩
  rw [takes.rounds]
  omega

theorem Advances.left {state final : ParserState σ τ} {count : Nat}
    (advances : state.Advances final) (left : state.Left count) :
    ∃ fewer < count, final.Left fewer := by
  obtain ⟨tokens, takes, token, member, before⟩ := advances
  have positive : 0 < tokens.length := List.length_pos_of_mem member
  have some : 0 < count := by
    rcases Nat.eq_zero_or_pos count with rfl | positive
    · obtain ⟨read, reads, same⟩ := takes.reads
      refine absurd (left read _ reads token ?_) before
      rw [List.drop_zero, same]
      exact List.mem_append_left _ member
    · exact positive
  exact ⟨count - tokens.length, by omega, takes.left left⟩

theorem Takes.advances {state middle final : ParserState σ τ} {tokens : List τ}
    (takes : state.Takes tokens middle) (rest : middle.Advances final) : state.Advances final := by
  obtain ⟨more, takesMore, token, member, before⟩ := rest
  exact ⟨tokens ++ more, takes.trans takesMore, token, List.mem_append_right _ member, before⟩

theorem Advances.takes {state middle final : ParserState σ τ} {tokens : List τ}
    (advances : state.Advances middle) (rest : middle.Takes tokens final) :
    state.Advances final := by
  obtain ⟨first, takes, token, member, before⟩ := advances
  exact ⟨first ++ tokens, takes.trans rest, token, List.mem_append_left _ member, before⟩

end ParserState

namespace Parse
open ParserState

/-- A round that goes on only after a token from before the end. -/
class Advancing (round : Parse σ τ (Round α)) : Prop where
  advances : ∀ (state : ParserState σ τ) (value : α),
    (round state).1 = .more value → state.Advances (round state).2

/-- With more rounds than tokens it does not matter how many there are. -/
theorem collect_rounds {round : Parse σ τ (Round α)} [Advancing round] {count first second : Nat}
    {state : ParserState σ τ} (left : state.Left count) (less : count < first)
    (lessToo : count < second) : collect round first state = collect round second state := by
  induction first generalizing second state count with
  | zero => omega
  | succ first ih =>
    obtain ⟨second, rfl⟩ : ∃ rounds, second = rounds + 1 := ⟨second - 1, by omega⟩
    simp only [collect, bind_apply]
    cases ending : (round state).1 with
    | stop => rfl
    | last value => rfl
    | more value =>
      obtain ⟨fewer, bound, leftAfter⟩ := (Advancing.advances state value ending).left left
      simp only [bind_apply, ih leftAfter (by omega : fewer < first) (by omega : fewer < second)]

/-- A loop runs its round, and goes on as the round says. -/
theorem loop_apply {round : Parse σ τ (Round α)} [Steps round] [Advancing round]
    {state : ParserState σ τ} (roomy : state.Roomy) :
    loop round state = match (round state).1 with
      | .stop => ([], (round state).2)
      | .last value => ([value], (round state).2)
      | .more value => (value :: (loop round (round state).2).1, (loop round (round state).2).2) := by
  obtain ⟨count, bound, left⟩ := roomy
  obtain ⟨rounds, enough⟩ : ∃ rounds, state.rounds = rounds + 1 := ⟨state.rounds - 1, by omega⟩
  have unfolded : loop round state = collect round (rounds + 1) state := by
    simp only [loop, bind_apply, get_apply, enough]
  rw [unfolded, collect, bind_apply]
  cases ending : (round state).1 with
  | stop => rfl
  | last value => rfl
  | more value =>
    obtain ⟨tokens, takes⟩ := takes round state
    obtain ⟨fewer, less, leftAfter⟩ := (Advancing.advances state value ending).left left
    have again : collect round rounds (round state).2 = loop round (round state).2 := by
      simp only [loop, bind_apply, get_apply, takes.rounds, enough]
      exact collect_rounds leftAfter (by omega) (by omega)
    simp only [bind_apply, pure_apply, again]

/-- What holds whenever a round ends the loop holds after the loop. -/
theorem loop_ends {round : Parse σ τ (Round α)} [Steps round] [Advancing round]
    (ended : ParserState σ τ → Prop)
    (ends : ∀ state, (∀ value, (round state).1 ≠ .more value) → ended (round state).2)
    {state : ParserState σ τ} (roomy : state.Roomy) : ended (loop round state).2 := by
  obtain ⟨count, left⟩ : ∃ count, state.Left count := by
    obtain ⟨count, -, left⟩ := roomy
    exact ⟨count, left⟩
  induction count using Nat.strongRecOn generalizing state with
  | ind count ih =>
    rw [loop_apply roomy]
    cases ending : (round state).1 with
    | stop =>
      apply ends
      simp [ending]
    | last value =>
      apply ends
      simp [ending]
    | more value =>
      obtain ⟨tokens, takes⟩ := takes round state
      obtain ⟨fewer, less, leftAfter⟩ := (Advancing.advances state value ending).left left
      exact ih fewer less (takes.roomy roomy) leftAfter

theorem accept?_advances {kind : TokenKind} (before : kind ≠ .eof) {state : ParserState σ τ}
    {token : τ} (found : (accept? kind state).1 = some token) :
    state.Advances (accept? kind state).2 := by
  rw [accept?_apply] at found ⊢
  split at found
  · next same =>
    rw [if_pos same]
    exact ⟨_, advance_takes state, _, List.mem_singleton_self _, same ▸ before⟩
  · cases found

theorem acceptAny?_advances {kinds : List TokenKind} (before : .eof ∉ kinds)
    {state : ParserState σ τ} {token : τ} (found : (acceptAny? kinds state).1 = some token) :
    state.Advances (acceptAny? kinds state).2 := by
  rw [acceptAny?_apply] at found ⊢
  split at found
  · next same =>
    rw [if_pos same]
    refine ⟨_, advance_takes state, _, List.mem_singleton_self _, fun atEnd => before ?_⟩
    exact atEnd ▸ List.contains_iff_mem.1 same
  · cases found

instance : Advancing (pure .stop : Parse σ τ (Round α)) :=
  ⟨fun _ _ more => by cases more⟩

instance (value : α) : Advancing (pure (.last value) : Parse σ τ (Round α)) :=
  ⟨fun _ _ more => by cases more⟩

theorem Advancing.after {program : Parse σ τ α} {next : α → Parse σ τ (Round β)}
    (first : Steps program) (rest : ∀ value, Advancing (next value)) :
    Advancing (program >>= next) := by
  constructor
  intro state value more
  obtain ⟨tokens, takes⟩ := first.steps state
  exact takes.advances ((rest (program state).1).advances (program state).2 value more)

/-- Once a token has been found the rest of the round may do as it likes. -/
theorem Advancing.found {program : Parse σ τ (Option τ)} {next : Option τ → Parse σ τ (Round α)}
    [Steps program]
    (finds : ∀ {state token}, (program state).1 = some token → state.Advances (program state).2)
    (missing : Advancing (next none)) (found : ∀ token, Steps (next (some token))) :
    Advancing (program >>= next) := by
  constructor
  intro state value more
  rw [bind_apply] at more ⊢
  cases result : (program state).1 with
  | none =>
    obtain ⟨tokens, takes⟩ := takes program state
    rw [result] at more
    exact takes.advances (missing.advances _ value more)
  | some token =>
    obtain ⟨tokens, rest⟩ := (found token).steps (program state).2
    exact (finds result).takes rest

theorem Advancing.accepted {kind : TokenKind} {found missing : Parse σ τ (Round α)}
    (before : kind ≠ .eof) (rest : Steps found) (otherwise : Advancing missing) :
    Advancing (accept kind >>= fun accepted => if accepted then found else missing) := by
  have same : Advancing (accept? kind >>= fun token => if token.isSome then found else missing) :=
    .found (accept?_advances before) otherwise fun _ => rest
  exact same

/-- A round that goes on only after some token, which may be an end token. -/
def Taking (round : Parse σ τ (Round α)) : Prop :=
  ∀ (state : ParserState σ τ) (value : α), (round state).1 = .more value →
    ∃ token tokens, state.Takes (token :: tokens) (round state).2

theorem Taking.after {program : Parse σ τ α} {next : α → Parse σ τ (Round β)}
    (first : Steps program) (rest : ∀ value, Taking (next value)) : Taking (program >>= next) := by
  intro state value more
  obtain ⟨tokens, first⟩ := first.steps state
  obtain ⟨token, others, rest⟩ := rest _ _ value more
  cases tokens with
  | nil => exact ⟨token, others, first.trans rest⟩
  | cons head tokens => exact ⟨head, _, first.trans rest⟩

theorem Taking.expecting {kind : TokenKind} {what : String} {next : τ → Parse σ τ (Round α)}
    (rest : ∀ token, Steps (next token)) : Taking (expect kind what >>= next) := by
  intro state _ _
  obtain ⟨tokens, rest⟩ := (rest _).steps (expect kind what state).2
  exact ⟨_, tokens, (expect_takes kind what state).trans rest⟩

/-- The token that a round looked at is the first that it takes. -/
theorem Advancing.guarded {next : TokenKind → Parse σ τ (Round α)}
    (atEnd : Advancing (next .eof)) (before : ∀ kind, kind ≠ .eof → Taking (next kind)) :
    Advancing (peek >>= next) := by
  constructor
  intro state value more
  obtain ⟨looks, read⟩ := lookahead_takes state
  by_cases same : Feed.kind σ (lookahead state).1 = .eof
  · have last := atEnd.advances (lookahead state).2 value
    rw [← same] at last
    exact looks.advances (last more)
  · obtain ⟨token, tokens, rest⟩ := before _ same (lookahead state).2 value more
    obtain rfl := rest.head read
    exact ⟨_, looks.trans rest, _, List.mem_cons_self, same⟩

theorem Taking.expectingNewline {what : String} {next : Unit → Parse σ τ (Round α)}
    (rest : Steps (next ⟨⟩)) : Taking (expectNewline what >>= next) := by
  have same : Taking (expect .line what >>= fun _ => skipNewlines >>= next) :=
    .expecting fun _ => .bind inferInstance fun _ => rest
  exact same

theorem Taking.last (value : α) : Taking (pure (.last value) : Parse σ τ (Round α)) :=
  fun _ _ more => by cases more

instance : Advancing (newlineRound : Parse σ τ (Round τ)) :=
  .found (accept?_advances (by decide)) inferInstance inferInstance

instance (item : Parse σ τ α) [Steps item] : Advancing (separatedRound item) :=
  .after inferInstance fun _ => .accepted (by decide) inferInstance inferInstance

instance (closing : TokenKind) (item : Parse σ τ α) [Steps item] :
    Advancing (elementsRound closing item) := by
  unfold elementsRound
  refine .after inferInstance fun kind => ?_
  split
  · infer_instance
  · exact .after inferInstance fun _ => .after inferInstance fun _ =>
      .accepted (by decide) inferInstance inferInstance

theorem infixRound_advancing {operators : List TokenKind} (before : .eof ∉ operators)
    (right : Parse σ τ (Expr τ)) [Steps right] : Advancing (infixRound operators right) :=
  .found (acceptAny?_advances before) inferInstance inferInstance

section Rules
variable (nested : Nested σ τ) [nested.Steps]

instance : Advancing (interpolationRound nested) :=
  .found (accept?_advances (by decide)) inferInstance inferInstance

instance : Advancing (link nested) :=
  .found (accept?_advances (by decide)) (.accepted (by decide) inferInstance inferInstance)
    inferInstance

instance : Advancing (bodyRound nested) := by
  refine .guarded (.after inferInstance inferInstance) fun kind before => ?_
  rw [if_neg before]
  exact .after inferInstance fun _ => .expectingNewline inferInstance

instance : Advancing (blockRound nested) := by
  refine .guarded (inferInstanceAs (Advancing (pure .stop))) fun kind before => ?_
  split
  · exact fun _ _ more => by cases more
  · refine .after inferInstance fun statement => .after inferInstance fun kind => ?_
    split
    · exact .last statement
    · exact .expectingNewline inferInstance

instance : Advancing (methodsRound nested) := by
  refine .accepted (by decide) inferInstance ?_
  refine .guarded (.after inferInstance inferInstance) fun kind before => ?_
  rw [if_neg before]
  refine .after inferInstance fun method => .after inferInstance fun closed => ?_
  split
  · exact .last method
  · exact .expectingNewline inferInstance

instance : Advancing (moduleRound nested) := by
  refine .guarded (inferInstanceAs (Advancing (pure .stop))) fun kind before => ?_
  rw [if_neg before]
  refine .after inferInstance fun statement => .after inferInstance fun kind => ?_
  split
  · exact .last statement
  · exact .expectingNewline inferInstance

end Rules
end Parse
end WrenFront
