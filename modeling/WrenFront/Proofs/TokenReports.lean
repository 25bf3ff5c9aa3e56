import WrenFront.Proofs.TokenAccounting

/-! What is reported about each token. A rule may find a problem with the next token and leave it
there, but it is only called where nothing has been said about that token yet, and whoever comes
after it takes the token before another rule is called. So there is at most one problem with a token
while it is only seen, and one more when it is taken. -/

namespace WrenFront

variable {σ τ α β : Type} [Feed σ τ]

/-- Whether a complaint can be about a token of that kind. Only the rule for expressions says that
one is missing, and not in front of a `null`. -/
def Complaint.Suits (kind : TokenKind) : Complaint → Prop
  | .expected what => what ≠ "expression"
  | .missingExpression => kind ≠ .kwNull
  | .nestedTooDeeply | .parametersNotAllowed => True

/-- Problems with a token. -/
def About (σ : Type) [Feed σ τ] (token : τ) (problems : List (Problem τ)) : Prop :=
  ∀ problem ∈ problems, problem.token = token ∧ problem.complaint.Suits (Feed.kind σ token)

theorem About.concat {token : τ} {problems : List (Problem τ)} {complaint : Complaint}
    (about : About σ token problems) (suits : complaint.Suits (Feed.kind σ token)) :
    About σ token (problems ++ [⟨complaint, token⟩]) := by
  intro problem member
  rcases List.mem_append.1 member with member | member
  · exact about problem member
  · obtain rfl := List.mem_singleton.1 member
    exact ⟨rfl, suits⟩

/-- The problems with the tokens that were taken, the latest first. What begins no token is not
taken without a word. -/
inductive Recorded (σ : Type) [Feed σ τ] : List τ → List (Problem τ) → Prop where
  | none : Recorded σ [] []
  | token {taken problems} {token : τ} {reports : List (Problem τ)}
      (before : Recorded σ taken problems) (about : About σ token reports)
      (few : reports.length ≤ 2) (heard : Feed.kind σ token = .error → reports ≠ []) :
      Recorded σ (token :: taken) (problems ++ reports)

namespace ParserState
open Parse (lookahead advance lookahead_again lookahead_takes advance_takes)

/-- Every problem belongs to a token that was taken, or to the next one. The next one has been
spoken about once at most, and not at all unless `spoken` says so. -/
def Heard (spoken : Bool) (state : ParserState σ τ) : Prop :=
  ∃ settled pending, state.problems = settled ++ pending ∧ Recorded σ state.taken settled ∧
    About σ (lookahead state).1 pending ∧ pending.length ≤ spoken.toNat

variable {state : ParserState σ τ} {spoken : Bool} {complaint : Complaint}

theorem Heard.mono {louder : Bool} (heard : state.Heard spoken) (allows : spoken → louder) :
    state.Heard louder := by
  obtain ⟨settled, pending, same, recorded, about, few⟩ := heard
  refine ⟨settled, pending, same, recorded, about, ?_⟩
  cases spoken <;> cases louder <;> simp_all

theorem Heard.look (heard : state.Heard spoken) : (lookahead state).2.Heard spoken := by
  obtain ⟨settled, pending, same, recorded, about, few⟩ := heard
  refine ⟨settled, pending, ?_, ?_, ?_, few⟩
  · rw [Parse.lookahead_problems, same]
  · rw [(lookahead_takes state).1.taken]
    exact recorded
  · rw [lookahead_again]
    exact about

theorem Heard.shift (depth : Nat) (heard : state.Heard spoken) :
    { state with depth }.Heard spoken := by
  obtain ⟨settled, pending, same, recorded, about, few⟩ := heard
  refine ⟨settled, pending, same, recorded, ?_, few⟩
  have unchanged : (lookahead { state with depth }).1 = (lookahead state).1 := by
    unfold lookahead
    cases state.current <;> rfl
  rw [unchanged]
  exact about

/-- A token is settled once it is taken, with what was said about it before and on the occasion. -/
theorem Heard.settle (heard : state.Heard spoken) (reports : List (Problem τ))
    (about : About σ (lookahead state).1 reports) (few : reports.length ≤ 1)
    (known : Feed.kind σ (lookahead state).1 = .error → reports ≠ []) :
    { (advance state).2 with problems := state.problems ++ reports }.Heard false := by
  obtain ⟨settled, pending, same, recorded, aboutPending, fewPending⟩ := heard
  refine ⟨settled ++ (pending ++ reports), [], ?_, ?_, ?_, Nat.zero_le _⟩
  · simp [same]
  · change Recorded σ (advance state).2.taken _
    rw [(advance_takes state).taken]
    refine recorded.token ?_ ?_ ?_
    · intro problem member
      rcases List.mem_append.1 member with member | member
      · exact aboutPending problem member
      · exact about problem member
    · have bound := spoken.toNat_le
      rw [List.length_append]
      omega
    · intro wrong
      exact List.append_ne_nil_of_right_ne_nil _ (known wrong)
  · exact fun _ none => absurd none List.not_mem_nil

theorem Heard.take (heard : state.Heard spoken)
    (known : Feed.kind σ (lookahead state).1 ≠ .error) : (advance state).2.Heard false := by
  have taken := heard.settle [] (fun _ none => absurd none List.not_mem_nil)
    (Nat.zero_le 1) fun wrong => absurd wrong known
  rw [List.append_nil, ← Parse.advance_problems] at taken
  exact taken

theorem Heard.mistake (heard : state.Heard spoken)
    (suits : complaint.Suits (Feed.kind σ (lookahead state).1)) :
    ((advance state).2.noting ⟨complaint, (lookahead state).1⟩).Heard false := by
  have taken := heard.settle [⟨complaint, (lookahead state).1⟩]
    (by simpa [About] using suits) (Nat.le_refl 1) fun _ => List.cons_ne_nil _ _
  rw [← Parse.advance_problems] at taken
  exact taken

/-- The next token can be spoken about if it has not been. -/
theorem Heard.speak (heard : state.Heard false)
    (suits : complaint.Suits (Feed.kind σ (lookahead state).1)) :
    ((lookahead state).2.noting ⟨complaint, (lookahead state).1⟩).Heard true := by
  obtain ⟨settled, pending, same, recorded, about, few⟩ := heard.look
  rw [lookahead_again] at about
  refine ⟨settled, pending ++ [⟨complaint, (lookahead state).1⟩], ?_, recorded, ?_, ?_⟩
  · rw [noting, same, List.append_assoc]
  · have unchanged : (lookahead ((lookahead state).2.noting
        ⟨complaint, (lookahead state).1⟩)).1 = (lookahead state).1 := by
      rw [lookahead, noting, (lookahead_takes state).2]
    rw [unchanged]
    exact about.concat suits
  · simpa using few

end ParserState

namespace Parse
open ParserState (Heard)

/-- What a program says about the token that it leaves as the next one, if that much has been said
about the one that it begins at. -/
def Reports (spoken : Bool) (program : Parse σ τ α) (after : α → Bool) : Prop :=
  ∀ state : ParserState σ τ, state.Heard spoken → (program state).2.Heard (after (program state).1)

section Reports
variable {spoken : Bool} {program : Parse σ τ α} {after : α → Bool}

theorem Reports.pure (value : α) : Reports spoken (Pure.pure value : Parse σ τ α) fun _ => spoken :=
  fun _ heard => heard

theorem Reports.bind {next : α → Parse σ τ β} {last : β → Bool}
    (first : Reports spoken program after)
    (rest : ∀ value, Reports (after value) (next value) last) :
    Reports spoken (program >>= next) last :=
  fun state heard => rest _ _ (first state heard)

theorem Reports.map {f : α → β} {last : β → Bool}
    (reports : Reports spoken program fun value => last (f value)) :
    Reports spoken (f <$> program) last :=
  reports

theorem Reports.mono {louder : α → Bool} (reports : Reports spoken program after)
    (allows : ∀ value, after value → louder value) : Reports spoken program louder :=
  fun state heard => (reports state heard).mono (allows _)

/-- Nothing has been said where something might have been. -/
theorem Reports.unspoken (reports : Reports true program after) : Reports false program after :=
  fun state heard => reports state (heard.mono fun _ => rfl)

/-- A rule that may say something about the next token, where nothing has been said about it. -/
def Speaks (program : Parse σ τ α) : Prop :=
  Reports false program fun _ => true

theorem Reports.speaks (reports : Reports false program after) : Speaks program :=
  reports.mono fun _ _ => rfl

theorem Reports.done (value : α) : Reports false (Pure.pure value : Parse σ τ α) after :=
  fun _ heard => heard.mono fun spoken => absurd spoken Bool.false_ne_true

/-- A program that leaves it at what has been said. -/
def Quiet (program : Parse σ τ α) : Prop :=
  ∀ spoken, Reports spoken program fun _ => spoken

/-- A loop whose rounds all say as much. -/
theorem Reports.rounds {round : Parse σ τ (Round α)}
    (reports : Reports spoken round fun _ => spoken) :
    Reports spoken (loop round) fun _ => spoken := by
  have collects (count : Nat) : Reports spoken (collect round count) fun _ => spoken := by
    induction count with
    | zero => exact .pure []
    | succ count ih =>
      refine .bind reports fun ending => ?_
      cases ending with
      | stop => exact .pure _
      | last value => exact .pure _
      | more value => exact .bind ih fun _ => .pure _
  exact fun state heard => collects state.rounds state heard

/-- A loop whose last round alone may leave something said. -/
theorem Reports.items {round : Parse σ τ (Round α)} (reports : Reports false round fun
      | .more _ => false
      | _ => true) : Speaks (loop round) := by
  have collects (count : Nat) : Speaks (collect round count) := by
    induction count with
    | zero => exact .done []
    | succ count ih =>
      refine .bind reports fun ending => ?_
      cases ending with
      | stop => exact .pure _
      | last value => exact .pure _
      | more value => exact .bind ih fun _ => .pure _
  exact fun state heard => collects state.rounds state heard

theorem Reports.deeper (reports : Reports spoken program after) :
    Reports spoken (deeper program) after :=
  fun _ heard => (reports _ (heard.shift _)).shift _

end Reports

section Tokens
variable {spoken : Bool} {last : β → Bool}

theorem peek_quiet : Quiet (peek : Parse σ τ TokenKind) :=
  fun _ _ heard => heard.look

/-- A program that begins at a token of that kind. -/
def Faces (seen : TokenKind) (spoken : Bool) (program : Parse σ τ α) (after : α → Bool) : Prop :=
  ∀ state : ParserState σ τ, state.Heard spoken → Feed.kind σ (lookahead state).1 = seen →
    (program state).2.Heard (after (program state).1)

theorem Reports.faces {program : Parse σ τ β} {seen : TokenKind}
    (reports : Reports spoken program last) : Faces seen spoken program last :=
  fun state heard _ => reports state heard

theorem Reports.peeked {next : TokenKind → Parse σ τ β}
    (rest : ∀ seen, Faces seen spoken (next seen) last) :
    Reports spoken (peek >>= next) last := by
  intro state heard
  refine rest _ _ heard.look ?_
  exact congrArg (fun seen => Feed.kind σ seen.1) (lookahead_again state)

theorem Faces.advanced {seen : TokenKind} {next : τ → Parse σ τ β} (known : seen ≠ .error)
    (rest : ∀ token, Reports false (next token) last) :
    Faces seen spoken (advance >>= next) last := by
  intro state heard same
  exact rest _ _ (heard.take (same ▸ known))

theorem Reports.foundAny {kinds : List TokenKind} {next : Option τ → Parse σ τ β}
    (known : .error ∉ kinds) (missing : Reports spoken (next none) last)
    (found : ∀ token, Reports false (next (some token)) last) :
    Reports spoken (acceptAny? kinds >>= next) last := by
  intro state heard
  rw [bind_apply, acceptAny?_apply]
  split
  · next contained =>
    have member := List.contains_iff_mem.1 contained
    exact found _ _ (heard.take fun wrong => known (wrong ▸ member))
  · exact missing _ heard.look

theorem Reports.found {kind : TokenKind} {next : Option τ → Parse σ τ β} (known : kind ≠ .error)
    (missing : Reports spoken (next none) last)
    (found : ∀ token, Reports false (next (some token)) last) :
    Reports spoken (accept? kind >>= next) last := by
  intro state heard
  rw [bind_apply, accept?_apply]
  split
  · next same => exact found _ _ (heard.take fun wrong => known (same.symm.trans wrong))
  · exact missing _ heard.look

theorem Reports.accepted {kind : TokenKind} {found missing : Parse σ τ β} (known : kind ≠ .error)
    (taken : Reports false found last) (otherwise : Reports spoken missing last) :
    Reports spoken (accept kind >>= fun accepted => if accepted then found else missing) last := by
  have same : Reports spoken
      (accept? kind >>= fun token => if token.isSome then found else missing) last :=
    .found known otherwise fun _ => taken
  exact same

/-- Whatever has been said about a token that is not the required one, it is taken with a problem of
its own. -/
theorem expect_reports {kind : TokenKind} {what : String}
    (plain : (kind != .error && what != "expression") = true) :
    Reports spoken (expect kind what : Parse σ τ τ) fun _ => false := by
  obtain ⟨known, worded⟩ : kind ≠ .error ∧ what ≠ "expression" := by simpa using plain
  intro state heard
  rw [expect_apply]
  split
  · next same => exact heard.take fun wrong => known (same.symm.trans wrong)
  · exact heard.mistake worded

theorem newlines_quiet : Quiet (newlines : Parse σ τ Bool) := by
  intro spoken
  have round : Reports spoken (newlineRound : Parse σ τ (Round τ)) fun _ => spoken :=
    .found (by simp) (.pure _) fun _ => .done _
  exact .bind round.rounds fun _ => .pure _

theorem skipNewlines_quiet : Quiet (skipNewlines : Parse σ τ Unit) :=
  fun spoken => .bind (newlines_quiet spoken) fun _ => .pure _

theorem expectNewline_reports {what : String} (plain : (what != "expression") = true) :
    Reports spoken (expectNewline what : Parse σ τ Unit) fun _ => false :=
  .bind (expect_reports plain) fun _ => skipNewlines_quiet false

/-- A comma is taken before the next item is read. -/
theorem separated_speaks {item : Parse σ τ α} (speaks : Speaks item) : Speaks (separated item) := by
  refine Reports.items (.bind speaks fun value => .accepted (by simp) ?_ (.pure _))
  exact .bind (skipNewlines_quiet false) fun _ => .pure _

theorem elements_speaks {closing : TokenKind} {item : Parse σ τ α} (speaks : Speaks item) :
    Speaks (elements closing item) := by
  refine .bind (skipNewlines_quiet false) fun _ => Reports.items (.bind (peek_quiet false) ?_)
  intro seen
  split
  · exact .done _
  · refine .bind speaks fun value => .bind (skipNewlines_quiet true) fun _ =>
      .accepted (by simp) ?_ (.pure _)
    exact .bind (skipNewlines_quiet false) fun _ => .pure _

end Tokens
end Parse
end WrenFront
