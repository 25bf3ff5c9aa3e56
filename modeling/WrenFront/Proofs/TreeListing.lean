import WrenFront.Proofs.LexerStream
import WrenFront.Proofs.Precedence
import WrenFront.Proofs.TreeParts

/-! How a tree is put together, whatever the tokens are. Every rule of the parser lists the node
that it returns, part by part: a token when it is taken, the place of a missing expression when it
is found missing, and a node once all its parts are there. What holds of every such listing holds
of every tree. -/

namespace WrenFront

/-- What is asked of a node when it is put together. -/
def TreeNode.Fits (problems : List (Problem Token)) : TreeNode Token → Prop
  | .expression value => value.Ordered (problems = [])
  | _ => True

/-- A token that is taken may be kept for the tree or dropped. -/
def Mark.kept (keep : Bool) (token : Token) : List (Mark Token) :=
  if keep then [.token token] else []

/-- What a parser has put into its tree so far, on its way from `start`. -/
inductive Listed (start : ParserState Reel Token) :
    List (Mark Token) → ParserState Reel Token → Prop where
  | start : Listed start [] start
  | look {marks state} (listed : Listed start marks state) :
      Listed start marks (Parse.lookahead state).2
  | shift {marks state} (depth : Nat) (listed : Listed start marks state) :
      Listed start marks { state with depth }
  | take {marks state} (keep : Bool) (known : (Parse.lookahead state).1.kind ≠ .error)
      (listed : Listed start marks state) :
      Listed start (marks ++ Mark.kept keep (Parse.lookahead state).1) (Parse.advance state).2
  | mistake {marks state} (keep : Bool) (what : String) (listed : Listed start marks state) :
      Listed start (marks ++ Mark.kept keep (Parse.lookahead state).1)
        ((Parse.advance state).2.noting ⟨.expected what, (Parse.lookahead state).1⟩)
  | disallow {marks state token} (unread : state.current = none)
      (previous : state.previous = some token) (listed : Listed start marks state) :
      Listed start marks (state.noting ⟨.parametersNotAllowed, token⟩)
  | null {marks state} (kind : (Parse.lookahead state).1.kind = .kwNull)
      (listed : Listed start marks state) :
      Listed start (marks ++ [.null (Parse.lookahead state).1]) (Parse.advance state).2
  | missing {marks state} (listed : Listed start marks state) :
      Listed start (marks ++ [.null (Parse.lookahead state).1])
        ((Parse.lookahead state).2.noting ⟨.missingExpression, (Parse.lookahead state).1⟩)
  /-- What is refused stands one level too deep, and as a statement it holds an expression that is
  one level deeper still. -/
  | refuse {marks state} {node : TreeNode Token}
      (stands : node = .expression (.null (Parse.lookahead state).1) ∨
        node = .statement (.expression (.null (Parse.lookahead state).1)))
      (listed : Listed start marks state) :
      Listed start (marks ++ node.marks (Nested.limit + 1))
        ((Parse.lookahead state).2.noting ⟨.nestedTooDeeply, (Parse.lookahead state).1⟩)
  | node {marks state levels node} (within : levels ≤ Nested.limit)
      (fits : TreeNode.Fits state.problems node) (listed : Listed start marks state) :
      Listed start (marks ++ [.node levels node]) state

/-- A node is listed once its parts are. -/
theorem Listed.close {start state : ParserState Reel Token} {marks before : List (Mark Token)}
    {levels : Nat} {node : TreeNode Token} (listed : Listed start marks state)
    (within : levels ≤ Nested.limit) (fits : node.Fits state.problems)
    (row : before ++ node.parts.flatMap (Part.marks levels) = marks) :
    Listed start (before ++ node.marks levels) state := by
  subst row
  rw [TreeNode.marks_eq, ← List.append_assoc]
  exact listed.node within fits

namespace Parse
variable {α β : Type}

/-- What a run leads to from any state that satisfies a condition. -/
def Ensures (pre : ParserState Reel Token → Prop) (program : Parse Reel Token α)
    (post : α → ParserState Reel Token → Prop) : Prop :=
  ∀ state, pre state → post (program state).1 (program state).2

section Ensures
variable {pre : ParserState Reel Token → Prop} {post : β → ParserState Reel Token → Prop}

theorem Ensures.pure {value : β} (holds : ∀ state, pre state → post value state) :
    Ensures pre (Pure.pure value) post :=
  holds

theorem Ensures.bind {program : Parse Reel Token α} {next : α → Parse Reel Token β}
    {middle : α → ParserState Reel Token → Prop} (first : Ensures pre program middle)
    (rest : ∀ value, Ensures (middle value) (next value) post) :
    Ensures pre (program >>= next) post :=
  fun state holds => rest _ _ (first state holds)

theorem Ensures.map {program : Parse Reel Token α} {f : α → β}
    (ensures : Ensures pre program fun value => post (f value)) :
    Ensures pre (f <$> program) post :=
  ensures

theorem Ensures.mono {program : Parse Reel Token β} {weaker : β → ParserState Reel Token → Prop}
    (ensures : Ensures pre program post)
    (implies : ∀ value state, post value state → weaker value state) :
    Ensures pre program weaker :=
  fun state holds => implies _ _ (ensures state holds)

theorem Ensures.and {program : Parse Reel Token β} {other : ParserState Reel Token → Prop}
    {result : β → ParserState Reel Token → Prop} (first : Ensures pre program post)
    (second : Ensures other program result) :
    Ensures (fun state => pre state ∧ other state) program
      fun value state => post value state ∧ result value state :=
  fun state holds => ⟨first state holds.1, second state holds.2⟩

theorem Ensures.both {program : Parse Reel Token β} {result : β → ParserState Reel Token → Prop}
    (first : Ensures pre program post) (second : Ensures pre program result) :
    Ensures pre program fun value state => post value state ∧ result value state :=
  fun state holds => ⟨first state holds, second state holds⟩

/-- A condition that says nothing about the state may be put aside. -/
theorem Ensures.known {program : Parse Reel Token β} {fact : Prop}
    (ensures : fact → Ensures pre program post) :
    Ensures (fun state => pre state ∧ fact) program post :=
  fun state holds => ensures holds.2 state holds.1

def Round.toList : Round α → List α
  | .stop => []
  | .last value => [value]
  | .more value => [value]

/-- What every round keeps up for the values so far holds of all the values in the end. -/
theorem Ensures.loop {round : Parse Reel Token (Round α)}
    (upTo : List α → ParserState Reel Token → Prop)
    (rounds : ∀ done, Ensures (upTo done) round fun ending => upTo (done ++ ending.toList))
    (done : List α) : Ensures (upTo done) (loop round) fun values => upTo (done ++ values) := by
  have collects (count : Nat) : ∀ done,
      Ensures (upTo done) (collect round count) fun values => upTo (done ++ values) := by
    induction count with
    | zero => exact fun done => .pure fun state holds => by simpa using holds
    | succ count ih =>
      refine fun done => .bind (rounds done) fun ending => ?_
      cases ending with
      | stop => exact .pure fun state holds => holds
      | last value => exact .pure fun state holds => holds
      | more value =>
        refine .bind (ih _) fun values => .pure fun state holds => ?_
        simpa [Round.toList] using holds
  exact fun state holds => collects state.rounds done state holds

end Ensures

section Tokens
variable {start : ParserState Reel Token} {before : List (Mark Token)}
  {post : β → ParserState Reel Token → Prop}

/-- The listing so far, with a token of that kind next. -/
def Sees (start : ParserState Reel Token) (before : List (Mark Token)) (seen : TokenKind)
    (state : ParserState Reel Token) : Prop :=
  Listed start before state ∧ (lookahead state).1.kind = seen

theorem Sees.look {seen : TokenKind} {state : ParserState Reel Token}
    (sees : Sees start before seen state) : Sees start before seen (lookahead state).2 := by
  refine ⟨sees.1.look, ?_⟩
  rw [lookahead_again]
  exact sees.2

theorem Ensures.seen {program : Parse Reel Token β}
    (ensures : ∀ seen, Ensures (Sees start before seen) program post) :
    Ensures (Listed start before) program post :=
  fun state listed => ensures _ state ⟨listed, rfl⟩

theorem Ensures.unseen {program : Parse Reel Token β} {seen : TokenKind}
    (ensures : Ensures (Listed start before) program post) :
    Ensures (Sees start before seen) program post :=
  fun state sees => ensures state sees.1

theorem Ensures.peeked {next : TokenKind → Parse Reel Token β} {seen : TokenKind}
    (rest : Ensures (Sees start before seen) (next seen) post) :
    Ensures (Sees start before seen) (peek >>= next) post := by
  intro state sees
  obtain rfl := sees.2
  exact rest _ sees.look

theorem Ensures.advanced {next : Token → Parse Reel Token β} {seen : TokenKind}
    (known : seen ≠ .error)
    (rest : ∀ token, token.kind = seen →
      Ensures (Listed start (before ++ [.token token])) (next token) post) :
    Ensures (Sees start before seen) (advance >>= next) post := by
  intro state sees
  obtain ⟨listed, rfl⟩ := sees
  exact rest _ rfl _ (listed.take true known)

theorem Ensures.foundAny {kinds : List TokenKind} {next : Option Token → Parse Reel Token β}
    {seen : TokenKind} (known : .error ∉ kinds)
    (missing : seen ∉ kinds → Ensures (Sees start before seen) (next none) post)
    (found : ∀ token, token.kind ∈ kinds → seen ∈ kinds →
      Ensures (Listed start (before ++ [.token token])) (next (some token)) post) :
    Ensures (Sees start before seen) (acceptAny? kinds >>= next) post := by
  intro state sees
  rw [bind_apply, acceptAny?_apply]
  obtain ⟨listed, rfl⟩ := sees
  split
  · next contained =>
    have member := List.contains_iff_mem.1 contained
    exact found _ member member _ (listed.take true fun wrong => known (wrong ▸ member))
  · next other =>
    exact missing (fun member => other (List.contains_iff_mem.2 member)) _
      (Sees.look ⟨listed, rfl⟩)

/-- A token that is found may be kept or dropped later on. -/
theorem Ensures.foundEither {kind : TokenKind} {next : Option Token → Parse Reel Token β}
    {seen : TokenKind} (known : kind ≠ .error)
    (missing : seen ≠ kind → Ensures (Sees start before seen) (next none) post)
    (found : ∀ token, token.kind = kind → seen = kind →
      Ensures (fun state => Listed start before state ∧
        Listed start (before ++ [.token token]) state) (next (some token)) post) :
    Ensures (Sees start before seen) (accept? kind >>= next) post := by
  intro state sees
  rw [bind_apply, accept?_apply]
  obtain ⟨listed, rfl⟩ := sees
  split
  · next same =>
    have known (wrong : (lookahead state).1.kind = .error) := known (same.symm.trans wrong)
    refine found _ same same _ ⟨?_, listed.take true known⟩
    simpa [Mark.kept] using listed.take false known
  · next other => exact missing other _ (Sees.look ⟨listed, rfl⟩)

theorem Ensures.found {kind : TokenKind} {next : Option Token → Parse Reel Token β}
    {seen : TokenKind} (known : kind ≠ .error)
    (missing : seen ≠ kind → Ensures (Sees start before seen) (next none) post)
    (found : ∀ token, token.kind = kind → seen = kind →
      Ensures (Listed start (before ++ [.token token])) (next (some token)) post) :
    Ensures (Sees start before seen) (accept? kind >>= next) post :=
  .foundEither known missing fun token same sameSeen state holds =>
    found token same sameSeen state holds.2

theorem accept?_skips {kind : TokenKind} (known : kind ≠ .error := by decide) :
    Ensures (Listed start before) (accept? kind) fun _ => Listed start before := by
  intro state listed
  rw [accept?_apply]
  split
  · next same =>
    have taken := listed.take false fun wrong => known (same.symm.trans wrong)
    simpa [Mark.kept] using taken
  · exact listed.look

theorem accept?_lists {kind : TokenKind} (known : kind ≠ .error := by decide) :
    Ensures (Listed start before) (accept? kind)
      fun found => Listed start (before ++ found.toList.map .token) := by
  have same : Ensures (Listed start before) (accept? kind >>= Pure.pure)
      fun found => Listed start (before ++ found.toList.map .token) := by
    refine .seen fun seen => .found known (fun _ => ?_) fun token _ _ => ?_
    · exact .pure fun state sees => by simpa using sees.1
    · exact .pure fun state listed => listed
  exact same

/-- A token that was just accepted is the one to complain about. -/
theorem accept_opens {kind : TokenKind} (known : kind ≠ .error := by decide) :
    Ensures (Listed start before) (accept kind) fun accepted state =>
      Listed start before state ∧ (accepted = true →
        ∃ token, state.current = none ∧ state.previous = some token) := by
  intro state listed
  refine ⟨accept?_skips known state listed, fun accepted => ?_⟩
  change (accept? kind state).1.isSome = true at accepted
  change ∃ token, (accept? kind state).2.current = none ∧
    (accept? kind state).2.previous = some token
  rw [accept?_apply] at accepted ⊢
  split at accepted
  · next same =>
    rw [if_pos same]
    exact ⟨_, rfl, rfl⟩
  · cases accepted

theorem accept_skips {kind : TokenKind} (known : kind ≠ .error := by decide) :
    Ensures (Listed start before) (accept kind) fun _ => Listed start before :=
  accept?_skips known

theorem expect_lists {kind : TokenKind} {what : String} (keep : Bool)
    (known : kind ≠ .error := by decide) : Ensures (Listed start before) (expect kind what)
      fun token => Listed start (before ++ Mark.kept keep token) := by
  intro state listed
  rw [expect_apply]
  split
  · next same => exact listed.take keep fun wrong => known (same.symm.trans wrong)
  · exact listed.mistake keep what

theorem expect_keeps {kind : TokenKind} {what : String} (known : kind ≠ .error := by decide) :
    Ensures (Listed start before) (expect kind what)
      fun token => Listed start (before ++ [.token token]) :=
  expect_lists true known

theorem expect_skips {kind : TokenKind} {what : String} (known : kind ≠ .error := by decide) :
    Ensures (Listed start before) (expect kind what) fun _ => Listed start before :=
  (expect_lists false known).mono fun _ state listed => by simpa [Mark.kept] using listed

section Items
variable {marks : α → List (Mark Token)}

theorem loop_lists {round : Parse Reel Token (Round α)} (rounds : ∀ before,
      Ensures (Listed start before) round
        fun ending => Listed start (before ++ ending.toList.flatMap marks)) :
    Ensures (Listed start before) (loop round)
      fun values => Listed start (before ++ values.flatMap marks) := by
  have all := Ensures.loop (fun done => Listed start (before ++ done.flatMap marks))
    (fun done => by simpa using rounds (before ++ done.flatMap marks)) []
  simpa using all

theorem loop_skips {round : Parse Reel Token (Round α)}
    (skips : Ensures (Listed start before) round fun _ => Listed start before) :
    Ensures (Listed start before) (loop round) fun _ => Listed start before :=
  .loop (fun _ => Listed start before) (fun _ => skips) []

theorem newlines_skips : Ensures (Listed start before) newlines fun _ => Listed start before := by
  refine .bind (loop_skips (.bind accept?_skips fun token => ?_)) fun _ =>
    .pure fun _ listed => listed
  cases token <;> exact .pure fun _ listed => listed

theorem skipNewlines_skips :
    Ensures (Listed start before) skipNewlines fun _ => Listed start before :=
  .bind newlines_skips fun _ => .pure fun _ listed => listed

theorem expectNewline_skips {what : String} :
    Ensures (Listed start before) (expectNewline what) fun _ => Listed start before :=
  .bind expect_skips fun _ => skipNewlines_skips

theorem separated_lists {item : Parse Reel Token α}
    (items : ∀ before, Ensures (Listed start before) item
      fun value => Listed start (before ++ marks value)) :
    Ensures (Listed start before) (separated item)
      fun values => Listed start (before ++ values.flatMap marks) := by
  refine loop_lists fun before => ?_
  refine .bind (items before) fun value => .bind accept_skips fun separated => ?_
  split
  · refine .bind skipNewlines_skips fun _ => .pure fun state listed => ?_
    simpa [Round.toList] using listed
  · exact .pure fun state listed => by simpa [Round.toList] using listed

theorem elements_lists {closing : TokenKind} {item : Parse Reel Token α}
    (items : ∀ before, Ensures (Listed start before) item
      fun value => Listed start (before ++ marks value)) :
    Ensures (Listed start before) (elements closing item)
      fun values => Listed start (before ++ values.flatMap marks) := by
  refine .bind skipNewlines_skips fun _ => loop_lists fun before => .seen fun seen => .peeked ?_
  split
  · exact .pure fun state sees => by simpa [Round.toList] using sees.1
  refine .bind (.unseen (items before)) fun value => .bind skipNewlines_skips fun _ =>
    .bind accept_skips fun separated => ?_
  split
  · refine .bind skipNewlines_skips fun _ => .pure fun state listed => ?_
    simpa [Round.toList] using listed
  · exact .pure fun state listed => by simpa [Round.toList] using listed

end Items

theorem names_keep {what : String} : Ensures (Listed start before)
    (separated (expect .name what)) fun names => Listed start (before ++ names.map .token) :=
  (separated_lists fun _ => expect_keeps).mono fun names state listed => by
    rw [List.map_eq_flatMap]
    exact listed

theorem names_skip {what : String} : Ensures (Listed start before)
    (separated (expect .name what)) fun _ => Listed start before := by
  refine loop_skips (.bind expect_skips fun name => .bind accept_skips fun separated => ?_)
  split
  · exact .bind skipNewlines_skips fun _ => .pure fun _ listed => listed
  · exact .pure fun _ listed => listed

end Tokens
end Parse

end WrenFront
