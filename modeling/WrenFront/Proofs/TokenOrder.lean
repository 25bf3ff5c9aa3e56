import WrenFront.Proofs.CleanRuns
import WrenFront.Proofs.LexerTiling
import WrenFront.Proofs.RuleListing

/-! The tokens of a tree in reading order. Whatever is wrong with a source, its tree holds tokens of
the source only, in their order, and a token twice only if one of its places is that of a missing
expression. -/

namespace WrenFront

variable {source : Source}

namespace Source

theorem token_stop_le (source : Source) (reads : Nat) :
    (source.token reads).stop ≤ (source.token (reads + 1)).start := by
  have start := (source.token_cuts (reads + 1)).1.start
  rw [offset_lexerAfter] at start
  change (source.token (reads + 1)).start = (source.token reads).stop + _ at start
  omega

theorem token_start_le (source : Source) {first second : Nat} (before : first ≤ second) :
    (source.token first).start ≤ (source.token second).start := by
  obtain ⟨more, rfl⟩ := Nat.exists_eq_add_of_le before
  induction more with
  | zero => exact Nat.le_refl _
  | succ more ih =>
    have next := source.token_stop_le (first + more)
    have earlier := ih (Nat.le_add_right first more)
    rw [Token.stop] at next
    rw [← Nat.add_assoc]
    omega

/-- A token begins after an earlier one, unless both are the end token. -/
theorem token_start_lt (source : Source) {first second : Nat} (before : first < second) :
    (source.token first).start < (source.token second).start ∨
      (source.token first = source.endToken ∧ source.token second = source.endToken) := by
  by_cases atEnd : (source.token first).kind = .eof
  · obtain ⟨more, rfl⟩ := Nat.exists_eq_add_of_le (Nat.le_of_lt before)
    exact .inr ⟨(lexerAfter_end atEnd 0).1, (lexerAfter_end atEnd more).1⟩
  · have positive := source.token_positive atEnd
    have next := source.token_stop_le first
    have later : (source.token (first + 1)).start ≤ _ := source.token_start_le before
    rw [Token.stop] at next
    omega

/-- The tokens read in advance, and the end token for good. -/
theorem tokens_getD (source : Source) (reads : Nat) :
    source.tokens[reads]?.getD source.endToken = source.token reads := by
  obtain ⟨count, listed, before, atEnd⟩ := (Lexer.ofSource source).readAll_after
  rw [Source.tokens, listed]
  rcases Nat.lt_or_ge reads (count + 1) with inside | outside
  · rw [List.getElem?_map, List.getElem?_range inside]
    rfl
  · obtain ⟨more, rfl⟩ := Nat.exists_eq_add_of_le (Nat.le_of_succ_le outside)
    rw [(lexerAfter_end atEnd more).1, List.getElem?_eq_none (by simpa using outside)]
    rfl

theorem token_mem (source : Source) (reads : Nat) : source.token reads ∈ source.tokens := by
  rw [← tokens_getD]
  cases found : source.tokens[reads]? with
  | some token => exact List.mem_of_getElem? found
  | none =>
    obtain ⟨before, ends, -⟩ := (Lexer.ofSource source).readAll_ends
    rw [Source.tokens, ends]
    exact List.mem_append_right _ (List.mem_singleton.2 rfl)

end Source

namespace ParserState
open Parse (lookahead advance)

/-- The token that is taken after that many others. -/
def upcoming (state : ParserState Reel Token) (reads : Nat) : Token :=
  state.ahead[reads]?.getD state.feed.last

/-- The parser has taken that many tokens of the source, and goes on with the next. -/
def At (source : Source) (reads : Nat) (state : ParserState Reel Token) : Prop :=
  ∀ more, state.upcoming more = source.token (reads + more)

theorem lookahead_upcoming (state : ParserState Reel Token) :
    (lookahead state).1 = state.upcoming 0 ∧ (lookahead state).2.upcoming = state.upcoming := by
  obtain ⟨⟨tokens, last⟩, current⟩ := state
  cases current with
  | some token => exact ⟨rfl, rfl⟩
  | none =>
    cases tokens with
    | nil =>
      refine ⟨rfl, funext fun reads => ?_⟩
      cases reads <;> rfl
    | cons token tokens => exact ⟨rfl, rfl⟩

theorem advance_upcoming (state : ParserState Reel Token) (reads : Nat) :
    (advance state).2.upcoming reads = state.upcoming (reads + 1) := by
  obtain ⟨⟨tokens, last⟩, current⟩ := state
  cases current with
  | some token => rfl
  | none => cases tokens <;> rfl

theorem ofReel_at (source : Source) : (ofFeed source.reel).At source 0 := by
  intro more
  rw [Nat.zero_add, ← source.tokens_getD]
  exact congrFun (lookahead_upcoming _).2 more

variable {reads : Nat} {state : ParserState Reel Token}

theorem At.lookahead (here : state.At source reads) :
    (lookahead state).1 = source.token reads ∧ (lookahead state).2.At source reads := by
  obtain ⟨first, same⟩ := lookahead_upcoming state
  refine ⟨first.trans (here 0), fun more => ?_⟩
  rw [same]
  exact here more

theorem At.advance (here : state.At source reads) : (advance state).2.At source (reads + 1) := by
  intro more
  rw [advance_upcoming, here (more + 1), Nat.add_right_comm, Nat.add_assoc]

end ParserState

/-- The token that an item of a listing holds. -/
def Mark.token? {τ : Type} : Mark τ → Option τ
  | .token written | .null written => some written
  | .node _ _ => none

/-- The token of an item that is not the place of a `null`. -/
def Mark.solid? {τ : Type} : Mark τ → Option τ
  | .token written => some written
  | _ => none

namespace TreeNode

/-- The tokens of a tree in reading order. -/
def tokens {τ : Type} (node : TreeNode τ) : List τ :=
  (node.marks 0).filterMap Mark.token?

/-- The tokens of a tree without those of `null` literals and of missing expressions. -/
def solidTokens {τ : Type} (node : TreeNode τ) : List τ :=
  (node.marks 0).filterMap Mark.solid?

end TreeNode

/-- What has been listed after that many tokens of the source. Only the place of a missing
expression holds a token that has not been taken, and that is the next one. -/
structure Mark.UpTo (source : Source) (reads : Nat) (marks : List (Mark Token)) : Prop where
  seen : ∀ token ∈ marks.filterMap Mark.token?, ∃ read ≤ reads, token = source.token read
  ordered : (marks.filterMap Mark.token?).Pairwise (·.start ≤ ·.start)
  solid : (marks.filterMap Mark.solid?).Sublist ((List.range reads).map source.token)

namespace Mark.UpTo
variable {reads : Nat} {marks : List (Mark Token)}

theorem null (upTo : UpTo source reads marks) :
    UpTo source reads (marks ++ [.null (source.token reads)]) := by
  refine ⟨?_, ?_, by simpa [List.filterMap_cons, Mark.solid?] using upTo.solid⟩
  · intro token member
    rw [List.filterMap_append, List.mem_append] at member
    rcases member with member | member
    · exact upTo.seen token member
    · exact ⟨reads, Nat.le_refl _, by simpa [Mark.token?] using member⟩
  · rw [List.filterMap_append, List.pairwise_append]
    refine ⟨upTo.ordered, by simp [Mark.token?], fun token member last isLast => ?_⟩
    obtain ⟨read, earlier, rfl⟩ := upTo.seen token member
    obtain rfl : last = source.token reads := by simpa [Mark.token?] using isLast
    exact source.token_start_le earlier

theorem later (upTo : UpTo source reads marks) : UpTo source (reads + 1) marks := by
  refine ⟨fun token member => ?_, upTo.ordered, upTo.solid.trans ?_⟩
  · obtain ⟨read, earlier, same⟩ := upTo.seen token member
    exact ⟨read, Nat.le_succ_of_le earlier, same⟩
  · rw [List.range_succ, List.map_append]
    exact List.sublist_append_left _ _

theorem token (upTo : UpTo source reads marks) :
    UpTo source (reads + 1) (marks ++ [.token (source.token reads)]) := by
  -- The token of the place of a missing expression is listed in the same way.
  have listed := upTo.null.later
  refine ⟨by simpa [Mark.token?] using listed.seen, by simpa [Mark.token?] using listed.ordered, ?_⟩
  rw [List.range_succ, List.map_append, List.filterMap_append]
  exact upTo.solid.append (List.Sublist.refl _)

theorem node (upTo : UpTo source reads marks) (levels : Nat) (node : TreeNode Token) :
    UpTo source reads (marks ++ [.node levels node]) :=
  ⟨by simpa [List.filterMap_cons, Mark.token?] using upTo.seen,
    by simpa [List.filterMap_cons, Mark.token?] using upTo.ordered,
    by simpa [List.filterMap_cons, Mark.solid?] using upTo.solid⟩

theorem kept (upTo : UpTo source reads marks) (keep : Bool) :
    UpTo source (reads + 1) (marks ++ Mark.kept keep (source.token reads)) := by
  cases keep with
  | false => simpa [Mark.kept] using upTo.later
  | true => exact upTo.token

theorem refused (upTo : UpTo source reads marks) {node : TreeNode Token} {levels : Nat}
    (stands : node = .expression (.null (source.token reads)) ∨
      node = .statement (.expression (.null (source.token reads)))) :
    UpTo source reads (marks ++ node.marks levels) := by
  rcases stands with rfl | rfl
  · simpa using upTo.null.node levels _
  · simpa using (upTo.null.node (levels + 1) _).node levels _

end Mark.UpTo

/-- The listing keeps up with the tokens that are taken. -/
theorem Listed.upTo {marks : List (Mark Token)} {state : ParserState Reel Token}
    (listed : Listed (ParserState.ofFeed source.reel) marks state) :
    ∃ reads, Mark.UpTo source reads marks ∧ state.At source reads := by
  induction listed with
  | start => exact ⟨0, ⟨by simp, by simp, by simp⟩, ParserState.ofReel_at source⟩
  | look _ ih =>
    obtain ⟨reads, upTo, here⟩ := ih
    exact ⟨reads, upTo, here.lookahead.2⟩
  | shift _ _ ih => exact ih
  | disallow _ _ _ ih => exact ih
  | take keep _ _ ih =>
    obtain ⟨reads, upTo, here⟩ := ih
    rw [here.lookahead.1]
    exact ⟨reads + 1, upTo.kept keep, here.advance⟩
  | mistake keep _ _ ih =>
    obtain ⟨reads, upTo, here⟩ := ih
    rw [here.lookahead.1]
    exact ⟨reads + 1, upTo.kept keep, here.advance⟩
  | null _ _ ih =>
    obtain ⟨reads, upTo, here⟩ := ih
    rw [here.lookahead.1]
    exact ⟨reads + 1, upTo.null.later, here.advance⟩
  | missing _ ih =>
    obtain ⟨reads, upTo, here⟩ := ih
    rw [here.lookahead.1]
    exact ⟨reads, upTo.null, here.lookahead.2⟩
  | refuse stands _ ih =>
    obtain ⟨reads, upTo, here⟩ := ih
    rw [here.lookahead.1] at stands
    exact ⟨reads, upTo.refused stands, here.lookahead.2⟩
  | node _ _ _ ih =>
    obtain ⟨reads, upTo, here⟩ := ih
    exact ⟨reads, upTo.node _ _, here⟩

/-- The tokens of a tree are tokens of its source. They are in order, and apart from the places of
`null` and of missing expressions no token comes twice but the end token. -/
theorem Source.tree_in_order (source : Source) :
    let tree := TreeNode.script source.parse.module
    (∀ token ∈ tree.tokens, token ∈ source.tokens) ∧
      tree.tokens.Pairwise (·.start ≤ ·.start) ∧
      tree.solidTokens.Pairwise fun first second => first.start < second.start ∨
        (first = source.endToken ∧ second = source.endToken) := by
  intro tree
  obtain ⟨state, listed, -⟩ := source.parse_lists
  obtain ⟨reads, upTo, -⟩ := listed.upTo
  refine ⟨fun token member => ?_, upTo.ordered, List.Pairwise.sublist upTo.solid ?_⟩
  · obtain ⟨read, -, rfl⟩ := upTo.seen token member
    exact source.token_mem read
  · rw [List.pairwise_map]
    exact List.pairwise_lt_range.imp fun before => source.token_start_lt before

end WrenFront
