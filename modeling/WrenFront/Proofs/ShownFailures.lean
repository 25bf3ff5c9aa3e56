import Mathlib.Data.List.NodupEquivFin
import WrenFront.Proofs.DumpOrder
import WrenFront.Proofs.LexemeGrammar

/-! What a reader of a printed tree sees of its failures. Every expression that is missing or nested
too deeply has left a `null` of its own in the tree, and that is printed as an error, unless the
token it holds happens to be the keyword `null`. That cannot be where an expression is missing, but
it can be where one is nested too deeply. -/

namespace WrenFront

namespace Complaint
variable {complaint : Complaint}

theorem message_missingExpression {kind : TokenKind} (suits : complaint.Suits kind)
    (same : complaint.message = "Expect expression.") : complaint = .missingExpression := by
  cases complaint with
  | missingExpression => rfl
  | expected what =>
    have spelled : "Expect " ++ what ++ "." = "Expect " ++ "expression" ++ "." := same
    rw [String.append_left_inj, String.append_right_inj] at spelled
    exact absurd spelled suits
  | nestedTooDeeply => exact absurd same (by decide)
  | parametersNotAllowed => exact absurd same (by decide)

/-- The messages tell which complaints leave a `null` in the tree. -/
theorem leavesNull_iff {kind : TokenKind} (suits : complaint.Suits kind) :
    complaint.leavesNull = true ↔ complaint.message = "Expect expression." ∨
      complaint.message = "Expression nested too deeply." := by
  refine ⟨message_leavesNull, fun worded => ?_⟩
  rcases worded with missing | nested
  · rw [message_missingExpression suits missing]
    rfl
  · rw [message_nestedTooDeeply nested]
    rfl

end Complaint

namespace Source

/-- The problems that an expression is missing or nested too deeply. -/
def failures (source : Source) : List (Problem Token) :=
  source.parse.problems.filter fun problem =>
    problem.message = "Expect expression." ∨ problem.message = "Expression nested too deeply."

/-- Every failure has a `null` of its own in the tree, with its token, and it is written as an
error. -/
def ShowsFailures (source : Source) : Prop :=
  ∃ place : Fin source.failures.length ↪ Fin source.parse.module.nulls.length, ∀ index,
    source.parse.module.nulls.get (place index) = (source.failures.get index).token ∧
      source.nullText (source.failures.get index).token = "<error>"

theorem failures_eq (source : Source) :
    source.failures = source.parse.problems.filter (·.complaint.leavesNull) := by
  refine List.filter_congr fun problem member => ?_
  rw [Bool.eq_iff_iff, Complaint.leavesNull_iff (source.problem_located member).2]
  exact decide_eq_true_iff

/-- The failures and the `null`s they have left are in the same order. -/
theorem failures_placed (source : Source) :
    ∃ place : Fin source.failures.length ↪o Fin source.parse.module.nulls.length, ∀ index,
      source.parse.module.nulls.get (place index) = (source.failures.get index).token := by
  have listed := source.parse_explained.1
  rw [Problem.leftovers, ← failures_eq] at listed
  obtain ⟨place, same⟩ := List.sublist_iff_exists_fin_orderEmbedding_get_eq.1 listed
  -- A failure has the same number as its token.
  have length : source.failures.length = (source.failures.map Problem.token).length :=
    (List.length_map _).symm
  refine ⟨(Fin.castOrderIso length).toOrderEmbedding.trans place, fun index => ?_⟩
  have here := same (Fin.cast length index)
  simpa using here.symm

theorem null_text {source : Source} {token : Token} (member : token ∈ source.tokens)
    (null : token.kind = .kwNull) : token.text source = "null" := by
  have written := (source.token_cuts (source.tokens.idxOf token)).1.written
  change Lexeme.Written (source.token _).kind _ _ at written
  rw [source.token_idxOf member, null] at written
  have decoded := Lexeme.keyword_decoded .kwNull (by decide) _ written.spelled
  exact (Option.some.inj decoded).symm

theorem nullText_eq {source : Source} {token : Token} (member : token ∈ source.tokens) :
    source.nullText token = if token.kind = .kwNull then "null" else "<error>" := by
  rw [nullText, Outline.ofExpr]
  split
  · next null => exact null_text member null
  · rfl

/-- A `null` with a problem's token is written as an error if its token is not the keyword. -/
theorem showsFailures_iff (source : Source) : source.ShowsFailures ↔
    ∀ problem ∈ source.parse.problems,
      problem.message = "Expression nested too deeply." → problem.token.kind ≠ .kwNull := by
  constructor
  · rintro ⟨place, shown⟩ problem member nested null
    have failed : problem ∈ source.failures :=
      List.mem_filter.2 ⟨member, decide_eq_true (.inr nested)⟩
    obtain ⟨index, rfl⟩ := List.mem_iff_get.1 failed
    have written := (shown index).2
    rw [nullText_eq (source.problem_located member).1, if_pos null] at written
    exact absurd written (by decide)
  · intro apart
    obtain ⟨place, same⟩ := source.failures_placed
    refine ⟨place.toEmbedding, fun index => ⟨same index, ?_⟩⟩
    obtain ⟨member, worded⟩ := List.mem_filter.1 (source.failures.get_mem index)
    obtain ⟨inside, suits⟩ := source.problem_located member
    rw [nullText_eq inside, if_neg]
    rcases of_decide_eq_true worded with missing | nested
    · rw [Complaint.message_missingExpression suits missing] at suits
      exact suits
    · exact apart _ member nested

/-- Every failure has left a `null` with its token in the tree, and they are in the same order. What
is written for the `null`s of a tree stands in its text, one after another. The failures are all
written as errors, exactly if no expression is nested too deeply where the keyword `null` stands. -/
theorem failures_shown (source : Source) :
    (∃ place : Fin source.failures.length ↪o Fin source.parse.module.nulls.length, ∀ index,
      source.parse.module.nulls.get (place index) = (source.failures.get index).token) ∧
    Shows (source.parse.module.nulls.map source.nullText) (source.parse.module.dump source) ∧
    (source.ShowsFailures ↔ ∀ problem ∈ source.parse.problems,
      problem.message = "Expression nested too deeply." → problem.token.kind ≠ .kwNull) :=
  ⟨source.failures_placed, source.parse.module.dump_shows_nulls source, source.showsFailures_iff⟩

/-- A real `null` that is nested too deeply. -/
def deepNull : Source where
  id := "deep"
  bytes := List.replicate 63 45 ++ Text.Utf8.encode "null"

/-- It is written as if nothing had been wrong with it. -/
theorem deepNull_unshown : ¬ deepNull.ShowsFailures ∧ deepNull.parse.module.dump deepNull =
    String.join (List.replicate 63 "(- ") ++ "null" ++ String.join (List.replicate 63 ")") := by
  refine ⟨fun shown => ?_, by decide +kernel⟩
  have reported : ⟨.nestedTooDeeply, ⟨.kwNull, 63, 4⟩⟩ ∈ deepNull.parse.problems := by
    decide +kernel
  exact deepNull.showsFailures_iff.1 shown _ reported rfl rfl

/-- An operand is missing. -/
def lonelyPlus : Source where
  id := "lonely"
  bytes := Text.Utf8.encode "1 +\n\n)"

theorem lonelyPlus_shown : lonelyPlus.failures.length = 1 ∧ lonelyPlus.ShowsFailures ∧
    lonelyPlus.parse.module.dump lonelyPlus = "(+ 1 <error>)" := by
  have apart : ∀ problem ∈ lonelyPlus.parse.problems,
      problem.message = "Expression nested too deeply." → problem.token.kind ≠ .kwNull := by
    decide +kernel
  exact ⟨by decide +kernel, lonelyPlus.failures_shown.2.2.2 apart, by decide +kernel⟩

end Source
end WrenFront
