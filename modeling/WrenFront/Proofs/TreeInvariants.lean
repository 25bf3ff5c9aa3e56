import WrenFront.Proofs.RuleListing

/-! What every tree satisfies, whatever is wrong with its source: how deep it is nested, and what
stands next to its operators. -/

namespace WrenFront

variable {start state : ParserState Reel Token} {marks : List (Mark Token)}
  {problems : List (Problem Token)}

theorem Expr.Ordered.mono {clean cleaner : Prop} {expression : Expr Token}
    (ordered : expression.Ordered clean) (implies : cleaner → clean) :
    expression.Ordered cleaner := by
  cases expression with
  | assignment target equal value => exact ⟨ordered.1, fun holds => ordered.2 (implies holds)⟩
  | _ => exact ordered

/-- What is listed fits so far, and it is too deep exactly where that was a problem. -/
structure Mark.Sound (marks : List (Mark Token)) (problems : List (Problem Token)) : Prop where
  bounded : ∀ levels node, .node levels node ∈ marks → levels ≤ Nested.limit + 2
  exceeded : (∃ problem ∈ problems, problem.complaint = .nestedTooDeeply) ↔
    ∃ levels node, .node levels node ∈ marks ∧ Nested.limit < levels
  fits : ∀ levels node, .node levels node ∈ marks → node.Fits problems

theorem TreeNode.Fits.noting {node : TreeNode Token} (fits : node.Fits problems)
    (problem : Problem Token) : node.Fits (problems ++ [problem]) := by
  cases node with
  | expression expression => exact fits.mono fun clean => by simp at clean
  | _ => trivial

namespace Mark.Sound

theorem token (sound : Sound marks problems) (keep : Bool) (token : Token) :
    Sound (marks ++ Mark.kept keep token) problems := by
  cases keep with
  | false => simpa [Mark.kept] using sound
  | true =>
    exact ⟨by simpa [Mark.kept] using sound.bounded, by simpa [Mark.kept] using sound.exceeded,
      by simpa [Mark.kept] using sound.fits⟩

theorem null (sound : Sound marks problems) (token : Token) :
    Sound (marks ++ [.null token]) problems :=
  ⟨by simpa using sound.bounded, by simpa using sound.exceeded, by simpa using sound.fits⟩

theorem noting (sound : Sound marks problems) {problem : Problem Token}
    (other : problem.complaint ≠ .nestedTooDeeply) : Sound marks (problems ++ [problem]) := by
  refine ⟨sound.bounded, ?_, fun levels node member => (sound.fits levels node member).noting _⟩
  rw [← sound.exceeded]
  simp [or_and_right, exists_or, other]

theorem refused {node : TreeNode Token} {token : Token} (sound : Sound marks problems)
    (stands : node = .expression (.null token) ∨ node = .statement (.expression (.null token))) :
    Sound (marks ++ node.marks (Nested.limit + 1))
      (problems ++ [⟨.nestedTooDeeply, token⟩]) := by
  have deep {levels : Nat} {inner : TreeNode Token}
      (member : .node levels inner ∈ node.marks (Nested.limit + 1)) :
      levels ≤ Nested.limit + 2 ∧ inner.Fits (problems ++ [⟨.nestedTooDeeply, token⟩]) := by
    rcases stands with rfl | rfl
    · simp at member
      obtain ⟨rfl, rfl⟩ := member
      exact ⟨by omega, trivial⟩
    · simp at member
      rcases member with ⟨rfl, rfl⟩ | ⟨rfl, rfl⟩
      · exact ⟨by omega, trivial⟩
      · exact ⟨by omega, trivial⟩
  have exceeds : .node (Nested.limit + 1) node ∈ node.marks (Nested.limit + 1) := by
    rw [TreeNode.marks_eq]
    simp
  refine ⟨fun levels inner member => ?_, ?_, fun levels inner member => ?_⟩
  · rcases List.mem_append.1 member with member | member
    · exact sound.bounded levels inner member
    · exact (deep member).1
  · exact iff_of_true ⟨⟨.nestedTooDeeply, token⟩, by simp, rfl⟩
      ⟨_, _, List.mem_append_right _ exceeds, by omega⟩
  · rcases List.mem_append.1 member with member | member
    · exact (sound.fits levels inner member).noting _
    · exact (deep member).2

theorem added {levels : Nat} {node : TreeNode Token} (sound : Sound marks problems)
    (within : levels ≤ Nested.limit) (fits : node.Fits problems) :
    Sound (marks ++ [.node levels node]) problems := by
  refine ⟨fun _ _ member => ?_, ?_, fun _ _ member => ?_⟩
  · rcases List.mem_append.1 member with member | member
    · exact sound.bounded _ _ member
    · obtain ⟨rfl, rfl⟩ : _ = levels ∧ _ = node := by simpa using member
      omega
  · rw [sound.exceeded]
    refine ⟨fun ⟨_, _, member, deep⟩ => ⟨_, _, List.mem_append_left _ member, deep⟩, ?_⟩
    rintro ⟨_, _, member, deep⟩
    rcases List.mem_append.1 member with member | member
    · exact ⟨_, _, member, deep⟩
    · obtain ⟨rfl, rfl⟩ : _ = levels ∧ _ = node := by simpa using member
      omega
  · rcases List.mem_append.1 member with member | member
    · exact sound.fits _ _ member
    · obtain ⟨rfl, rfl⟩ : _ = levels ∧ _ = node := by simpa using member
      exact fits

end Mark.Sound

theorem Listed.sound (listed : Listed start marks state) (fresh : start.problems = []) :
    Mark.Sound marks state.problems := by
  induction listed with
  | start => rw [fresh]; exact ⟨by simp, by simp, by simp⟩
  | look _ ih => rwa [Parse.lookahead_problems]
  | shift _ _ ih => exact ih
  | take keep _ _ ih => rw [Parse.advance_problems]; exact ih.token keep _
  | mistake keep _ _ ih =>
    rw [ParserState.noting, Parse.advance_problems]
    exact (ih.token keep _).noting (by simp)
  | disallow _ _ _ ih => exact ih.noting (by simp)
  | null _ _ ih => rw [Parse.advance_problems]; exact ih.null _
  | missing _ ih =>
    rw [ParserState.noting, Parse.lookahead_problems]
    exact (ih.null _).noting (by simp)
  | refuse stands _ ih =>
    rw [ParserState.noting, Parse.lookahead_problems]
    exact ih.refused stands
  | node within fits _ ih => exact ih.added within fits

theorem Complaint.message_nestedTooDeeply {complaint : Complaint}
    (same : complaint.message = "Expression nested too deeply.") :
    complaint = .nestedTooDeeply := by
  cases complaint with
  | nestedTooDeeply => rfl
  | expected what =>
    change "Expect " ++ what ++ "." = _ at same
    have begins := congrArg (·.toList.take 5) same
    simp at begins
  | missingExpression => exact absurd same (by decide)
  | parametersNotAllowed => exact absurd same (by decide)

namespace Source

/-- The limit on nesting is exact: a tree goes no more than two levels past it, and it goes past it
at all exactly if that was reported. -/
theorem nesting_limited (source : Source) :
    (∀ levels node, (TreeNode.script source.parse.module).Path levels node → levels ≤ 66) ∧
      ((∃ problem ∈ source.parse.problems, problem.message = "Expression nested too deeply.") ↔
        ∃ levels node, (TreeNode.script source.parse.module).Path levels node ∧ 64 < levels) := by
  obtain ⟨state, listed, problems⟩ := source.parse_lists
  have sound := listed.sound (Parse.lookahead_problems _)
  simp only [← TreeNode.listed_iff]
  refine ⟨sound.bounded, ?_⟩
  rw [← problems]
  refine Iff.trans ⟨?_, ?_⟩ sound.exceeded
  · rintro ⟨problem, member, same⟩
    exact ⟨problem, member, Complaint.message_nestedTooDeeply same⟩
  · rintro ⟨problem, member, same⟩
    exact ⟨problem, member, by rw [Problem.message, same]; rfl⟩

/-- What stands next to an operator binds at least as tightly as it has to, also where something was
missing or nested too deeply. -/
theorem operators_ordered (source : Source) {levels : Nat} {expression : Expr Token}
    (path : (TreeNode.script source.parse.module).Path levels (.expression expression)) :
    expression.Ordered (source.parse.problems = []) := by
  obtain ⟨state, listed, problems⟩ := source.parse_lists
  have sound := listed.sound (Parse.lookahead_problems _)
  rw [← problems]
  exact sound.fits levels _ (TreeNode.listed_iff.2 path)

end Source

/-- The operands of an operation, with its operator between them. -/
def Expr.operation? {τ : Type} : Expr τ → Option (Expr τ × τ × Expr τ)
  | .infixOp left operator right => some (left, operator, right)
  | _ => none

def Stmt.operation? {τ : Type} : Stmt τ → Option (Expr τ × τ × Expr τ)
  | .expression value => value.operation?
  | _ => none

/-- The operation that a script begins with. -/
def Module.operation? {τ : Type} (module : Module τ) : Option (Expr τ × τ × Expr τ) :=
  module.statements.head?.bind Stmt.operation?

theorem Module.operation?_path {τ : Type} {module : Module τ} {left right : Expr τ} {operator : τ}
    (found : module.operation? = some (left, operator, right)) :
    (TreeNode.script module).Path 2 (.expression (.infixOp left operator right)) := by
  obtain ⟨statement, first, found⟩ := Option.bind_eq_some_iff.1 found
  have member := List.mem_map_of_mem (f := Part.statement) (List.mem_of_head? first)
  cases statement with
  | expression value =>
    cases value with
    | infixOp =>
      cases found
      exact .further member (.further List.mem_cons_self .here)
    | _ => cases found
  | _ => cases found

namespace Source

/-- An operand is missing between two operators. -/
def gapped : Source where
  id := "gapped"
  bytes := Text.Utf8.encode "a + * -b\n"

theorem gapped_ordered : gapped.parse.problems ≠ [] ∧ ∃ left operator right,
    (TreeNode.script gapped.parse.module).Path 2 (.expression (.infixOp left operator right)) ∧
      (Expr.infixOp left operator right).Ordered (gapped.parse.problems = []) := by
  have joined : gapped.parse.module.operation?.isSome = true := by decide +kernel
  obtain ⟨⟨left, operator, right⟩, found⟩ := Option.isSome_iff_exists.1 joined
  have path := Module.operation?_path found
  exact ⟨by decide +kernel, left, operator, right, path, gapped.operators_ordered path⟩

end Source
end WrenFront
