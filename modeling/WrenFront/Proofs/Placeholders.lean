import WrenFront.Proofs.ProblemBounds
import WrenFront.Proofs.TreeInvariants

/-! What stands in a tree for an expression that is missing or nested too deeply. It is a `null`
with the token that was reported, so every such report has a `null` in the tree, and a `null` whose
token is not the keyword has a report. -/

namespace WrenFront

variable {τ : Type}

/-- A complaint that leaves a `null` in the tree. -/
def Complaint.leavesNull : Complaint → Bool
  | .missingExpression | .nestedTooDeeply => true
  | _ => false

theorem Complaint.message_leavesNull {complaint : Complaint}
    (leaves : complaint.leavesNull = true) :
    complaint.message = "Expect expression." ∨
      complaint.message = "Expression nested too deeply." := by
  cases complaint with
  | missingExpression => exact .inl rfl
  | nestedTooDeeply => exact .inr rfl
  | expected what => cases leaves
  | parametersNotAllowed => cases leaves

/-- The tokens that problems have left in the tree. -/
def Problem.leftovers (problems : List (Problem τ)) : List τ :=
  (problems.filter (·.complaint.leavesNull)).map Problem.token

namespace Mark

def null? : Mark τ → Option τ
  | .null written => some written
  | _ => none

/-- The `null` that ends with a mark. -/
def nullNode? : Mark τ → Option τ
  | .node _ (.expression (.null written)) => some written
  | _ => none

/-- Every token left by a problem is listed, and no other but the tokens of real `null`s. -/
structure Explained (marks : List (Mark Token)) (problems : List (Problem Token)) : Prop where
  listed : (Problem.leftovers problems).Sublist (marks.filterMap null?)
  known : ∀ token ∈ marks.filterMap null?,
    token.kind = .kwNull ∨ token ∈ Problem.leftovers problems

namespace Explained
variable {marks more : List (Mark Token)} {problems new : List (Problem Token)} {token : Token}
  {complaint : Complaint}

theorem append (first : Explained marks problems) (second : Explained more new) :
    Explained (marks ++ more) (problems ++ new) := by
  have left : Problem.leftovers (problems ++ new) =
      Problem.leftovers problems ++ Problem.leftovers new := by
    simp [Problem.leftovers]
  refine ⟨?_, fun token member => ?_⟩
  · rw [left, List.filterMap_append]
    exact first.listed.append second.listed
  · rw [left, List.mem_append]
    rw [List.filterMap_append, List.mem_append] at member
    rcases member with member | member
    · exact (first.known token member).imp_right .inl
    · exact (second.known token member).imp_right .inr

theorem nothing (none : more.filterMap null? = []) (other : Problem.leftovers new = []) :
    Explained more new := by
  refine ⟨?_, fun token member => ?_⟩
  · rw [other]
    exact List.nil_sublist _
  · rw [none] at member
    cases member

theorem left (only : more.filterMap null? = [token]) (leaves : complaint.leavesNull = true) :
    Explained more [⟨complaint, token⟩] := by
  have left : Problem.leftovers [⟨complaint, token⟩] = [token] := by
    simp [Problem.leftovers, leaves]
  refine ⟨?_, fun other member => .inr ?_⟩
  · simp only [left, only, List.Sublist.refl]
  · rwa [left, ← only]

theorem ofNull (kind : token.kind = .kwNull) : Explained [.null token] [] := by
  refine ⟨List.nil_sublist _, fun other member => .inl ?_⟩
  obtain rfl : other = token := by simpa [null?] using member
  exact kind

end Explained
end Mark

/-- What a move adds to the listing explains what it adds to the problems. -/
theorem Listed.explained {start state : ParserState Reel Token} {marks : List (Mark Token)}
    (listed : Listed start marks state) (fresh : start.problems = []) :
    Mark.Explained marks state.problems := by
  have kept (keep : Bool) (token : Token) : (Mark.kept keep token).filterMap Mark.null? = [] := by
    cases keep <;> rfl
  induction listed with
  | start => rw [fresh]; exact .nothing rfl rfl
  | look _ ih => rwa [Parse.lookahead_problems]
  | shift _ _ ih => exact ih
  | take keep _ _ ih =>
    rw [Parse.advance_problems, ← List.append_nil (ParserState.problems _)]
    exact ih.append (.nothing (kept keep _) rfl)
  | mistake keep _ _ ih =>
    rw [ParserState.noting, Parse.advance_problems]
    exact ih.append (.nothing (kept keep _) rfl)
  | @disallow marks _ _ _ _ _ ih =>
    rw [← List.append_nil marks]
    exact ih.append (.nothing rfl rfl)
  | null kind _ ih =>
    rw [Parse.advance_problems, ← List.append_nil (ParserState.problems _)]
    exact ih.append (.ofNull kind)
  | missing _ ih =>
    rw [ParserState.noting, Parse.lookahead_problems]
    exact ih.append (.left rfl rfl)
  | refuse stands _ ih =>
    rw [ParserState.noting, Parse.lookahead_problems]
    refine ih.append (.left ?_ rfl)
    rcases stands with rfl | rfl
    · rw [TreeNode.marks_null]
      rfl
    · rw [TreeNode.marks_nullStatement]
      rfl
  | node _ _ _ ih =>
    rw [← List.append_nil (ParserState.problems _)]
    exact ih.append (.nothing rfl rfl)

namespace Part
variable {token : τ}

@[simp]
theorem statement_ne_null (statement : Stmt τ) : Part.statement statement ≠ .null token := by
  cases statement <;> simp [Part.statement]

@[simp]
theorem null_ne_element (statement : Stmt τ) : .null token ≠ Part.element statement := by
  cases statement <;> simp [Part.element]

@[simp]
theorem null_not_mem_entry (entry : MapEntry τ) : .null token ∉ Part.entry entry := by
  cases entry
  simp [Part.entry]

@[simp]
theorem null_not_mem_segment (segment : InterpolationPart τ) :
    .null token ∉ Part.segment segment := by
  cases segment
  simp [Part.segment]

@[simp]
theorem null_not_mem_block (block : Option (Body τ)) : .null token ∉ Part.block block := by
  cases block <;> simp [Part.block]

end Part

namespace TreeNode

theorem null_mem_parts {node : TreeNode τ} {token : τ} (part : .null token ∈ node.parts) :
    node = .expression (.null token) := by
  cases node with
  | script module => simp [TreeNode.parts] at part
  | statement statement => cases statement <;> simp [TreeNode.parts, Stmt.parts] at part
  | method method =>
    cases method
    simp [TreeNode.parts] at part
  | body body => cases body <;> simp [TreeNode.parts] at part
  | expression expression =>
    cases expression with
    | null written =>
      obtain rfl : token = written := by simpa [TreeNode.parts, Expr.parts] using part
      rfl
    | _ => simp [TreeNode.parts, Expr.parts] at part

theorem nullNode?_other {node : TreeNode τ} (levels : Nat)
    (other : ¬ ∃ token, node = .expression (.null token)) :
    [Mark.node levels node].filterMap Mark.nullNode? = [] := by
  have none : Mark.nullNode? (.node levels node) = none := by
    unfold Mark.nullNode?
    split
    · next same =>
      cases same
      exact absurd ⟨_, rfl⟩ other
    · rfl
  rw [List.filterMap_cons_none none, List.filterMap_nil]

/-- The token of a `null` is listed with its node, and no other node lists one. -/
theorem nullNode?_marks (node : TreeNode τ) (levels : Nat) :
    (node.marks levels).filterMap Mark.nullNode? = (node.marks levels).filterMap Mark.null? := by
  induction node using TreeNode.induction generalizing levels with
  | step node ih =>
    by_cases null : ∃ token, node = .expression (.null token)
    · obtain ⟨token, rfl⟩ := null
      rw [marks_null]
      rfl
    -- Any other node has no such part, so it lists what the nodes in it list.
    have parts : ∀ part ∈ node.parts, (part.marks levels).filterMap Mark.nullNode? =
        (part.marks levels).filterMap Mark.null? := by
      intro part member
      cases part with
      | token token => rfl
      | null token => exact absurd ⟨token, null_mem_parts member⟩ null
      | node child => exact ih child (.inl member) levels
      | nested child => exact ih child (.inr member) (levels + 1)
    rw [marks_eq, List.filterMap_append, List.filterMap_append, nullNode?_other levels null,
      List.filterMap_flatMap, List.filterMap_flatMap, List.flatMap_def, List.map_congr_left parts,
      ← List.flatMap_def]
    rfl

end TreeNode

/-- The tokens of all the `null`s in a tree, in the order they are listed. -/
def Module.nulls (module : Module τ) : List τ :=
  ((TreeNode.script module).marks 0).filterMap Mark.nullNode?

theorem Module.mem_nulls {module : Module τ} {token : τ} : token ∈ module.nulls ↔
    ∃ levels, (TreeNode.script module).Path levels (.expression (.null token)) := by
  simp only [← TreeNode.listed_iff, nulls, List.mem_filterMap]
  constructor
  · rintro ⟨mark, member, found⟩
    unfold Mark.nullNode? at found
    split at found
    · cases found
      exact ⟨_, member⟩
    · cases found
  · rintro ⟨levels, member⟩
    exact ⟨_, member, rfl⟩

namespace Source

theorem parse_explained (source : Source) :
    (Problem.leftovers source.parse.problems).Sublist source.parse.module.nulls ∧
      ∀ token ∈ source.parse.module.nulls,
        token.kind = .kwNull ∨ token ∈ Problem.leftovers source.parse.problems := by
  obtain ⟨state, listed, problems⟩ := source.parse_lists
  have explained := listed.explained (Parse.lookahead_problems _)
  rw [problems] at explained
  rw [Module.nulls, TreeNode.nullNode?_marks]
  exact ⟨explained.listed, explained.known⟩

/-- Wherever a `null` stands in the tree, either its token is the keyword, or it stands for an
expression that was reported at the very same token. So nothing stands in for an expression in the
tree of a source without problems. -/
theorem placeholders_reported (source : Source) :
    (∀ levels token,
      (TreeNode.script source.parse.module).Path levels (.expression (.null token)) →
      token.kind ≠ .kwNull → ∃ problem ∈ source.parse.problems, problem.token = token ∧
        (problem.message = "Expect expression." ∨
          problem.message = "Expression nested too deeply.")) ∧
    (source.parse.problems = [] → ∀ levels token,
      (TreeNode.script source.parse.module).Path levels (.expression (.null token)) →
      token.kind = .kwNull) := by
  have left {levels : Nat} {token : Token}
      (path : (TreeNode.script source.parse.module).Path levels (.expression (.null token))) :
      token.kind = .kwNull ∨ token ∈ Problem.leftovers source.parse.problems :=
    source.parse_explained.2 token (Module.mem_nulls.2 ⟨levels, path⟩)
  refine ⟨fun levels token path other => ?_, fun clean levels token path => ?_⟩
  · obtain ⟨problem, found, same⟩ := List.mem_map.1 ((left path).resolve_left other)
    obtain ⟨member, leaves⟩ := List.mem_filter.1 found
    exact ⟨problem, member, same, Complaint.message_leavesNull leaves⟩
  · refine (left path).resolve_right fun found => ?_
    rw [clean] at found
    cases found

end Source

/-- What stands for the value of a variable, if it has none. -/
def Stmt.gap? : Stmt τ → Option τ
  | .varDef _ _ (some (.null token)) => some token
  | _ => none

theorem Module.gap_path {module : Module τ} {token : τ}
    (found : module.statements.head?.bind Stmt.gap? = some token) :
    (TreeNode.script module).Path 1 (.expression (.null token)) := by
  obtain ⟨statement, first, gap⟩ := Option.bind_eq_some_iff.1 found
  have member := List.mem_map_of_mem (f := Part.statement) (List.mem_of_head? first)
  unfold Stmt.gap? at gap
  split at gap
  · cases gap
    refine .beside member (.further ?_ .here)
    simp [TreeNode.parts, Stmt.parts]
  · cases gap

namespace Source

/-- The value of a variable is missing. -/
def valueless : Source where
  id := "valueless"
  bytes := Text.Utf8.encode "var a =\n"

theorem valueless_reported : ∃ token : Token,
    (TreeNode.script valueless.parse.module).Path 1 (.expression (.null token)) ∧
      token.kind ≠ .kwNull ∧ ∃ problem ∈ valueless.parse.problems, problem.token = token ∧
        (problem.message = "Expect expression." ∨
          problem.message = "Expression nested too deeply.") := by
  have found : valueless.parse.module.statements.head?.bind Stmt.gap? = some ⟨.line, 7, 1⟩ := by
    decide +kernel
  have path := Module.gap_path found
  exact ⟨_, path, by simp, valueless.placeholders_reported.1 _ _ path (by simp)⟩

end Source
end WrenFront
