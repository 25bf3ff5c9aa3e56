import WrenFront.Proofs.GrammarCompleteness

/-! Operands with operators between them. The parser climbs from level to level and folds to the
left; here the tree of a chain is found by cutting it in two, at the last of its loosest operators,
and both come to the same. -/

namespace WrenFront

/-- How tightly an operator binds: the number of its level, from the loosest. -/
def TokenKind.infixLevel (kind : TokenKind) : Nat :=
  infixLevels.findIdx (·.contains kind)

theorem TokenKind.infixLevel_lt {kind : TokenKind} (joins : kind.isInfixOperator) :
    kind.infixLevel < infixLevels.length :=
  List.findIdx_lt_length.2 (List.any_eq_true.1 joins)

theorem TokenKind.infixLevel_mem {kind : TokenKind}
    (inside : kind.infixLevel < infixLevels.length) : kind ∈ infixLevels[kind.infixLevel] :=
  List.contains_iff_mem.1 (List.findIdx_getElem (w := inside))

namespace OperatorChain

/-- The kinds of token that are operands by themselves. -/
def operandKinds : List TokenKind :=
  [.number, .string, .name, .field, .staticField, .kwTrue, .kwFalse, .kwNull, .kwThis]

structure Operand where
  token : Token
  stands : token.kind ∈ operandKinds

/-- An operator and what it joins to the operands before it. Newlines may stand after it. -/
structure Link where
  operator : Token
  joins : operator.kind.isInfixOperator
  newlines : List Token
  lines : ∀ token ∈ newlines, token.kind = .line
  operand : Operand

def Link.level (link : Link) : Nat :=
  link.operator.kind.infixLevel

def Link.tokens (link : Link) : List Token :=
  link.operator :: link.newlines ++ [link.operand.token]

def tokens (first : Operand) (links : List Link) : List Token :=
  first.token :: links.flatMap Link.tokens

def leaf (operand : Operand) : Expr Token :=
  match operand.token.kind with
  | .number => .number operand.token
  | .string => .string operand.token
  | .name => .call none operand.token none none
  | .field => .field operand.token
  | .staticField => .staticField operand.token
  | .kwTrue | .kwFalse => .bool operand.token
  | .kwThis => .this operand.token
  | _ => .null operand.token

/-- Cuts a chain at the last of its loosest operators. -/
def cut? : List Link → Option (List Link × Link × List Link)
  | [] => none
  | link :: rest =>
    match cut? rest with
    | none => some ([], link, rest)
    | some (before, last, after) =>
      if link.level < last.level then some ([], link, rest)
      else some (link :: before, last, after)

theorem cut?_none {links : List Link} (uncut : cut? links = none) : links = [] := by
  cases links with
  | nil => rfl
  | cons link rest =>
    unfold cut? at uncut
    split at uncut
    · cases uncut
    · split at uncut <;> cases uncut

/-- No operator before the cut is looser than the one there, and every one after it is tighter. -/
theorem cut?_some {links before after : List Link} {last : Link}
    (cut : cut? links = some (before, last, after)) : links = before ++ last :: after ∧
      (∀ link ∈ before, last.level ≤ link.level) ∧ ∀ link ∈ after, last.level < link.level := by
  induction links generalizing before last after with
  | nil => cases cut
  | cons link rest ih =>
    unfold cut? at cut
    split at cut
    · next uncut =>
      cases cut
      rw [cut?_none uncut]
      simp
    · next found =>
      obtain ⟨rfl, notLooser, tighter⟩ := ih found
      split at cut
      · next looser =>
        cases cut
        refine ⟨rfl, by simp, fun other member => ?_⟩
        rcases List.mem_append.1 member with member | member
        · exact Nat.lt_of_lt_of_le looser (notLooser other member)
        · rcases List.mem_cons.1 member with rfl | member
          · exact looser
          · exact Nat.lt_trans looser (tighter other member)
      · next notLoose =>
        cases cut
        refine ⟨rfl, fun other member => ?_, tighter⟩
        rcases List.mem_cons.1 member with rfl | member
        · exact Nat.le_of_not_lt notLoose
        · exact notLooser other member

/-- The tree of a chain: the operator at the cut, between the trees of both sides. -/
def split (first : Operand) (links : List Link) : Expr Token :=
  match _cut : cut? links with
  | none => leaf first
  | some (before, last, after) =>
    .infixOp (split first before) last.operator (split last.operand after)
termination_by links.length
decreasing_by
  all_goals
    rw [(cut?_some _cut).1, List.length_append, List.length_cons]
    omega

theorem split_none {links : List Link} (first : Operand) (uncut : cut? links = none) :
    split first links = leaf first := by
  rw [split]
  split
  · rfl
  · next cut => cases uncut.symm.trans cut

theorem split_some {links before after : List Link} {last : Link} (first : Operand)
    (cut : cut? links = some (before, last, after)) : split first links =
      .infixOp (split first before) last.operator (split last.operand after) := by
  rw [split]
  split
  · next uncut => cases uncut.symm.trans cut
  · next same =>
    cases same.symm.trans cut
    rfl

open Grammar

theorem leaf_derived (levels : Nat) (operand : Operand) (rest : List Token) :
    Grammar.Operand levels (operand.token :: rest) rest (leaf operand) := by
  obtain ⟨token, stands⟩ := operand
  refine .chain (.primary ?_)
  by_cases named : token.kind = .name
  · have leaf_eq : leaf ⟨token, stands⟩ = .call none token none none := by
      simp only [leaf, named]
    rw [leaf_eq]
    exact .call named .none .none
  · refine .literal ?_
    simp only [operandKinds, List.mem_cons, List.not_mem_nil, or_false] at stands
    rcases stands with kind | kind | kind | kind | kind | kind | kind | kind | kind
    all_goals first
      | exact absurd kind named
      | simp only [literal?, leaf, kind]

theorem lines_derived {newlines : List Token} (lines : ∀ token ∈ newlines, token.kind = .line)
    (rest : List Token) : Newlines (newlines ++ rest) rest := by
  induction newlines with
  | nil => exact .none
  | cons newline newlines ih =>
    obtain ⟨first, others⟩ := List.forall_mem_cons.1 lines
    exact .more first (ih others)

/-- A chain of operators from some level on is read there, as the tree that cutting it gives. -/
theorem split_derived (levels : Nat) (first : Operand) (links : List Link) (rest : List Token)
    (level : Nat) (tight : ∀ link ∈ links, level ≤ link.level) :
    Infix levels (TokenKind.infixLevels.drop level) (tokens first links ++ rest) rest
      (split first links) := by
  cases cut : cut? links with
  | none =>
    obtain rfl := cut?_none cut
    rw [split_none first cut]
    exact (leaf_derived levels first rest).atLevels _
  | some parts =>
    obtain ⟨before, last, after⟩ := parts
    obtain ⟨parts, notLooser, tighter⟩ := cut?_some cut
    have within : last.level < TokenKind.infixLevels.length := TokenKind.infixLevel_lt last.joins
    have here : level ≤ last.level := tight last (by simp [parts])
    rcases Nat.lt_or_eq_of_le here with above | same
    · -- The loosest operator is above this level, and so are all the others.
      have all : ∀ link ∈ links, level + 1 ≤ link.level := by
        intro link member
        rw [parts] at member
        rcases List.mem_append.1 member with member | member
        · exact Nat.le_trans above (notLooser link member)
        · rcases List.mem_cons.1 member with rfl | member
          · exact above
          · exact Nat.le_of_lt (Nat.lt_of_le_of_lt above (tighter link member))
      rw [List.drop_eq_getElem_cons (Nat.lt_trans above within)]
      exact .tighter (split_derived levels first links rest (level + 1) all)
    · subst same
      have left := split_derived levels first before
        (last.tokens ++ (after.flatMap Link.tokens ++ rest)) last.level notLooser
      have right := split_derived levels last.operand after rest (last.level + 1) tighter
      have whole : tokens first links ++ rest =
          tokens first before ++ (last.tokens ++ (after.flatMap Link.tokens ++ rest)) := by
        simp [tokens, parts]
      rw [split_some first cut, whole]
      rw [List.drop_eq_getElem_cons within] at left ⊢
      refine .operator left (TokenKind.infixLevel_mem within) ?_ right
      have lines := lines_derived last.lines (OperatorChain.tokens last.operand after ++ rest)
      simpa [OperatorChain.tokens] using lines
termination_by (links.length, TokenKind.infixLevels.length - level)
decreasing_by
  · exact Prod.Lex.right _ (by omega)
  all_goals
    refine Prod.Lex.left _ _ ?_
    rw [parts, List.length_append, List.length_cons]
    omega

/-- A script that is a chain has its tree for a statement. -/
theorem script_derived (first : Operand) (links : List Link) {last : Token}
    (ends : last.kind = .eof) :
    Script 2 (tokens first links ++ [last]) ⟨[.expression (split first links)]⟩ := by
  have value := split_derived 0 first links [last] 0 fun _ _ => Nat.zero_le _
  have unbraced : first.token.kind ≠ .leftBrace := fun brace => by
    have stands := first.stands
    rw [brace] at stands
    exact absurd stands (by decide)
  exact .mk .none (.last (.statement (.expression unbraced (.plain (.plain value))))) ends

end OperatorChain

namespace Source
open OperatorChain

/-- A source whose tokens are operands with operators between them, and newlines after the operators
at most, has no problem, and its only statement is the tree that cutting the chain at the last of
its loosest operators gives, again and again. -/
theorem parse_operatorChain (source : Source) (first : Operand) (links : List Link) (last : Token)
    (ends : last.kind = .eof)
    (written : source.tokens = OperatorChain.tokens first links ++ [last]) :
    source.parse.problems = [] ∧
      source.parse.module = ⟨[.expression (OperatorChain.split first links)]⟩ := by
  obtain ⟨sameModule, sameProblems⟩ := source.parse_reel
  obtain ⟨fed, ahead, depth, none⟩ := Parse.ofReel_fed source
  have derived := script_derived first links ends
  rw [← written, ← ahead] at derived
  obtain ⟨reads, clean⟩ := Parse.module_reads fed (by rw [depth]; decide) derived
  exact ⟨(sameProblems.trans clean).trans none, sameModule.trans reads⟩

/-- A chain of operators of three levels, with newlines after one of them. -/
def mixedOperators : Source where
  id := "mixed"
  bytes := Text.Utf8.encode "a - 1 *\n\n \"s\" - this is null"

def mixedFirst : Operand :=
  ⟨⟨.name, 0, 1⟩, by decide⟩

def mixedLinks : List Link :=
  [⟨⟨.minus, 2, 1⟩, rfl, [], by simp, ⟨⟨.number, 4, 1⟩, by decide⟩⟩,
    ⟨⟨.star, 6, 1⟩, rfl, [⟨.line, 7, 1⟩, ⟨.line, 8, 1⟩], by decide, ⟨⟨.string, 10, 3⟩, by decide⟩⟩,
    ⟨⟨.minus, 14, 1⟩, rfl, [], by simp, ⟨⟨.kwThis, 16, 4⟩, by decide⟩⟩,
    ⟨⟨.kwIs, 21, 2⟩, rfl, [], by simp, ⟨⟨.kwNull, 24, 4⟩, by decide⟩⟩]

theorem mixedOperators_parsed :
    mixedOperators.tokens = OperatorChain.tokens mixedFirst mixedLinks ++ [⟨.eof, 28, 0⟩] ∧
      mixedOperators.parse.problems = [] ∧ mixedOperators.parse.module = ⟨[.expression
        (.infixOp (.infixOp (.infixOp (.call none ⟨.name, 0, 1⟩ none none) ⟨.minus, 2, 1⟩
          (.infixOp (.number ⟨.number, 4, 1⟩) ⟨.star, 6, 1⟩ (.string ⟨.string, 10, 3⟩)))
            ⟨.minus, 14, 1⟩ (.this ⟨.kwThis, 16, 4⟩))
          ⟨.kwIs, 21, 2⟩ (.null ⟨.kwNull, 24, 4⟩))]⟩ := by
  have written : mixedOperators.tokens =
      OperatorChain.tokens mixedFirst mixedLinks ++ [⟨.eof, 28, 0⟩] := by decide +kernel
  obtain ⟨clean, module⟩ := mixedOperators.parse_operatorChain mixedFirst mixedLinks _ rfl written
  refine ⟨written, clean, module.trans ?_⟩
  cbv

end Source
end WrenFront
