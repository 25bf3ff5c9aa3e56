import WrenFront.Proofs.TreeListing

/-! Every rule of the parser lists what it returns. The rules of one level are read move by move,
given that the nested ones list what they return one level further in; they are tied together at
the end. -/

namespace WrenFront

/-- No equal sign is left to read, unless there was a complaint. -/
def ParserState.Settled (state : ParserState Reel Token) : Prop :=
  (Parse.lookahead state).1.kind ≠ .equal ∨ state.problems ≠ []

/-- A statement that takes a level of its own, among others and alone. -/
def Stmt.Levelled (value : Stmt Token) : Prop :=
  Part.statement value = .nested (.statement value) ∧
    Part.element value = .nested (.statement value)

/-- A node of some shape has been listed. -/
def Parse.Shaped {α : Type} (start : ParserState Reel Token) (before : List (Mark Token))
    (levels : Nat) (node : α → TreeNode Token) (shape : α → Prop) (value : α)
    (state : ParserState Reel Token) : Prop :=
  Listed start (before ++ (node value).marks levels) state ∧ shape value

/-- The nested rules list what they return, at the levels of nested parts. A class that is refused
leaves nothing of its keywords, so both listings are at hand when its tail is read. -/
structure Nested.Lists (start : ParserState Reel Token) (nested : Nested Reel Token)
    (levels : Nat) : Prop where
  within : levels ≤ Nested.limit
  expression : ∀ before, Parse.Ensures (Listed start before) nested.expression fun value state =>
    Listed start (before ++ (Part.expression value).marks levels) state ∧ state.Settled
  conditional : ∀ before, Parse.Ensures (Listed start before) nested.conditional
    (Parse.Shaped start before (levels + 1) .expression (·.isAssignment = false))
  operand : ∀ before, Parse.Ensures (Listed start before) nested.operand
    (Parse.Shaped start before (levels + 1) .expression (·.isOperand = true))
  statement : ∀ before, Parse.Ensures (Listed start before) nested.statement
    (Parse.Shaped start before (levels + 1) .statement
      fun value => Part.statement value = .nested (.statement value))
  element : ∀ before, ∀ seen ∈ Grammar.elementKeywords,
    Parse.Ensures (Parse.Sees start before seen) nested.statement fun value =>
      Listed start (before ++ (Part.element value).marks levels)
  classTail : ∀ before foreign keyword,
    Parse.Ensures
      (fun state => Listed start before state ∧
        Listed start (before ++ foreign.toList.map .token ++ [.token keyword]) state)
      (nested.classTail foreign keyword)
      fun value => Listed start (before ++ (Part.statement value).marks levels)

namespace Parse
section Rules
variable {start : ParserState Reel Token} {before : List (Mark Token)} {nested : Nested Reel Token}
  {levels : Nat}

theorem importTail_lists (within : levels ≤ Nested.limit) (keyword : Token) :
    Ensures (Listed start (before ++ [.token keyword])) (importTail keyword)
      fun value => Listed start (before ++ (Part.statement value).marks levels) := by
  refine .bind expect_keeps fun path => .bind accept_skips fun named => ?_
  split
  · refine .bind skipNewlines_skips fun _ => .bind names_keep fun names => .pure ?_
    intro state listed
    exact listed.close within trivial (by simp [TreeNode.parts, Stmt.parts, Part.marks])
  · refine .pure fun state listed => listed.close within trivial ?_
    simp [TreeNode.parts, Stmt.parts, Part.marks]

theorem expression_lists (lists : nested.Lists start levels) :
    Ensures (Listed start before) nested.expression
      fun value => Listed start (before ++ (Part.expression value).marks levels) :=
  (lists.expression before).mono fun _ _ holds => holds.1

theorem varTail_lists (lists : nested.Lists start levels) (keyword : Token) :
    Ensures (Listed start (before ++ [.token keyword])) (varTail nested keyword)
      fun value => Listed start (before ++ (Part.statement value).marks levels) := by
  refine .bind expect_keeps fun name => .bind accept_skips fun initialized => ?_
  split
  · refine .bind (expression_lists lists) fun value => .pure fun state listed => ?_
    exact listed.close lists.within trivial (by simp [TreeNode.parts, Stmt.parts, Part.marks])
  · refine .pure fun state listed => listed.close lists.within trivial ?_
    simp [TreeNode.parts, Stmt.parts, Part.marks]

theorem definition_lists (lists : nested.Lists start levels) :
    Ensures (Listed start before) (definition nested)
      fun value => Listed start (before ++ (Part.statement value).marks levels) := by
  refine .seen fun seen => .foundEither (by decide) (fun _ => ?_) fun keyword _ _ => ?_
  · refine .foundEither (by decide) (fun _ => ?_) fun foreign _ _ => ?_
    · refine .found (by decide) (fun _ => ?_) fun keyword _ _ =>
        importTail_lists lists.within keyword
      refine .found (by decide) (fun _ => ?_) fun keyword _ _ => varTail_lists lists keyword
      refine .unseen ((lists.statement before).mono fun value state holds => ?_)
      rw [holds.2]
      exact holds.1
    · exact .bind (.and expect_skips expect_keeps) fun keyword => by
        simpa using lists.classTail before (some foreign) keyword
  · simpa using lists.classTail before none keyword

theorem bodyElement_lists (lists : nested.Lists start levels) :
    Ensures (Listed start before) (bodyElement nested)
      fun value => Listed start (before ++ (Part.element value).marks levels) := by
  refine .seen fun seen => .peeked ?_
  split
  case h_6 =>
    refine .bind (.unseen (expression_lists lists)) fun value => .pure fun state listed => ?_
    exact listed.close lists.within trivial (by simp [TreeNode.parts, Stmt.parts])
  all_goals exact lists.element before _ (by decide)

theorem bodyRound_lists (lists : nested.Lists start levels) :
    Ensures (Listed start before) (bodyRound nested) fun ending =>
      Listed start (before ++ ending.toList.flatMap fun value =>
        (Part.statement value).marks levels) := by
  refine .seen fun seen => .peeked ?_
  split
  · refine .bind (.unseen expect_skips) fun _ => .pure fun state listed => ?_
    simpa [Round.toList] using listed
  · refine .bind (.unseen (definition_lists lists)) fun value => .bind expectNewline_skips fun _ =>
      .bind accept_skips fun closed => ?_
    split <;> exact .pure fun state listed => by simpa [Round.toList] using listed

theorem bodyStatements_list (lists : nested.Lists start levels) :
    Ensures (Listed start before) (bodyStatements nested) fun values =>
      Listed start (before ++ values.flatMap fun value => (Part.statement value).marks levels) := by
  refine .bind accept_skips fun closed => ?_
  split
  · exact .pure fun state listed => by simpa using listed
  · exact loop_lists fun before => bodyRound_lists lists

theorem bodyTail_lists (lists : nested.Lists start levels) (parameters : Option (List Token)) :
    Ensures (Listed start before) (bodyTail nested parameters) fun body state =>
      Listed start (before ++ (TreeNode.body body).marks levels) state ∧
        body.parameters = parameters := by
  refine .bind accept_skips fun closed => ?_
  split
  · refine .pure fun state listed => ⟨listed.close lists.within trivial ?_, rfl⟩
    simp [TreeNode.parts]
  refine .bind newlines_skips fun found => ?_
  split
  · refine .bind (bodyStatements_list lists) fun values => .pure fun state listed => ?_
    exact ⟨listed.close lists.within trivial (by simp [TreeNode.parts, List.flatMap_map]), rfl⟩
  · refine .bind (bodyElement_lists lists) fun value => .bind skipNewlines_skips fun _ =>
      .bind expect_skips fun _ => .pure fun state listed => ?_
    exact ⟨listed.close lists.within trivial (by simp [TreeNode.parts]), rfl⟩

theorem argumentList_lists (lists : nested.Lists start levels) :
    Ensures (Listed start before) (argumentList nested) fun values =>
      Listed start (before ++ values.flatMap fun value => (Part.expression value).marks levels) :=
  .bind skipNewlines_skips fun _ => separated_lists fun _ => expression_lists lists

theorem callArguments_list (lists : nested.Lists start levels) :
    Ensures (Listed start before) (callArguments nested) fun values =>
      Listed start (before ++ (Part.arguments values).flatMap (Part.marks levels)) := by
  refine .bind accept_skips fun opened => ?_
  split
  · refine .bind accept_skips fun closed => ?_
    split
    · exact .pure fun state listed => by simpa using listed
    · refine .bind (argumentList_lists lists) fun values => .bind expect_skips fun _ =>
        .pure fun state listed => ?_
      simpa [List.flatMap_map] using listed
  · exact .pure fun state listed => by simpa using listed

theorem blockParameters_list : Ensures (Listed start before) blockParameters
    fun names => Listed start (before ++ (names.getD []).map .token) := by
  refine .bind accept_skips fun opened => ?_
  split
  · exact .bind names_keep fun names => .bind expect_skips fun _ => .pure fun _ listed => listed
  · exact .pure fun state listed => by simpa using listed

theorem blockArgument_lists (lists : nested.Lists start levels) :
    Ensures (Listed start before) (blockArgument nested) fun block =>
      Listed start (before ++ (Part.block block).flatMap (Part.marks levels)) := by
  refine .bind accept_skips fun opened => ?_
  split
  · refine .bind blockParameters_list fun names => .bind (bodyTail_lists lists names) fun body =>
      .pure fun state holds => ?_
    obtain ⟨listed, rfl⟩ := holds
    simpa [Part.block, Part.marks] using listed
  · exact .pure fun state listed => by simpa [Part.block] using listed

theorem callTail_lists (lists : nested.Lists start levels) (name : Token) :
    Ensures (Listed start (before ++ [.token name])) (callTail nested none name)
      (Shaped start before levels .expression (·.isPostfix = true)) := by
  refine .bind (callArguments_list lists) fun arguments => .bind (blockArgument_lists lists)
    fun block => .pure fun state listed => ⟨listed.close lists.within ?_ ?_, rfl⟩
  · simp [TreeNode.Fits, Expr.Ordered]
  · simp [TreeNode.parts, Expr.parts, Part.marks]

theorem superTail_lists (lists : nested.Lists start levels) (keyword : Token) :
    Ensures (Listed start (before ++ [.token keyword])) (superTail nested keyword)
      (Shaped start before levels .expression (·.isPostfix = true)) := by
  have tail (name : Option Token) : Ensures
      (Listed start (before ++ .token keyword :: name.toList.map .token))
      (callArguments nested >>= fun arguments => blockArgument nested >>= fun block =>
        Pure.pure (Expr.superCall keyword name arguments block))
      (Shaped start before levels .expression (·.isPostfix = true)) := by
    refine .bind (callArguments_list lists) fun arguments => .bind (blockArgument_lists lists)
      fun block => .pure fun state listed => ⟨listed.close lists.within trivial ?_, rfl⟩
    simp [TreeNode.parts, Expr.parts, Part.marks]
  refine .bind accept_skips fun dotted => ?_
  split
  · exact .bind expect_keeps fun name => by simpa using tail (some name)
  · exact tail none

theorem groupingTail_lists (lists : nested.Lists start levels) (left : Token) :
    Ensures (Listed start (before ++ [.token left])) (groupingTail nested left)
      (Shaped start before levels .expression (·.isPostfix = true)) := by
  refine .bind (expression_lists lists) fun value => .bind expect_keeps fun right =>
    .pure fun state listed => ⟨listed.close lists.within trivial ?_, rfl⟩
  simp [TreeNode.parts, Expr.parts, Part.marks]

theorem listTail_lists (lists : nested.Lists start levels) (left : Token) :
    Ensures (Listed start (before ++ [.token left])) (listTail nested left)
      (Shaped start before levels .expression (·.isPostfix = true)) := by
  refine .bind (elements_lists fun _ => expression_lists lists) fun values =>
    .bind expect_keeps fun right => .pure fun state listed =>
      ⟨listed.close lists.within trivial ?_, rfl⟩
  simp [TreeNode.parts, Expr.parts, Part.marks, List.flatMap_map]

theorem mapEntry_lists (lists : nested.Lists start levels) :
    Ensures (Listed start before) (mapEntry nested) fun entry =>
      Listed start (before ++ (Part.entry entry).flatMap (Part.marks levels)) := by
  refine .bind (expression_lists lists) fun key => .bind expect_skips fun _ =>
    .bind (expression_lists lists) fun value => .pure fun state listed => ?_
  simpa [Part.entry] using listed

theorem mapTail_lists (lists : nested.Lists start levels) (left : Token) :
    Ensures (Listed start (before ++ [.token left])) (mapTail nested left)
      (Shaped start before levels .expression (·.isPostfix = true)) := by
  refine .bind (elements_lists fun _ => mapEntry_lists lists) fun entries =>
    .bind expect_keeps fun right => .pure fun state listed =>
      ⟨listed.close lists.within trivial ?_, rfl⟩
  simp [TreeNode.parts, Expr.parts, Part.marks, List.flatMap_assoc]

theorem interpolation_lists (lists : nested.Lists start levels) :
    Ensures (Listed start before) (interpolation nested)
      (Shaped start before levels .expression (·.isPostfix = true)) := by
  have round (before : List (Mark Token)) : Ensures (Listed start before)
      (interpolationRound nested) fun ending => Listed start (before ++ ending.toList.flatMap
        fun part => (Part.segment part).flatMap (Part.marks levels)) := by
    refine .seen fun seen => .found (by decide) (fun _ => ?_) fun segment _ _ => ?_
    · exact .pure fun state sees => by simpa [Round.toList] using sees.1
    · refine .bind (expression_lists lists) fun value => .pure fun state listed => ?_
      simpa [Round.toList, Part.segment, Part.marks] using listed
  refine .bind (loop_lists round) fun parts => .bind expect_keeps fun last =>
    .pure fun state listed => ⟨listed.close lists.within trivial ?_, rfl⟩
  simp [TreeNode.parts, Expr.parts, Part.marks, List.flatMap_assoc]

theorem primary_lists (lists : nested.Lists start levels) :
    Ensures (Listed start before) (primary nested)
      (Shaped start before levels .expression (·.isPostfix = true)) := by
  refine .seen fun seen => .peeked ?_
  split
  case h_1 => exact .advanced (by decide) fun left _ => groupingTail_lists lists left
  case h_2 => exact .advanced (by decide) fun left _ => listTail_lists lists left
  case h_3 => exact .advanced (by decide) fun left _ => mapTail_lists lists left
  case h_4 => exact .advanced (by decide) fun name _ => callTail_lists lists name
  case h_5 => exact .advanced (by decide) fun keyword _ => superTail_lists lists keyword
  case h_8 =>
    intro state sees
    refine ⟨(sees.1.null sees.2).close lists.within trivial rfl, rfl⟩
  case h_14 => exact .unseen (interpolation_lists lists)
  case h_15 =>
    intro state sees
    have read := (lookahead_takes state).2
    simp only [bind_apply, pure_apply, complain_read read]
    exact ⟨sees.1.missing.close lists.within trivial rfl, rfl⟩
  all_goals
    refine .advanced (by decide) fun token _ => .pure fun state listed => ?_
    exact ⟨listed.close lists.within trivial rfl, rfl⟩

/-- A link is put on the expression that the links before it have made. -/
theorem link_lists (lists : nested.Lists start levels) (first : Expr Token)
    (done : List (Link Token)) :
    Ensures
      (Shaped start before levels .expression (·.isPostfix = true) (done.foldl Link.attach first))
      (link nested) fun ending => Shaped start before levels .expression (·.isPostfix = true)
        ((done ++ ending.toList).foldl Link.attach first) := by
  generalize same : done.foldl Link.attach first = receiver
  refine .known fun shape => .seen fun seen => ?_
  refine .found (by decide) (fun _ => ?_) fun left _ _ => ?_
  · refine .bind (.unseen accept_skips) fun dotted => ?_
    split
    · refine .bind expect_keeps fun name => .bind (callArguments_list lists) fun arguments =>
        .bind (blockArgument_lists lists) fun block => .pure fun state listed => ?_
      simp only [Round.toList, List.foldl_append, List.foldl_cons, List.foldl_nil, same,
        Link.attach]
      refine ⟨listed.close lists.within ?_ ?_, rfl⟩
      · simpa [TreeNode.Fits, Expr.Ordered] using shape
      · simp [TreeNode.parts, Expr.parts, Part.marks]
    · exact .pure fun state listed => by simpa [Round.toList, same] using ⟨listed, shape⟩
  · refine .bind (argumentList_lists lists) fun arguments => .bind expect_keeps fun right =>
      .pure fun state listed => ?_
    simp only [Round.toList, List.foldl_append, List.foldl_cons, List.foldl_nil, same, Link.attach]
    refine ⟨listed.close lists.within shape ?_, rfl⟩
    simp [TreeNode.parts, Expr.parts, Part.marks, List.flatMap_map]

theorem chain_lists (lists : nested.Lists start levels) :
    Ensures (Listed start before) (chain nested)
      (Shaped start before levels .expression (·.isPostfix = true)) :=
  .bind (primary_lists lists) fun first =>
    .bind (.loop _ (link_lists lists first) []) fun _ => .pure fun _ holds => holds

theorem operand_lists (lists : nested.Lists start levels) :
    Ensures (Listed start before) (operand nested)
      (Shaped start before levels .expression (·.isOperand = true)) := by
  refine .seen fun seen => .peeked ?_
  split
  · next negates =>
    have known : seen ≠ .error := by rintro rfl; contradiction
    refine .advanced known fun operator same => .bind (lists.operand _) fun value =>
      .pure fun state holds => ⟨holds.1.close lists.within ?_ ?_, rfl⟩
    · refine ⟨?_, holds.2⟩
      subst same
      simpa [TokenKind.isPrefixOperator, or_assoc] using negates
    · simp [TreeNode.parts, Expr.parts, Part.marks]
  · refine .unseen ((chain_lists lists).mono fun value state holds => ?_)
    exact ⟨holds.1, Expr.isOperand_of_isPostfix holds.2⟩

/-- Operands joined from the left. -/
def joined (first : Expr Token) (links : List (Token × Expr Token)) : Expr Token :=
  links.foldl (fun left (operator, right) => .infixOp left operator right) first

theorem joined_concat (first : Expr Token) (links : List (Token × Expr Token))
    (operator : Token) (right : Expr Token) :
    joined first (links ++ [(operator, right)]) = .infixOp (joined first links) operator right := by
  simp [joined]

/-- The operators of each level join what binds from the next level on. -/
theorem infixRound_lists {right : Parse Reel Token (Expr Token)} {operators : List TokenKind}
    {level : Nat} (within : levels ≤ Nested.limit)
    (here : TokenKind.infixLevels[level]? = some operators)
    (operand : ∀ before, Ensures (Listed start before) right
      (Shaped start before levels .expression (·.BindsFrom (level + 1))))
    (first : Expr Token) (done : List (Token × Expr Token)) :
    Ensures (Shaped start before levels .expression (·.BindsFrom level) (joined first done))
      (infixRound operators right) fun ending =>
        Shaped start before levels .expression (·.BindsFrom level)
          (joined first (done ++ ending.toList)) := by
  have known : .error ∉ operators := by
    have all : ∀ operators ∈ TokenKind.infixLevels, .error ∉ operators := by decide
    exact all operators (List.mem_of_getElem? here)
  refine .known fun binds => .seen fun seen =>
    .foundAny known (fun _ => ?_) fun operator joins _ => ?_
  · exact .pure fun state sees => by simpa [Round.toList] using ⟨sees.1, binds⟩
  · refine .bind skipNewlines_skips fun _ => .bind (operand _) fun value =>
      .pure fun state holds => ?_
    rw [Round.toList, joined_concat]
    refine ⟨holds.1.close within ⟨level, operators, here, joins, binds, holds.2⟩ ?_,
      .infixOp (Nat.le_refl level) here joins⟩
    simp [TreeNode.parts, Expr.parts, Part.marks]

theorem infixChain_lists (lists : nested.Lists start levels) (operators : List (List TokenKind))
    (level : Nat) (here : TokenKind.infixLevels.drop level = operators)
    (before : List (Mark Token)) :
    Ensures (Listed start before) (infixChain nested operators)
      (Shaped start before levels .expression (·.BindsFrom level)) := by
  induction operators generalizing level before with
  | nil =>
    refine (operand_lists lists).mono fun value state holds => ?_
    exact ⟨holds.1, .operand holds.2⟩
  | cons operators tighter ih =>
    have operand := ih (level + 1) (by rw [← List.drop_drop, here]; rfl)
    have listed : TokenKind.infixLevels[level]? = some operators := by
      rw [← List.head?_drop, here]
      rfl
    refine .bind ((operand before).mono fun value state holds => ?_) fun first =>
      .bind (.loop _ (infixRound_lists lists.within listed operand first) []) fun _ =>
        .pure fun _ holds => holds
    exact ⟨holds.1, holds.2.looser (Nat.le_succ level)⟩

/-- A conditional has taken an equal sign that follows it, unless there was a complaint. -/
theorem conditional_lists (lists : nested.Lists start levels) :
    Ensures (Listed start before) (conditional nested) fun value state =>
      Listed start (before ++ (TreeNode.expression value).marks levels) state ∧
        value.isAssignment = false ∧ (value.isConditional = true → state.Settled) := by
  refine .bind (infixChain_lists lists _ 0 rfl before) fun condition => .known fun binds =>
    .seen fun seen => .found (by decide) (fun _ => ?_) fun question _ _ => ?_
  · refine .pure fun state sees => ⟨sees.1, binds.plain.1, ?_⟩
    simp [binds.plain.2]
  · refine .bind (lists.conditional _) fun thenBranch => .known fun plain =>
      .bind expect_keeps fun colon => .bind (lists.expression _) fun elseBranch =>
        .pure fun state holds => ⟨holds.1.close lists.within ?_ ?_, rfl, fun _ => holds.2⟩
    · exact ⟨binds.plain.1, binds.plain.2, plain⟩
    · simp [TreeNode.parts, Expr.parts, Part.marks]

theorem assignment_lists [nested.Steps] (lists : nested.Lists start levels) :
    Ensures (Listed start before) (assignment nested) fun value state =>
      Listed start (before ++ (TreeNode.expression value).marks levels) state ∧ state.Settled := by
  refine .bind (conditional_lists lists) fun target => ?_
  intro state ⟨listed, plain, settled⟩
  rw [bind_apply, accept?_apply]
  split
  · next equal =>
    -- An equal sign can only be left after a conditional if something was wrong before.
    have noted : target.isConditional = true → state.problems ≠ [] := fun shape =>
      (settled shape).resolve_left fun other => other equal
    have known : (lookahead state).1.kind ≠ .error := fun wrong => by cases equal.symm.trans wrong
    obtain ⟨value, valueSettled⟩ := lists.expression _ _ (listed.take true known)
    obtain ⟨_, takes⟩ := takes nested.expression (advance state).2
    refine ⟨value.close lists.within ⟨plain, fun clean => ?_⟩ ?_, valueSettled⟩
    · refine Bool.eq_false_iff.2 fun shape => noted shape ?_
      rw [← advance_problems]
      exact List.prefix_nil.1 (clean ▸ takes.problems)
    · simp [TreeNode.parts, Expr.parts, Part.marks, Mark.kept]
  · next other =>
    refine ⟨listed.look, .inl ?_⟩
    change (lookahead (lookahead state).2).1.kind ≠ .equal
    rw [lookahead_again]
    exact other

theorem branch_lists (lists : nested.Lists start levels) :
    Ensures (Listed start before) nested.statement
      fun value => Listed start (before ++ (TreeNode.statement value).marks (levels + 1)) :=
  (lists.statement before).mono fun _ _ holds => holds.1

theorem ifTail_lists (lists : nested.Lists start levels) (keyword : Token) :
    Ensures (Listed start (before ++ [.token keyword])) (ifTail nested keyword)
      (Shaped start before levels .statement Stmt.Levelled) := by
  refine .bind expect_skips fun _ => .bind skipNewlines_skips fun _ =>
    .bind (expression_lists lists) fun condition => .bind expect_skips fun _ =>
      .bind (branch_lists lists) fun thenBranch => .bind accept_skips fun otherwise => ?_
  split
  · refine .bind (branch_lists lists) fun elseBranch => .pure fun state listed =>
      ⟨listed.close lists.within trivial ?_, rfl, rfl⟩
    simp [TreeNode.parts, Stmt.parts, Part.marks]
  · refine .pure fun state listed => ⟨listed.close lists.within trivial ?_, rfl, rfl⟩
    simp [TreeNode.parts, Stmt.parts, Part.marks]

theorem forTail_lists (lists : nested.Lists start levels) (keyword : Token) :
    Ensures (Listed start (before ++ [.token keyword])) (forTail nested keyword)
      (Shaped start before levels .statement Stmt.Levelled) := by
  refine .bind expect_skips fun _ => .bind expect_keeps fun loopVariable =>
    .bind expect_skips fun _ => .bind skipNewlines_skips fun _ =>
      .bind (expression_lists lists) fun iterator => .bind expect_skips fun _ =>
        .bind (branch_lists lists) fun body => .pure fun state listed =>
          ⟨listed.close lists.within trivial ?_, rfl, rfl⟩
  simp [TreeNode.parts, Stmt.parts, Part.marks]

theorem whileTail_lists (lists : nested.Lists start levels) (keyword : Token) :
    Ensures (Listed start (before ++ [.token keyword])) (whileTail nested keyword)
      (Shaped start before levels .statement Stmt.Levelled) := by
  refine .bind expect_skips fun _ => .bind skipNewlines_skips fun _ =>
    .bind (expression_lists lists) fun condition => .bind expect_skips fun _ =>
      .bind (branch_lists lists) fun body => .pure fun state listed =>
        ⟨listed.close lists.within trivial ?_, rfl, rfl⟩
  simp [TreeNode.parts, Stmt.parts, Part.marks]

theorem returnTail_lists (lists : nested.Lists start levels) (keyword : Token) :
    Ensures (Listed start (before ++ [.token keyword])) (returnTail nested keyword)
      (Shaped start before levels .statement Stmt.Levelled) := by
  refine .seen fun seen => .peeked ?_
  split
  case h_4 =>
    refine .bind (.unseen (expression_lists lists)) fun value => .pure fun state listed =>
      ⟨listed.close lists.within trivial ?_, rfl, rfl⟩
    simp [TreeNode.parts, Stmt.parts, Part.marks]
  all_goals
    refine .pure fun state sees => ⟨sees.1.close lists.within trivial ?_, rfl, rfl⟩
    simp [TreeNode.parts, Stmt.parts, Part.marks]

theorem blockRound_lists (lists : nested.Lists start levels) :
    Ensures (Listed start before) (blockRound nested) fun ending =>
      Listed start (before ++ ending.toList.flatMap fun value =>
        (Part.statement value).marks levels) := by
  refine .seen fun seen => .peeked ?_
  split
  · exact .pure fun state sees => by simpa [Round.toList] using sees.1
  refine .bind (.unseen (definition_lists lists)) fun value => .seen fun seen => .peeked ?_
  split
  · exact .pure fun state sees => by simpa [Round.toList] using sees.1
  · refine .bind (.unseen expectNewline_skips) fun _ => .pure fun state listed => ?_
    simpa [Round.toList] using listed

theorem blockTail_lists (lists : nested.Lists start levels) (left : Token) :
    Ensures (Listed start (before ++ [.token left])) (blockTail nested left)
      (Shaped start before levels .statement Stmt.Levelled) := by
  refine .bind skipNewlines_skips fun _ => .bind (loop_lists fun _ => blockRound_lists lists)
    fun values => .bind expect_keeps fun right => .pure fun state listed =>
      ⟨listed.close lists.within trivial ?_, rfl, rfl⟩
  simp [TreeNode.parts, Stmt.parts, Part.marks, List.flatMap_map]

/-- The one statement without a level of its own as an element is an expression, and that begins
with no keyword. -/
theorem statement_lists (lists : nested.Lists start levels) (seen : TokenKind) :
    Ensures (Sees start before seen) (statement nested)
      (Shaped start before levels .statement fun value =>
        Part.statement value = .nested (.statement value) ∧
          (seen ∈ Grammar.elementKeywords → Part.element value = .nested (.statement value))) := by
  have levelled {program : Parse Reel Token (Stmt Token)} {pre : ParserState Reel Token → Prop}
      (ensures : Ensures pre program (Shaped start before levels .statement Stmt.Levelled)) :
      Ensures pre program (Shaped start before levels .statement fun value =>
        Part.statement value = .nested (.statement value) ∧
          (seen ∈ Grammar.elementKeywords → Part.element value = .nested (.statement value))) :=
    ensures.mono fun value state holds => ⟨holds.1, holds.2.1, fun _ => holds.2.2⟩
  refine .found (by decide) (fun notBreak => ?_) fun keyword _ _ => ?_
  · refine .found (by decide) (fun notIf => ?_) fun keyword _ _ => levelled (ifTail_lists lists _)
    refine .found (by decide) (fun notFor => ?_) fun keyword _ _ => levelled (forTail_lists lists _)
    refine .found (by decide) (fun notWhile => ?_) fun keyword _ _ =>
      levelled (whileTail_lists lists _)
    refine .found (by decide) (fun notReturn => ?_) fun keyword _ _ =>
      levelled (returnTail_lists lists _)
    refine .found (by decide) (fun _ => ?_) fun left _ _ => levelled (blockTail_lists lists _)
    refine .bind (.unseen (expression_lists lists)) fun value => .pure fun state listed =>
      ⟨listed.close lists.within trivial ?_, rfl, fun keyword => ?_⟩
    · simp [TreeNode.parts, Stmt.parts]
    · simp [Grammar.elementKeywords, *] at keyword
  · refine levelled (.pure fun state listed => ⟨listed.close lists.within trivial ?_, rfl, rfl⟩)
    simp [TreeNode.parts, Stmt.parts, Part.marks]

/-- The parameters in brackets are dropped if others follow in parentheses. -/
theorem signature_lists : Ensures (Listed start before) signature fun signature state =>
    Listed start (before ++ [.token signature.name]) state ∧
      Listed start (before ++ .token signature.name :: (signature.parameters.getD []).map .token)
        state := by
  refine .seen fun seen => .found (by decide) (fun _ => .peeked ?_) fun left _ _ => ?_
  · split
    · next joins =>
      have known : seen ≠ .error := by rintro rfl; contradiction
      exact .advanced known fun operator _ => .pure fun state listed => ⟨listed, listed⟩
    · refine .foundAny (by decide) (fun _ => ?_) fun operator _ _ =>
        .pure fun state listed => ⟨listed, listed⟩
      exact .bind (.unseen expect_keeps) fun name => .pure fun state listed => ⟨listed, listed⟩
  · refine .bind (.both names_skip names_keep) fun names =>
      .bind (.and expect_skips expect_skips) fun _ => .pure fun state holds => ⟨holds.1, ?_⟩
    simpa using holds.2

theorem complain_lists : Ensures
    (fun state => Listed start before state ∧
      ∃ token, state.current = none ∧ state.previous = some token)
    (complain .parametersNotAllowed) fun _ => Listed start before := by
  rintro state ⟨listed, token, unread, previous⟩
  rw [complain_unread unread previous]
  exact listed.disallow unread previous

theorem methodParameters_list (signature : Signature Token) : Ensures
    (fun state => Listed start (before ++ [.token signature.name]) state ∧
      Listed start (before ++ .token signature.name :: (signature.parameters.getD []).map .token)
        state)
    (methodParameters signature) fun parameters =>
      Listed start (before ++ .token signature.name :: (parameters.getD []).map .token) := by
  have list : Ensures (Listed start (before ++ [.token signature.name]))
      (skipNewlines >>= fun _ => accept .rightParen >>= fun empty =>
        if empty then Pure.pure (some []) else parameterList >>= fun parameters =>
          skipNewlines >>= fun _ => expect .rightParen "')' after parameters" >>= fun _ =>
            Pure.pure (some parameters))
      fun parameters =>
        Listed start (before ++ .token signature.name :: (parameters.getD []).map .token) := by
    refine .bind skipNewlines_skips fun _ => .bind accept_skips fun empty => ?_
    split
    · exact .pure fun state listed => listed
    · refine .bind names_keep fun names => .bind skipNewlines_skips fun _ =>
        .bind expect_skips fun _ => .pure fun state listed => by simpa using listed
  refine .bind (.and accept_opens accept_skips) fun opened => ?_
  obtain ⟨name, known, takesList⟩ := signature
  cases opened with
  | false => exact .pure fun state holds => holds.2
  | true =>
    cases takesList with
    | true => exact fun state holds => list state holds.1.1
    | false =>
      intro state holds
      exact list _ (complain_lists state ⟨holds.1.1, holds.1.2 rfl⟩)

theorem method_lists (lists : nested.Lists start levels) :
    Ensures (Listed start before) (method nested)
      fun value => Listed start (before ++ (TreeNode.method value).marks levels) := by
  refine .bind accept?_lists fun foreign => .bind accept?_lists fun static =>
    .bind accept?_lists fun construct => .bind signature_lists fun signature =>
      .bind (methodParameters_list signature) fun parameters => ?_
  split
  · refine .pure fun state listed => listed.close lists.within trivial ?_
    simp [TreeNode.parts, Part.marks]
  · refine .bind expect_skips fun _ => .bind (bodyTail_lists lists parameters) fun body =>
      .pure fun state holds => holds.1.close lists.within trivial ?_
    simp [TreeNode.parts, Part.marks]

theorem superclass_lists : Ensures (Listed start before) superclass
    fun name => Listed start (before ++ name.toList.map .token) := by
  refine .bind accept_skips fun named => ?_
  split
  · exact .bind expect_keeps fun name => .pure fun state listed => listed
  · exact .pure fun state listed => by simpa using listed

theorem methodsRound_lists (lists : nested.Lists start levels) :
    Ensures (Listed start before) (methodsRound nested) fun ending =>
      Listed start (before ++ ending.toList.flatMap fun value =>
        (TreeNode.method value).marks levels) := by
  refine .bind accept_skips fun closed => ?_
  split
  · exact .pure fun state listed => by simpa [Round.toList] using listed
  refine .seen fun seen => .peeked ?_
  split
  · refine .bind (.unseen expect_skips) fun _ => .pure fun state listed => ?_
    simpa [Round.toList] using listed
  refine .bind (.unseen (method_lists lists)) fun value => .bind accept_skips fun closed => ?_
  split
  · exact .pure fun state listed => by simpa [Round.toList] using listed
  · refine .bind expectNewline_skips fun _ => .pure fun state listed => ?_
    simpa [Round.toList] using listed

theorem classTail_lists (lists : nested.Lists start levels) (foreign : Option Token)
    (keyword : Token) :
    Ensures (Listed start (before ++ foreign.toList.map .token ++ [.token keyword]))
      (classTail nested foreign keyword) (Shaped start before levels .statement fun value =>
        Part.statement value = .nested (.statement value)) := by
  refine .bind expect_keeps fun name => .bind superclass_lists fun superclass =>
    .bind expect_skips fun _ => .bind skipNewlines_skips fun _ =>
      .bind (loop_lists fun _ => methodsRound_lists lists) fun methods =>
        .pure fun state listed => ⟨listed.close lists.within trivial ?_, rfl⟩
  simp [TreeNode.parts, Stmt.parts, Part.marks, List.flatMap_assoc, List.map_eq_flatMap]

theorem refuse_lists : Ensures (Listed start before) refuse fun value state =>
    Listed start (before ++ (TreeNode.expression value).marks (Nested.limit + 1)) state ∧
      Listed start (before ++ (TreeNode.statement (.expression value)).marks (Nested.limit + 1))
        state ∧ value.isPostfix = true ∧ state.problems ≠ [] := by
  intro state listed
  have read := (lookahead_takes state).2
  simp only [refuse, bind_apply, pure_apply, complain_read read]
  exact ⟨listed.refuse (.inl rfl), listed.refuse (.inr rfl), rfl, by simp [ParserState.noting]⟩

theorem Ensures.deeper {α : Type} {rule : Parse Reel Token α} {pre : ParserState Reel Token → Prop}
    {post : α → ParserState Reel Token → Prop} (ensures : Ensures pre rule post)
    (enters : ∀ state depth, pre state → pre { state with depth })
    (leaves : ∀ value state depth, post value state → post value { state with depth }) :
    Ensures pre (deeper rule) post :=
  fun state holds => leaves _ _ _ (ensures _ (enters state _ holds))

theorem lookahead_shift (state : ParserState Reel Token) (depth : Nat) :
    (lookahead { state with depth }).1 = (lookahead state).1 := by
  unfold lookahead
  cases state.current <;> rfl

theorem Sees.shift {seen : TokenKind} {state : ParserState Reel Token} (depth : Nat)
    (sees : Sees start before seen state) : Sees start before seen { state with depth } := by
  refine ⟨sees.1.shift depth, ?_⟩
  rw [lookahead_shift]
  exact sees.2

end Rules
end Parse

theorem ParserState.Settled.shift {state : ParserState Reel Token} (depth : Nat)
    (settled : state.Settled) : { state with depth }.Settled := by
  rw [ParserState.Settled, Parse.lookahead_shift]
  exact settled

namespace Nested
open Parse
variable {start : ParserState Reel Token}

/-- Where no level is left, what is refused stands one level too deep. -/
theorem refused_lists : (refused : Nested Reel Token).Lists start limit where
  within := Nat.le_refl limit
  expression _ := refuse_lists.mono fun _ _ holds => ⟨holds.1, .inr holds.2.2.2⟩
  conditional _ := refuse_lists.mono fun value _ holds => ⟨holds.1, by
    cases value <;> simp_all [Expr.isPostfix, Expr.isAssignment]⟩
  operand _ := refuse_lists.mono fun _ _ holds =>
    ⟨holds.1, Expr.isOperand_of_isPostfix holds.2.2.1⟩
  statement _ := .map (refuse_lists.mono fun _ _ holds => ⟨holds.2.1, rfl⟩)
  element _ _ _ := .map (.unseen (refuse_lists.mono fun value _ holds =>
    holds.1.close (Nat.le_refl limit) trivial (by simp [TreeNode.parts, Stmt.parts, Part.marks])))
  classTail _ _ _ := .map fun state holds => (refuse_lists state holds.1).2.1

theorem around_lists {nested : Nested Reel Token} [nested.Steps] {levels : Nat}
    (lists : nested.Lists start (levels + 1)) : nested.around.Lists start levels where
  within := Nat.le_of_succ_le lists.within
  expression _ := .deeper (assignment_lists lists) (fun _ depth listed => listed.shift depth)
    fun _ _ depth holds => ⟨holds.1.shift depth, holds.2.shift depth⟩
  conditional _ := .deeper ((conditional_lists lists).mono fun _ _ holds => ⟨holds.1, holds.2.1⟩)
    (fun _ depth listed => listed.shift depth)
    fun _ _ depth holds => ⟨holds.1.shift depth, holds.2⟩
  operand _ := .deeper (operand_lists lists) (fun _ depth listed => listed.shift depth)
    fun _ _ depth holds => ⟨holds.1.shift depth, holds.2⟩
  statement _ := .seen fun seen => .deeper
    ((statement_lists lists seen).mono fun _ _ holds => ⟨holds.1, holds.2.1⟩)
    (fun _ depth sees => sees.shift depth) fun _ _ depth holds => ⟨holds.1.shift depth, holds.2⟩
  element _ seen keyword := .deeper ((statement_lists lists seen).mono fun value _ holds => by
      rw [holds.2.2 keyword]
      exact holds.1)
    (fun _ depth sees => sees.shift depth) fun _ _ depth listed => listed.shift depth
  classTail _ foreign keyword := .deeper (fun state holds => by
      obtain ⟨listed, plain⟩ := classTail_lists lists foreign keyword state holds.2
      rw [plain]
      exact listed)
    (fun _ depth holds => ⟨holds.1.shift depth, holds.2.shift depth⟩)
    fun _ _ depth listed => listed.shift depth

theorem within_lists (left levels : Nat) (all : left + levels = limit) :
    (Nested.within left : Nested Reel Token).Lists start levels := by
  induction left generalizing levels with
  | zero =>
    obtain rfl : levels = limit := by omega
    exact refused_lists
  | succ left ih => exact around_lists (ih (levels + 1) (by omega))

end Nested

namespace Parse
variable {start : ParserState Reel Token} {before : List (Mark Token)} {nested : Nested Reel Token}
  {levels : Nat}

theorem moduleRound_lists (lists : nested.Lists start levels) :
    Ensures (Listed start before) (moduleRound nested) fun ending =>
      Listed start (before ++ ending.toList.flatMap fun value =>
        (Part.statement value).marks levels) := by
  refine .seen fun seen => .peeked ?_
  split
  · exact .pure fun state sees => by simpa [Round.toList] using sees.1
  refine .bind (.unseen (definition_lists lists)) fun value => .seen fun seen => .peeked ?_
  split
  · exact .pure fun state sees => by simpa [Round.toList] using sees.1
  · refine .bind (.unseen expectNewline_skips) fun _ => .pure fun state listed => ?_
    simpa [Round.toList] using listed

/-- The whole tree is listed in the end. -/
theorem module_lists (start : ParserState Reel Token) (outside : start.depth = 0) :
    Listed start ((TreeNode.script (Parse.module start).1).marks 0) (Parse.module start).2 := by
  have lists : (Nested.within Nested.limit).Lists start 0 := Nested.within_lists _ _ rfl
  have ensures : Ensures (Listed start [])
      (skipNewlines >>= fun _ =>
        loop (moduleRound (Nested.within Nested.limit)) >>= fun statements =>
          expect .eof "end of input" >>= fun _ => Pure.pure (Module.mk statements))
      fun module => Listed start ([] ++ (TreeNode.script module).marks 0) := by
    refine .bind skipNewlines_skips fun _ => .bind (loop_lists fun _ => moduleRound_lists lists)
      fun statements => .bind expect_skips fun _ => .pure fun state listed =>
        listed.close lists.within trivial ?_
    simp [TreeNode.parts, List.flatMap_map]
  have same : Parse.module start = (skipNewlines >>= fun _ =>
      loop (moduleRound (Nested.within Nested.limit)) >>= fun statements =>
        expect .eof "end of input" >>= fun _ => Pure.pure (Module.mk statements)) start := by
    rw [Parse.module, bind_apply, get_apply, outside]
    rfl
  rw [same]
  exact ensures start .start

end Parse

/-- Every tree is listed from the tokens of its source, read in advance. -/
theorem Source.parse_lists (source : Source) : ∃ state,
    Listed (ParserState.ofFeed source.reel) ((TreeNode.script source.parse.module).marks 0) state ∧
      state.problems = source.parse.problems := by
  obtain ⟨module, problems⟩ := source.parse_reel
  rw [module, problems]
  exact ⟨_, Parse.module_lists _ (ParserState.ofFeed_takes _).depth, rfl⟩

end WrenFront
