import WrenFront.Proofs.DumpForms
import WrenFront.Proofs.LegibleStatements
import WrenFront.Proofs.RuleShapes
import WrenFront.Proofs.ScriptJoining
import WrenFront.Proofs.TokenOrder

/-! A dump of a clean tree shows all that it is meant to show. Every node of the tree can be read
back from its form, since the tokens are what the grammar asks for and are spelled so; hence two
clean scripts have the same dump only if the same is shown of their trees. -/

namespace WrenFront

variable {source : Source}

namespace TreeNode

/-- A node of a clean tree: its shape, and what its tokens are. -/
structure Proper (source : Source) (node : TreeNode Token) : Prop where
  shaped : node.Shaped
  spelled : node.Spelled
  tokens : ∀ token, .token token ∈ node.parts ∨ .null token ∈ node.parts →
    token.kind.Spells (token.text source)

/-- What is shown of a node can be read back. The parameters of a body stand before it. -/
def Legible (source : Source) : TreeNode Token → Prop
  | .script module => ∀ statement ∈ module.statements, (statement.shown (·.text source)).Legible
  | .statement value => (value.shown (·.text source)).Legible
  | .method value => (value.shown (·.text source)).Legible
  | .body value => (∀ token ∈ value.parameters.getD [], token.kind.Spells (token.text source)) →
      (value.shown (·.text source)).Legible
  | .expression value => (value.shown (·.text source)).Legible

end TreeNode

/-- A statement among others is a node, one level further in or not. -/
theorem Part.statement_child {value : Stmt Token} {parts : List (Part Token)}
    (part : Part.statement value ∈ parts) :
    .node (.statement value) ∈ parts ∨ .nested (.statement value) ∈ parts := by
  cases value <;> first | exact .inr part | exact .inl part

theorem Part.element_child {value : Stmt Token} {parts : List (Part Token)}
    (part : Part.element value ∈ parts) :
    .node (.statement value) ∈ parts ∨ .nested (.statement value) ∈ parts := by
  cases value <;> first | exact .inr part | exact .inl part

section Steps

theorem Expr.legible_step {expression : Expr Token}
    (proper : (TreeNode.expression expression).Proper source)
    (children : ∀ child, .node child ∈ expression.parts ∨ .nested child ∈ expression.parts →
      child.Legible source) : (expression.shown (·.text source)).Legible := by
  have shaped : expression.Shaped := proper.shaped
  have spelled : expression.Spelled := proper.spelled
  have tokens : ∀ token, .token token ∈ expression.parts ∨ .null token ∈ expression.parts →
      token.kind.Spells (token.text source) := proper.tokens
  have spells {kind : TokenKind} {token : Token} (same : token.kind = kind)
      (part : .token token ∈ expression.parts ∨ .null token ∈ expression.parts) :
      kind.Spells (token.text source) := same ▸ tokens token part
  have inner {value : Expr Token} (part : .nested (.expression value) ∈ expression.parts) :
      (value.shown (·.text source)).Legible := children (.expression value) (.inr part)
  have beside {value : Expr Token} (part : .node (.expression value) ∈ expression.parts) :
      (value.shown (·.text source)).Legible := children (.expression value) (.inl part)
  have held {body : Body Token}
      (part : ∀ inside ∈ Part.block (some body), inside ∈ expression.parts) :
      (body.shown (·.text source)).Legible :=
    children (.body body) (.inl (part _ (by simp [Part.block]))) fun token member =>
      tokens token (.inl (part _ (by simpa [Part.block] using member)))
  cases expression with
  | list leftBracket elements rightBracket =>
    rw [Expr.shown, shownExprs_eq_map]
    exact .list (List.forall_mem_map.2 fun element member => inner (by simp [Expr.parts, member]))
  | map leftBrace entries rightBrace =>
    rw [Expr.shown, shownEntries_eq_map]
    refine .map fun key value member => ?_
    obtain ⟨⟨left, right⟩, inside, same⟩ := List.mem_map.1 member
    obtain ⟨rfl, rfl⟩ := MapEntry.mk.inj same
    have parts : ∀ part ∈ Part.entry (.mk left right),
        part ∈ (Expr.map leftBrace entries rightBrace).parts := fun part found =>
      List.mem_append_left _ (List.mem_cons_of_mem _ (List.mem_flatMap.2 ⟨_, inside, found⟩))
    exact ⟨inner (parts _ (by simp [Part.entry])), inner (parts _ (by simp [Part.entry]))⟩
  | grouping leftParen value rightParen => exact .grouping (inner (by simp [Expr.parts]))
  | this token =>
    have spelled := spells shaped (by simp [Expr.parts])
    exact .leaf rfl (by decide) spelled spelled.ofWord_this
  | null token =>
    have spelled := spells spelled (by simp [Expr.parts])
    exact .leaf rfl (by decide) spelled spelled.ofWord_null
  | bool token =>
    have spelled := tokens token (by simp [Expr.parts])
    refine .leaf rfl ?_ spelled (spelled.ofWord_bool shaped)
    rcases shaped with kind | kind <;> rw [kind] <;> decide
  | number token =>
    have spelled := spells shaped (by simp [Expr.parts])
    exact .leaf rfl (by decide) spelled spelled.ofWord_number
  | string token => exact .string (spells shaped (by simp [Expr.parts]))
  | field token =>
    have spelled := spells shaped (by simp [Expr.parts])
    exact .leaf rfl (by decide) spelled spelled.ofWord_field
  | staticField token =>
    have spelled := spells shaped (by simp [Expr.parts])
    exact .leaf rfl (by decide) spelled spelled.ofWord_staticField
  | assignment target equal value =>
    exact .assignment (beside (by simp [Expr.parts])) (inner (by simp [Expr.parts]))
  | conditional condition question thenBranch colon elseBranch =>
    exact .conditional (beside (by simp [Expr.parts])) (inner (by simp [Expr.parts]))
      (inner (by simp [Expr.parts]))
  | infixOp left operator right =>
    have known := Sexp.mem_operators (.inl spelled) (tokens operator (by simp [Expr.parts]))
    exact .infixOp known (beside (by simp [Expr.parts])) (beside (by simp [Expr.parts]))
  | prefixOp operator operand =>
    have known := Sexp.mem_operators (.inr spelled) (tokens operator (by simp [Expr.parts]))
    exact .prefixOp known (inner (by simp [Expr.parts]))
  | call receiver name arguments block =>
    have named := spells spelled (by simp [Expr.parts])
    by_cases bare : receiver = none ∧ arguments = none ∧ block = none
    · obtain ⟨rfl, rfl, rfl⟩ := bare
      exact .leaf rfl (by decide) named named.ofWord_name
    have given : ∀ list ∈ arguments, ∀ argument ∈ list,
        (argument.shown (·.text source)).Legible := by
      rintro list ⟨⟩ argument member
      exact inner (by simp [Expr.parts, member])
    have bodied : ∀ body ∈ block, (body.shown (·.text source)).Legible := by
      rintro body ⟨⟩
      exact held fun part member => List.mem_append_right _ member
    rw [Expr.shown_call name bare, shownArguments_eq_map, shownBlock_eq_map]
    refine .call named ?_ (by simpa using given) (by simpa using bodied)
    cases receiver with
    | none => exact Expr.Legible.underscore
    | some value => exact beside (by simp [Expr.parts])
  | superCall keyword name arguments block =>
    have given : ∀ list ∈ arguments, ∀ argument ∈ list,
        (argument.shown (·.text source)).Legible := by
      rintro list ⟨⟩ argument member
      exact inner (by simp [Expr.parts, member])
    have bodied : ∀ body ∈ block, (body.shown (·.text source)).Legible := by
      rintro body ⟨⟩
      exact held fun part member => List.mem_append_right _ member
    have named : ∀ token ∈ name, TokenKind.name.Spells (token.text source) := by
      rintro token ⟨⟩
      exact spells (spelled token rfl) (by simp [Expr.parts])
    rw [Expr.shown, shownArguments_eq_map, shownBlock_eq_map]
    exact .superCall (by simpa using named) (by simpa using given) (by simpa using bodied)
  | subscript receiver leftBracket arguments rightBracket =>
    rw [Expr.shown, shownExprs_eq_map]
    exact .subscript (beside (by simp [Expr.parts])) (mt List.map_eq_nil_iff.1 shaped)
      (List.forall_mem_map.2 fun argument member => inner (by simp [Expr.parts, member]))
  | interpolation rows last =>
    rw [Expr.shown, shownParts_eq_map]
    have ends : last.kind = .string := spelled
    refine .interpolation (fun segment value member => ?_) (spells ends (by simp [Expr.parts]))
    obtain ⟨⟨token, expression⟩, inside, same⟩ := List.mem_map.1 member
    obtain ⟨rfl, rfl⟩ := InterpolationPart.mk.inj same
    have parts : ∀ part ∈ Part.segment (.mk token expression),
        part ∈ (Expr.interpolation rows last).parts := fun part found =>
      List.mem_append_left _ (List.mem_flatMap.2 ⟨_, inside, found⟩)
    have kind : token.kind = .interpolation := by
      refine shaped.2.2 token ?_
      simpa [InterpolationPart.strings] using ⟨_, inside, rfl⟩
    exact ⟨spells kind (.inl (parts _ (by simp [Part.segment]))),
      inner (parts _ (by simp [Part.segment]))⟩

theorem Stmt.legible_step {statement : Stmt Token}
    (proper : (TreeNode.statement statement).Proper source)
    (children : ∀ child, .node child ∈ statement.parts ∨ .nested child ∈ statement.parts →
      child.Legible source) : (statement.shown (·.text source)).Legible := by
  have spelled : statement.Spelled := proper.spelled
  have named {token : Token} (kind : token.kind = .name) (part : .token token ∈ statement.parts) :
      TokenKind.name.Spells (token.text source) := kind ▸ proper.tokens token (.inl part)
  have inner {value : Expr Token} (part : .nested (.expression value) ∈ statement.parts) :
      (value.shown (·.text source)).Legible := children (.expression value) (.inr part)
  have branch {value : Stmt Token} (part : .nested (.statement value) ∈ statement.parts) :
      (value.shown (·.text source)).Legible := children (.statement value) (.inr part)
  cases statement with
  | classDef foreign keyword name superclass methods =>
    have inherits : ∀ token ∈ superclass, TokenKind.name.Spells (token.text source) := by
      rintro token ⟨⟩
      exact named (spelled token (by simp)) (by simp [Stmt.parts])
    have held : ∀ method ∈ methods, (method.shown (·.text source)).Legible :=
      fun method member => children (.method method) (.inl (by simp [Stmt.parts, member]))
    rw [Stmt.shown, shownMethods_eq_map]
    exact .classDef (by cases foreign <;> simp)
      (named (spelled name (by simp)) (by simp [Stmt.parts])) (by simpa using inherits)
      (List.forall_mem_map.2 held)
  | importDef keyword path imported =>
    have segment : TokenKind.string.Spells (path.text source) :=
      spelled.1 ▸ proper.tokens path (.inl (by simp [TreeNode.parts, Stmt.parts]))
    have names : ∀ tokens ∈ imported, ∀ token ∈ tokens,
        TokenKind.name.Spells (token.text source) := by
      rintro tokens ⟨⟩ token member
      exact named (spelled.2 token member) (by simp [Stmt.parts, member])
    exact .importDef segment (by simpa using names)
  | varDef keyword name initializer =>
    have given : ∀ value ∈ initializer, (value.shown (·.text source)).Legible := by
      rintro value ⟨⟩
      exact inner (by simp [Stmt.parts])
    rw [Stmt.shown, shownExpr?_eq_map]
    exact .varDef (named spelled (by simp [Stmt.parts])) (by simpa using given)
  | ifElse keyword condition thenBranch elseBranch =>
    have other : ∀ value ∈ elseBranch, (value.shown (·.text source)).Legible := by
      rintro value ⟨⟩
      exact branch (by simp [Stmt.parts])
    rw [Stmt.shown, shownStmt?_eq_map]
    exact .ifElse (inner (by simp [Stmt.parts])) (branch (by simp [Stmt.parts]))
      (by simpa using other)
  | forIn keyword loopVariable iterator body =>
    exact .forIn (named spelled (by simp [Stmt.parts])) (inner (by simp [Stmt.parts]))
      (branch (by simp [Stmt.parts]))
  | whileDo keyword condition body =>
    exact .whileDo (inner (by simp [Stmt.parts])) (branch (by simp [Stmt.parts]))
  | returnValue keyword value =>
    have given : ∀ given ∈ value, (given.shown (·.text source)).Legible := by
      rintro given ⟨⟩
      exact inner (by simp [Stmt.parts])
    rw [Stmt.shown, shownExpr?_eq_map]
    exact .returnValue (by simpa using given)
  | breakLoop keyword => exact .breakLoop
  | block leftBrace statements rightBrace =>
    rw [Stmt.shown, shownStmts_eq_map]
    exact .block (List.forall_mem_map.2 fun value member =>
      children (.statement value) (Part.statement_child
        (List.mem_append_left _ (List.mem_cons_of_mem _ (List.mem_map_of_mem member)))))
  | expression value => exact .expression (inner (by simp [Stmt.parts]))

theorem Body.legible_step {body : Body Token} (proper : (TreeNode.body body).Proper source)
    (children : ∀ child, .node child ∈ (TreeNode.body body).parts ∨
      .nested child ∈ (TreeNode.body body).parts → child.Legible source)
    (spells : ∀ token ∈ body.parameters.getD [], token.kind.Spells (token.text source)) :
    (body.shown (·.text source)).Legible := by
  have named : ∀ token ∈ body.parameters.getD [], TokenKind.name.Spells (token.text source) :=
    fun token member => proper.spelled token member ▸ spells token member
  have names {parameters : Option (List Token)}
      (named : ∀ token ∈ parameters.getD [], TokenKind.name.Spells (token.text source)) :
      ∀ name ∈ (parameters.map (·.map (·.text source))).getD [], TokenKind.name.Spells name := by
    cases parameters with
    | none => simp
    | some tokens => simpa using named
  cases body with
  | single parameters element =>
    have held := children (.statement element) (Part.element_child (by simp [TreeNode.parts]))
    have isElement : (element.shown (·.text source)).isElement := by
      have isElement : element.isElement := proper.shaped
      cases element <;> first | rfl | cases isElement
    exact Body.legible_single isElement (names named) held
  | sequence parameters statements =>
    rw [Body.shown, shownStmts_eq_map]
    exact Body.legible_sequence (names named) (List.forall_mem_map.2 fun statement member =>
      children (.statement statement) (Part.statement_child (List.mem_map_of_mem member)))

theorem Method.legible_step {method : Method Token}
    (proper : (TreeNode.method method).Proper source)
    (children : ∀ child, .node child ∈ (TreeNode.method method).parts ∨
      .nested child ∈ (TreeNode.method method).parts → child.Legible source) :
    (method.shown (·.text source)).Legible := by
  cases method with
  | mk foreign static construct name parameters body =>
    obtain ⟨⟨bodied, same⟩, ⟨first, second, third, front, names⟩, tokens⟩ := proper
    have spells {kind : TokenKind} {token : Token} (same : token.kind = kind)
        (part : token ∈ Method.announced foreign static construct name ++ parameters.getD []) :
        kind.Spells (token.text source) := by
      refine same ▸ tokens token (.inl ?_)
      simpa [TreeNode.parts, Method.announced, or_assoc] using part
    have keyword {kind : TokenKind} {given : Option Token}
        (same : ∀ token ∈ given, token.kind = kind)
        (inside : ∀ token ∈ given, token ∈ Method.announced foreign static construct name) :
        ∀ word ∈ given.map (·.text source), kind.Spells word := by
      intro word member
      obtain ⟨token, isGiven, rfl⟩ := Option.map_eq_some_iff.1 member
      exact spells (same token isGiven) (List.mem_append_left _ (inside token isGiven))
    have parameter : ∀ token ∈ parameters.getD [], TokenKind.name.Spells (token.text source) :=
      fun token member => spells (names token member) (List.mem_append_right _ member)
    have held : ∀ content ∈ body, (content.shown (·.text source)).Legible := by
      rintro content ⟨⟩
      refine children (.body content) (.inl (by simp [TreeNode.parts])) ?_
      rw [same content rfl]
      exact fun token member => names token member ▸ parameter token member
    rw [Method.shown, shownBlock_eq_map]
    refine Method.legible_intro (keyword first (by simp +contextual [Method.announced]))
      (keyword second (by simp +contextual [Method.announced]))
      (keyword third (by simp +contextual [Method.announced])) front
      (spells rfl (by simp [Method.announced])) ?_ (by simpa using held) ?_
    · cases parameters with
      | none => simp
      | some tokens => simpa using parameter
    · cases foreign <;> cases body <;> simp at bodied ⊢

end Steps

namespace TreeNode

theorem legible_step {node : TreeNode Token} (proper : node.Proper source)
    (children : ∀ child, .node child ∈ node.parts ∨ .nested child ∈ node.parts →
      child.Legible source) : node.Legible source := by
  cases node with
  | script module =>
    exact fun statement member =>
      children (.statement statement) (Part.statement_child (List.mem_map_of_mem member))
  | statement value => exact Stmt.legible_step proper children
  | method value => exact Method.legible_step proper children
  | body value => exact Body.legible_step proper children
  | expression value => exact Expr.legible_step proper children

theorem legible_of_paths {node : TreeNode Token}
    (proper : ∀ levels last, node.Path levels last → last.Proper source) : node.Legible source := by
  induction node using TreeNode.induction with
  | step node ih =>
    refine legible_step (proper 0 node .here) fun child inside => ih child inside ?_
    intro levels last path
    rcases inside with part | part
    · exact proper levels last (.beside part path)
    · exact proper (levels + 1) last (.further part path)

/-- The tokens of the nodes in a tree are in its listing. -/
theorem Path.lists {node last : TreeNode Token} {levels : Nat} {token : Token}
    (path : node.Path levels last) (part : .token token ∈ last.parts ∨ .null token ∈ last.parts)
    (base : Nat) : ∃ mark ∈ node.marks base, mark.token? = some token := by
  have listed {node : TreeNode Token} {base : Nat} {part : Part Token} {mark : Mark Token}
      (inside : part ∈ node.parts) (member : mark ∈ part.marks base) : mark ∈ node.marks base := by
    rw [TreeNode.marks_eq]
    exact List.mem_append_left _ (List.mem_flatMap.2 ⟨part, inside, member⟩)
  induction path generalizing base with
  | here =>
    rcases part with part | part
    · exact ⟨.token token, listed part List.mem_cons_self, rfl⟩
    · exact ⟨.null token, listed part List.mem_cons_self, rfl⟩
  | beside inside _ ih =>
    obtain ⟨mark, member, same⟩ := ih part base
    exact ⟨mark, listed inside member, same⟩
  | further inside _ ih =>
    obtain ⟨mark, member, same⟩ := ih part (base + 1)
    exact ⟨mark, listed inside member, same⟩

end TreeNode

namespace Source

theorem parse_proper (clean : source.parse.isClean) {levels : Nat} {node : TreeNode Token}
    (path : (TreeNode.script source.parse.module).Path levels node) : node.Proper source := by
  rw [Parsed.isClean, Bool.and_eq_true, List.isEmpty_iff, List.isEmpty_iff] at clean
  obtain ⟨problems, lexical⟩ := clean
  obtain ⟨shaped, spelled⟩ := source.parse_built levels node path
  refine ⟨shaped, spelled problems, fun token part => ?_⟩
  obtain ⟨state, listed, -⟩ := source.parse_lists
  obtain ⟨reads, upTo, -⟩ := listed.upTo
  obtain ⟨mark, member, same⟩ := path.lists part 0
  obtain ⟨read, -, rfl⟩ := upTo.seen token (List.mem_filterMap.2 ⟨mark, member, same⟩)
  rw [parse_lexicalErrors] at lexical
  exact Lexer.readAll_spells (Lexer.ofSource_placed source) lexical _ (source.token_mem read)

/-- The forms of a clean script, one on each line. -/
theorem dump_clean (clean : source.parse.isClean) :
    source.parse.module.dump source = "\n".intercalate
      (((source.parse.module.shown (·.text source)).statements.map Stmt.sexp).map Sexp.text) := by
  have written : (TreeNode.script source.parse.module).Written source :=
    TreeNode.written_of_nulls fun levels token path => (parse_proper clean path).spelled
  rw [Module.dump, Module.shown, List.map_map, List.map_map]
  exact congrArg _ (List.map_congr_left written)

/-- Two clean scripts have the same dump exactly if the same is shown of their trees. -/
theorem dump_faithful {first second : Source} (firstClean : first.parse.isClean)
    (secondClean : second.parse.isClean) :
    first.parse.module.dump first = second.parse.module.dump second ↔
      first.parse.module.shown (·.text first) = second.parse.module.shown (·.text second) := by
  have legible {source : Source} (clean : source.parse.isClean) :
      ∀ statement ∈ (source.parse.module.shown (·.text source)).statements, statement.Legible :=
    List.forall_mem_map.2 (TreeNode.legible_of_paths fun _ _ path => parse_proper clean path :
      (TreeNode.script source.parse.module).Legible source)
  rw [dump_clean firstClean, dump_clean secondClean]
  constructor
  · intro same
    have forms := Sexp.lines_unique
      (List.forall_mem_map.2 fun statement member => (legible firstClean statement member).fits)
      (List.forall_mem_map.2 fun statement member => (legible secondClean statement member).fits)
      same
    have read := congrArg (List.map Sexp.toStmt) forms
    rw [Sexp.map_read fun statement member => (legible firstClean statement member).read,
      Sexp.map_read fun statement member => (legible secondClean statement member).read] at read
    exact congrArg Module.mk read
  · intro same
    rw [same]

/-- A call on nothing, with a string that holds what also divides the forms. -/
def bareCall : Source where
  id := "bare"
  bytes := Text.Utf8.encode "f(\") (%(a) \\\"\", 1)\n"

def underscoreCall : Source where
  id := "underscore"
  bytes := Text.Utf8.encode "_ . f( \") (%( a ) \\\"\" , 1 )"

theorem underscoreCall_shown : bareCall.parse.isClean ∧ underscoreCall.parse.isClean ∧
    bareCall.parse.module.dump bareCall = underscoreCall.parse.module.dump underscoreCall ∧
      bareCall.parse.module.shown (·.text bareCall) =
        underscoreCall.parse.module.shown (·.text underscoreCall) := by
  have bare : bareCall.parse.isClean := by decide +kernel
  have underscore : underscoreCall.parse.isClean := by decide +kernel
  have same : bareCall.parse.module.dump bareCall =
      underscoreCall.parse.module.dump underscoreCall := by decide +kernel
  exact ⟨bare, underscore, same, (dump_faithful bare underscore).1 same⟩

end Source
end WrenFront
