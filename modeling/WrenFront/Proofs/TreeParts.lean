import WrenFront.Tree

/-! A tree as it is read. Every node is a row of parts, tokens and further nodes, in the order they
are written, and some of the nodes are one level of nesting further in. The paths through a tree and
its listing both follow the rows. -/

namespace WrenFront

variable {τ : Type}

inductive TreeNode (τ : Type) where
  | script (module : Module τ)
  | statement (statement : Stmt τ)
  | method (method : Method τ)
  | body (body : Body τ)
  | expression (expression : Expr τ)

inductive Part (τ : Type) where
  | token (token : τ)
  /-- The token of a `null`, which may only have been seen. -/
  | null (token : τ)
  | node (node : TreeNode τ)
  /-- A node that is one level further in. -/
  | nested (node : TreeNode τ)

namespace Part

@[simp]
def expression (expression : Expr τ) : Part τ :=
  .nested (.expression expression)

/-- A statement among others. Imports and variables take no level of their own. -/
def statement : Stmt τ → Part τ
  | .importDef keyword path imported => .node (.statement (.importDef keyword path imported))
  | .varDef keyword name initializer => .node (.statement (.varDef keyword name initializer))
  | statement => .nested (.statement statement)

/-- The one element of a body. If it is an expression it takes the level of the expression only. -/
def element : Stmt τ → Part τ
  | .expression expression => .node (.statement (.expression expression))
  | statement => .nested (.statement statement)

@[simp]
def tokens (tokens : List τ) : List (Part τ) :=
  tokens.map .token

/-- Tokens that may be missing altogether. -/
@[simp]
def tokens? (tokens : Option (List τ)) : List (Part τ) :=
  Part.tokens (tokens.getD [])

def entry : MapEntry τ → List (Part τ)
  | .mk key value => [.expression key, .expression value]

def segment : InterpolationPart τ → List (Part τ)
  | .mk segment expression => [.token segment, .expression expression]

@[simp]
def arguments (arguments : Option (List (Expr τ))) : List (Part τ) :=
  (arguments.getD []).map .expression

/-- A block argument with its parameters. -/
def block : Option (Body τ) → List (Part τ)
  | none => []
  | some body => tokens? body.parameters ++ [.node (.body body)]

end Part

def Expr.parts : Expr τ → List (Part τ)
  | .list leftBracket elements rightBracket =>
    .token leftBracket :: elements.map .expression ++ [.token rightBracket]
  | .map leftBrace entries rightBrace =>
    .token leftBrace :: entries.flatMap Part.entry ++ [.token rightBrace]
  | .grouping leftParen expression rightParen =>
    [.token leftParen, .expression expression, .token rightParen]
  | .null token => [.null token]
  | .this token | .bool token | .number token | .string token | .field token
  | .staticField token => [.token token]
  | .assignment target equal value =>
    [.node (.expression target), .token equal, .expression value]
  | .conditional condition question thenBranch colon elseBranch =>
    [.node (.expression condition), .token question, .expression thenBranch, .token colon,
      .expression elseBranch]
  | .infixOp left operator right =>
    [.node (.expression left), .token operator, .node (.expression right)]
  | .prefixOp operator operand => [.token operator, .expression operand]
  | .call receiver name arguments block =>
    receiver.toList.map (.node <| .expression ·) ++ .token name :: Part.arguments arguments ++
      Part.block block
  | .superCall keyword name arguments block =>
    .token keyword :: Part.tokens name.toList ++ Part.arguments arguments ++ Part.block block
  | .subscript receiver leftBracket arguments rightBracket =>
    [.node (.expression receiver), .token leftBracket] ++ arguments.map .expression ++
      [.token rightBracket]
  | .interpolation parts last => parts.flatMap Part.segment ++ [.token last]

def Stmt.parts : Stmt τ → List (Part τ)
  | .classDef foreign keyword name superclass methods =>
    Part.tokens foreign.toList ++ [.token keyword, .token name] ++ Part.tokens superclass.toList ++
      methods.map (.node <| .method ·)
  | .importDef keyword path imported => [.token keyword, .token path] ++ Part.tokens? imported
  | .varDef keyword name initializer =>
    [.token keyword, .token name] ++ initializer.toList.map .expression
  | .ifElse keyword condition thenBranch elseBranch =>
    [.token keyword, .expression condition, .nested (.statement thenBranch)] ++
      elseBranch.toList.map (.nested <| .statement ·)
  | .forIn keyword loopVariable iterator body =>
    [.token keyword, .token loopVariable, .expression iterator, .nested (.statement body)]
  | .whileDo keyword condition body =>
    [.token keyword, .expression condition, .nested (.statement body)]
  | .returnValue keyword value => .token keyword :: value.toList.map .expression
  | .breakLoop keyword => [.token keyword]
  | .block leftBrace statements rightBrace =>
    .token leftBrace :: statements.map .statement ++ [.token rightBrace]
  | .expression value => [.expression value]

/-- The parameters of a body stand before it: those of a method with its name, and those of a block
argument with the call. -/
def TreeNode.parts : TreeNode τ → List (Part τ)
  | .script module => module.statements.map .statement
  | .statement value => value.parts
  | .method (.mk foreign static construct name parameters body?) =>
    Part.tokens (foreign.toList ++ static.toList ++ construct.toList) ++ .token name ::
      Part.tokens? parameters ++ body?.toList.map (.node <| .body ·)
  | .body (.single _ element) => [.element element]
  | .body (.sequence _ statements) => statements.map .statement
  | .expression value => value.parts

/-- A part is a token, or a node that is smaller than the bound. -/
def Part.Below (bound : Nat) : Part τ → Prop
  | .token _ | .null _ => True
  | .node child | .nested child => sizeOf child < bound

namespace Part
variable {bound : Nat}

theorem statement_below {statement : Stmt τ} (smaller : 1 + sizeOf statement < bound) :
    (Part.statement statement).Below bound := by
  cases statement <;> exact smaller

theorem element_below {statement : Stmt τ} (smaller : 1 + sizeOf statement < bound) :
    (Part.element statement).Below bound := by
  cases statement <;> exact smaller

theorem entry_below {entry : MapEntry τ} (smaller : sizeOf entry < bound) :
    ∀ part ∈ Part.entry entry, part.Below bound := by
  cases entry
  grind [Part.entry, Part.expression, Part.Below]

theorem segment_below {segment : InterpolationPart τ} (smaller : sizeOf segment < bound) :
    ∀ part ∈ Part.segment segment, part.Below bound := by
  cases segment
  grind [Part.segment, Part.expression, Part.Below]

theorem arguments_below {arguments : Option (List (Expr τ))} (smaller : sizeOf arguments < bound) :
    ∀ part ∈ Part.arguments arguments, part.Below bound := by
  cases arguments <;> grind [Part.arguments, Part.expression, Part.Below, → List.sizeOf_lt_of_mem]

theorem block_below {block : Option (Body τ)} (smaller : sizeOf block < bound) :
    ∀ part ∈ Part.block block, part.Below bound := by
  cases block <;> grind [Part.block, Part.tokens?, Part.tokens, Part.Below]

end Part

theorem Expr.parts_below (expression : Expr τ) :
    ∀ part ∈ expression.parts, part.Below (1 + sizeOf expression) := by
  intro part member
  cases expression with
  | map leftBrace entries rightBrace =>
    simp only [Expr.parts, List.cons_append, List.mem_cons, List.mem_append, List.mem_flatMap,
      List.not_mem_nil, or_false] at member
    rcases member with rfl | ⟨entry, inside, member⟩ | rfl
    · trivial
    · have smaller := List.sizeOf_lt_of_mem inside
      exact Part.entry_below (by simp; omega) part member
    · trivial
  | call receiver name arguments block =>
    simp only [Expr.parts, List.mem_append, List.mem_cons] at member
    rcases member with (member | rfl | member) | member
    · grind [Part.Below]
    · trivial
    · exact Part.arguments_below (by simp; omega) part member
    · exact Part.block_below (by simp; omega) part member
  | superCall keyword name arguments block =>
    simp only [Expr.parts, List.mem_append, List.mem_cons] at member
    rcases member with ((rfl | member) | member) | member
    · trivial
    · grind [Part.tokens, Part.Below]
    · exact Part.arguments_below (by simp; omega) part member
    · exact Part.block_below (by simp; omega) part member
  | interpolation parts last =>
    simp only [Expr.parts, List.mem_append, List.mem_flatMap, List.mem_singleton] at member
    rcases member with ⟨segment, inside, member⟩ | rfl
    · have smaller := List.sizeOf_lt_of_mem inside
      exact Part.segment_below (by simp; omega) part member
    · trivial
  | conditional _ _ _ _ _ =>
    simp only [Expr.parts] at member
    grind [Part.Below, Part.expression]
  | _ => grind [Expr.parts, Part.expression, Part.Below, → List.sizeOf_lt_of_mem]

theorem Stmt.parts_below (statement : Stmt τ) :
    ∀ part ∈ statement.parts, part.Below (1 + sizeOf statement) := by
  intro part member
  cases statement <;>
    grind [Stmt.parts, Part.tokens, Part.tokens?, Part.expression, Part.Below,
      Part.statement_below, → List.sizeOf_lt_of_mem]

/-- The parts of a node are smaller than it. -/
theorem TreeNode.parts_below (node : TreeNode τ) :
    ∀ part ∈ node.parts, part.Below (sizeOf node) := by
  cases node with
  | script module =>
    obtain ⟨statements⟩ := module
    grind [TreeNode.parts, Part.statement_below, → List.sizeOf_lt_of_mem]
  | statement statement => exact statement.parts_below
  | method method =>
    cases method
    grind [TreeNode.parts, Part.tokens, Part.tokens?, Part.Below]
  | body body =>
    cases body <;>
      grind [TreeNode.parts, Part.statement_below, Part.element_below, → List.sizeOf_lt_of_mem]
  | expression expression => exact expression.parts_below

/-- A way from a node down to one of the nodes in it, with the number of levels on the way. -/
inductive TreeNode.Path : TreeNode τ → Nat → TreeNode τ → Prop where
  | here {node : TreeNode τ} : Path node 0 node
  | beside {node child last : TreeNode τ} {levels : Nat} (part : .node child ∈ node.parts)
      (rest : Path child levels last) : Path node levels last
  | further {node child last : TreeNode τ} {levels : Nat} (part : .nested child ∈ node.parts)
      (rest : Path child levels last) : Path node (levels + 1) last

/-- An item in the listing of a tree. -/
inductive Mark (τ : Type) where
  | token (token : τ)
  | null (token : τ)
  /-- The end of a node that is so many levels in. -/
  | node (levels : Nat) (node : TreeNode τ)

/-- The listing of a node that is itself so many levels in: its parts, and then the node. -/
def TreeNode.marks (levels : Nat) (node : TreeNode τ) : List (Mark τ) :=
  node.parts.attach.flatMap (fun
    | ⟨.token token, _⟩ => [.token token]
    | ⟨.null token, _⟩ => [.null token]
    | ⟨.node child, _⟩ => child.marks levels
    | ⟨.nested child, _⟩ => child.marks (levels + 1)) ++ [.node levels node]
termination_by sizeOf node
decreasing_by all_goals exact node.parts_below _ ‹_›

def Part.marks (levels : Nat) : Part τ → List (Mark τ)
  | .token written => [.token written]
  | .null written => [.null written]
  | .node child => child.marks levels
  | .nested child => child.marks (levels + 1)

@[simp]
theorem Part.marks_tokens (levels : Nat) (tokens : List τ) :
    (tokens.map Part.token).flatMap (Part.marks levels) = tokens.map .token := by
  rw [List.flatMap_map, List.map_eq_flatMap]
  rfl

theorem TreeNode.marks_eq (levels : Nat) (node : TreeNode τ) :
    node.marks levels = node.parts.flatMap (Part.marks levels) ++ [.node levels node] := by
  have attached : node.parts.flatMap (Part.marks levels) =
      node.parts.attach.flatMap fun part => part.val.marks levels := by
    rw [← List.flatMap_map]
    simp
  rw [TreeNode.marks, attached]
  congr 2
  funext ⟨part, _⟩
  cases part <;> rfl

@[simp]
theorem TreeNode.marks_null (levels : Nat) (token : τ) :
    (TreeNode.expression (.null token)).marks levels =
      [.null token, .node levels (.expression (.null token))] := by
  simp [TreeNode.marks_eq, TreeNode.parts, Expr.parts, Part.marks]

@[simp]
theorem TreeNode.marks_nullStatement (levels : Nat) (token : τ) :
    (TreeNode.statement (.expression (.null token))).marks levels =
      [.null token, .node (levels + 1) (.expression (.null token)),
        .node levels (.statement (.expression (.null token)))] := by
  rw [TreeNode.marks_eq]
  simp [TreeNode.parts, Stmt.parts, Part.marks]

/-- What holds of a node if it holds of those among its parts holds of every node. -/
theorem TreeNode.induction {motive : TreeNode τ → Prop}
    (step : ∀ node, (∀ child, .node child ∈ node.parts ∨ .nested child ∈ node.parts →
      motive child) → motive node) (node : TreeNode τ) : motive node := by
  refine step node fun child inside => ?_
  have smaller : sizeOf child < sizeOf node := by
    rcases inside with inside | inside <;> exact node.parts_below _ inside
  exact child.induction step
termination_by sizeOf node

theorem TreeNode.Path.listed {node last : TreeNode τ} {levels : Nat} (path : node.Path levels last)
    (base : Nat) : .node (base + levels) last ∈ node.marks base := by
  induction path generalizing base with
  | here =>
    rw [TreeNode.marks_eq]
    exact List.mem_append_right _ List.mem_cons_self
  | beside part _ ih =>
    rw [TreeNode.marks_eq]
    exact List.mem_append_left _ (List.mem_flatMap.2 ⟨_, part, ih base⟩)
  | @further _ _ _ levels part _ ih =>
    rw [TreeNode.marks_eq, Nat.add_comm levels, ← Nat.add_assoc]
    exact List.mem_append_left _ (List.mem_flatMap.2 ⟨_, part, ih (base + 1)⟩)

theorem TreeNode.path_of_listed {node last : TreeNode τ} {base depth : Nat}
    (listed : .node depth last ∈ node.marks base) :
    ∃ levels, depth = base + levels ∧ node.Path levels last := by
  induction node using TreeNode.induction generalizing base with
  | step node ih =>
    rw [TreeNode.marks_eq, List.mem_append, List.mem_flatMap, List.mem_singleton] at listed
    rcases listed with ⟨part, inside, listed⟩ | same
    · cases part with
      | token token => simp [Part.marks] at listed
      | null token => simp [Part.marks] at listed
      | node child =>
        obtain ⟨levels, rfl, path⟩ := ih child (.inl inside) listed
        exact ⟨levels, rfl, .beside inside path⟩
      | nested child =>
        obtain ⟨levels, rfl, path⟩ := ih child (.inr inside) listed
        exact ⟨levels + 1, by omega, .further inside path⟩
    · cases same
      exact ⟨0, rfl, .here⟩

/-- The nodes listed for a tree are those that a path leads to, with the levels on the path. -/
theorem TreeNode.listed_iff {node last : TreeNode τ} {levels : Nat} :
    .node levels last ∈ node.marks 0 ↔ node.Path levels last := by
  constructor
  · intro listed
    obtain ⟨_, rfl, path⟩ := TreeNode.path_of_listed listed
    rwa [Nat.zero_add]
  · intro path
    simpa using path.listed 0

end WrenFront
