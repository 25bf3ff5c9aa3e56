import WrenFront.Proofs.FormReading
import WrenFront.Proofs.Placeholders

/-! A dump is the text of the forms of its tree, as far as the tree is shown. It shows no tokens but
those of the tree, so the forms need only their texts. -/

namespace WrenFront

variable {source : Source}

namespace Outline

@[simp]
theorem renderAll_eq_map (items : List Outline) :
    renderAll source items = items.map (render source) := by
  induction items with
  | nil => simp [renderAll]
  | cons item rest ih => simp [renderAll, ih]

@[simp]
theorem ofExprs_eq_map (expressions : List (Expr Token)) :
    ofExprs expressions = expressions.map ofExpr := by
  induction expressions with
  | nil => simp [ofExprs]
  | cons expression rest ih => simp [ofExprs, ih]

@[simp]
theorem ofStmts_eq_map (statements : List (Stmt Token)) :
    ofStmts statements = statements.map ofStmt := by
  induction statements with
  | nil => simp [ofStmts]
  | cons statement rest ih => simp [ofStmts, ih]

theorem render_named (head : String) (items : List Outline) :
    (named head items).render source = enclose (head :: items.map (render source)) := by
  simp [named, render]

end Outline

/-- An expression is written as the form of what is shown of it. -/
abbrev Expr.Written (source : Source) (expression : Expr Token) : Prop :=
  (Outline.ofExpr expression).render source = (expression.shown (·.text source)).sexp.text

abbrev Stmt.Written (source : Source) (statement : Stmt Token) : Prop :=
  (Outline.ofStmt statement).render source = (statement.shown (·.text source)).sexp.text

abbrev Body.Written (source : Source) (body : Body Token) : Prop :=
  (Outline.ofBody body).render source = (body.shown (·.text source)).sexp.text

/-- The methods of a class are written one by one. -/
abbrev Method.Written (source : Source) (method : Method Token) : Prop :=
  (Outline.ofMethods [method]).map (Outline.render source) =
    (sexpMethods [method.shown (·.text source)]).map Sexp.text

def TreeNode.Written (source : Source) : TreeNode Token → Prop
  | .script module => ∀ statement ∈ module.statements, statement.Written source
  | .statement value => value.Written source
  | .method value => value.Written source
  | .body value => value.Written source
  | .expression value => value.Written source

/-- A child is written so, and the place of a missing expression is none. -/
def Part.Written (source : Source) : Part Token → Prop
  | .token _ => True
  | .null written => written.kind = .kwNull
  | .node child | .nested child => child.Written source

theorem Part.written_statement {statement : Stmt Token}
    (written : (Part.statement statement).Written source) : statement.Written source := by
  cases statement <;> exact written

theorem Part.written_element {statement : Stmt Token}
    (written : (Part.element statement).Written source) : statement.Written source := by
  cases statement <;> exact written

namespace Outline

section Rows
variable {expressions : List (Expr Token)} {statements : List (Stmt Token)}

theorem map_ofExpr (written : ∀ expression ∈ expressions, expression.Written source) :
    expressions.map (render source ∘ ofExpr) =
      expressions.map (Sexp.text ∘ Expr.sexp ∘ (·.shown (·.text source))) :=
  List.map_congr_left written

theorem map_ofStmt (written : ∀ statement ∈ statements, statement.Written source) :
    statements.map (render source ∘ ofStmt) =
      statements.map (Sexp.text ∘ Stmt.sexp ∘ (·.shown (·.text source))) :=
  List.map_congr_left written

theorem map_ofEntries {entries : List (MapEntry Token)}
    (written : ∀ key value, .mk key value ∈ entries → key.Written source ∧ value.Written source) :
    (ofEntries entries).map (render source) =
      (sexpEntries (entries.map (·.shown (·.text source)))).map Sexp.text := by
  induction entries with
  | nil => rfl
  | cons entry rest ih =>
    obtain ⟨key, value⟩ := entry
    obtain ⟨first, second⟩ := written key value List.mem_cons_self
    have later := ih fun key value member => written key value (List.mem_cons_of_mem _ member)
    simp [ofEntries, render, MapEntry.shown, sexpEntries, Sexp.text, first, second, later]

theorem map_ofParts {parts : List (InterpolationPart Token)}
    (written : ∀ segment expression, .mk segment expression ∈ parts → expression.Written source) :
    (ofParts parts).map (render source) =
      (sexpParts (parts.map (·.shown (·.text source)))).map Sexp.text := by
  induction parts with
  | nil => rfl
  | cons part rest ih =>
    obtain ⟨segment, expression⟩ := part
    have first := written segment expression List.mem_cons_self
    have later := ih fun segment expression member =>
      written segment expression (List.mem_cons_of_mem _ member)
    simp [ofParts, render, InterpolationPart.shown, sexpParts, Sexp.text, first, later]

variable {arguments : Option (List (Expr Token))} {block : Option (Body Token)}

theorem render_ofReceiver {receiver : Option (Expr Token)}
    (written : ∀ value ∈ receiver, value.Written source) :
    (ofReceiver receiver).render source =
      (shownReceiver (·.text source) receiver).sexp.text := by
  cases receiver with
  | none => rfl
  | some value => exact written value rfl

theorem map_ofArguments (given : ∀ list ∈ arguments, ∀ argument ∈ list, argument.Written source) :
    (ofArguments arguments).map (render source) =
      (sexpArguments (arguments.map (·.map (·.shown (·.text source))))).map Sexp.text := by
  cases arguments with
  | none => rfl
  | some list =>
    simp [ofArguments, render_named, sexpArguments, Sexp.text, map_ofExpr (given list rfl)]

theorem map_ofBlock (held : ∀ body ∈ block, body.Written source) :
    (ofBlock block).map (render source) =
      (sexpBlock (block.map (·.shown (·.text source)))).map Sexp.text := by
  cases block with
  | none => rfl
  | some body => simpa [ofBlock, sexpBlock] using held body rfl

theorem ofExpr_fullCall {receiver : Option (Expr Token)} (name : Token)
    (more : ¬ (receiver = none ∧ arguments = none ∧ block = none)) :
    ofExpr (.call receiver name arguments block) = named "call"
      (ofReceiver receiver :: .leaf name :: (ofArguments arguments ++ ofBlock block)) := by
  cases receiver <;> cases arguments <;> cases block <;> simp [ofExpr] at more ⊢

theorem map_ofValue {value : Option (Expr Token)}
    (written : ∀ given ∈ value, given.Written source) :
    (ofValue value).map (render source) =
      (sexpExpr? (value.map (·.shown (·.text source)))).map Sexp.text := by
  cases value with
  | none => rfl
  | some given => simpa [ofValue, sexpExpr?] using written given rfl

theorem map_ofElse {statement : Option (Stmt Token)}
    (written : ∀ given ∈ statement, given.Written source) :
    (ofElse statement).map (render source) =
      (sexpStmt? (statement.map (·.shown (·.text source)))).map Sexp.text := by
  cases statement with
  | none => rfl
  | some given => simpa [ofElse, sexpStmt?] using written given rfl

theorem map_ofParameters (parameters : Option (List Token)) :
    (ofParameters parameters).map (render source) =
      ((parameters.map (·.map (·.text source))).toList.map Sexp.ofNames).map Sexp.text := by
  cases parameters with
  | none => rfl
  | some tokens =>
    cases tokens with
    | nil => rfl
    | cons token rest =>
      simp [ofParameters, render, Sexp.ofNames, Sexp.text, Function.comp_def]

theorem map_ofMethods {methods : List (Method Token)}
    (written : ∀ method ∈ methods, method.Written source) :
    (ofMethods methods).map (render source) =
      (sexpMethods (methods.map (·.shown (·.text source)))).map Sexp.text := by
  induction methods with
  | nil => rfl
  | cons method rest ih =>
    obtain ⟨first, others⟩ := List.forall_mem_cons.1 written
    have outlines : ofMethods (method :: rest) = ofMethods [method] ++ ofMethods rest := by
      cases method
      simp [ofMethods]
    have forms (shown : Method String) (others : List (Method String)) :
        sexpMethods (shown :: others) = sexpMethods [shown] ++ sexpMethods others := by
      cases shown
      simp [sexpMethods]
    rw [outlines, List.map_append, List.map_cons, forms, List.map_append, first, ih others]

end Rows
end Outline

section Steps

theorem Expr.written_step {expression : Expr Token}
    (parts : ∀ part ∈ expression.parts, part.Written source) : expression.Written source := by
  have inner {value : Expr Token} (part : .nested (.expression value) ∈ expression.parts) :
      value.Written source := parts (.nested (.expression value)) part
  have beside {value : Expr Token} (part : .node (.expression value) ∈ expression.parts) :
      value.Written source := parts (.node (.expression value)) part
  have held {body : Body Token} (part : .node (.body body) ∈ expression.parts) :
      body.Written source := parts (.node (.body body)) part
  unfold Expr.Written
  cases expression with
  | list leftBracket elements rightBracket =>
    have written : ∀ element ∈ elements, element.Written source :=
      fun element member => inner (by simp [Expr.parts, member])
    simp [Outline.ofExpr, Outline.render_named, Expr.shown, Expr.sexp, Sexp.text,
      Outline.map_ofExpr written]
  | map leftBrace entries rightBrace =>
    have inside (key value : Expr Token) (member : .mk key value ∈ entries) :
        ∀ part ∈ Part.entry (.mk key value), part ∈ (Expr.map leftBrace entries rightBrace).parts :=
      fun part found => List.mem_append_left _ (List.mem_cons_of_mem _
        (List.mem_flatMap.2 ⟨_, member, found⟩))
    have written (key value : Expr Token) (member : .mk key value ∈ entries) :
        key.Written source ∧ value.Written source :=
      ⟨inner (inside key value member _ (by simp [Part.entry])),
        inner (inside key value member _ (by simp [Part.entry]))⟩
    simp [Outline.ofExpr, Outline.render_named, Expr.shown, Expr.sexp, Sexp.text,
      Outline.map_ofEntries written]
  | grouping leftParen value rightParen =>
    have written : value.Written source := inner (by simp [Expr.parts])
    simp [Outline.ofExpr, Outline.render_named, Expr.shown, Expr.sexp, Sexp.text, written]
  | null token =>
    have kind : token.kind = .kwNull := parts (.null token) (by simp [Expr.parts])
    simp [Outline.ofExpr, kind, Outline.render, Expr.shown, Expr.sexp, Sexp.text]
  | this token | bool token | number token | string token | field token | staticField token => rfl
  | assignment target equal value =>
    have first : target.Written source := beside (by simp [Expr.parts])
    have second : value.Written source := inner (by simp [Expr.parts])
    simp [Outline.ofExpr, Outline.render_named, Expr.shown, Expr.sexp, Sexp.text, first, second]
  | conditional condition question thenBranch colon elseBranch =>
    have first : condition.Written source := beside (by simp [Expr.parts])
    have second : thenBranch.Written source := inner (by simp [Expr.parts])
    have third : elseBranch.Written source := inner (by simp [Expr.parts])
    simp [Outline.ofExpr, Outline.render_named, Expr.shown, Expr.sexp, Sexp.text, first, second,
      third]
  | infixOp left operator right =>
    have first : left.Written source := beside (by simp [Expr.parts])
    have second : right.Written source := beside (by simp [Expr.parts])
    simp [Outline.ofExpr, Outline.render, Expr.shown, Expr.sexp, Sexp.text, first, second]
  | prefixOp operator operand =>
    have written : operand.Written source := inner (by simp [Expr.parts])
    simp [Outline.ofExpr, Outline.render, Expr.shown, Expr.sexp, Sexp.text, written]
  | call receiver name arguments block =>
    by_cases bare : receiver = none ∧ arguments = none ∧ block = none
    · obtain ⟨rfl, rfl, rfl⟩ := bare
      rfl
    have first : ∀ value ∈ receiver, value.Written source := by
      rintro value ⟨⟩
      exact beside (by simp [Expr.parts])
    have given : ∀ list ∈ arguments, ∀ argument ∈ list, argument.Written source := by
      rintro list ⟨⟩ argument member
      exact inner (by simp [Expr.parts, member])
    have last : ∀ body ∈ block, body.Written source := by
      rintro body ⟨⟩
      exact held (by simp [Expr.parts, Part.block])
    simp [Outline.ofExpr_fullCall name bare, Expr.shown_call name bare, Outline.render_named,
      Outline.render, Expr.sexp, Sexp.text, Outline.render_ofReceiver first,
      Outline.map_ofArguments given, Outline.map_ofBlock last]
  | superCall keyword name arguments block =>
    have given : ∀ list ∈ arguments, ∀ argument ∈ list, argument.Written source := by
      rintro list ⟨⟩ argument member
      exact inner (by simp [Expr.parts, member])
    have last : ∀ body ∈ block, body.Written source := by
      rintro body ⟨⟩
      exact held (by simp [Expr.parts, Part.block])
    cases name <;>
      simp [Outline.ofExpr, Outline.render_named, Outline.ofOptional, Outline.render, Expr.shown,
        Expr.sexp, Sexp.text, Outline.map_ofArguments given, Outline.map_ofBlock last]
  | subscript receiver leftBracket arguments rightBracket =>
    have first : receiver.Written source := beside (by simp [Expr.parts])
    have written : ∀ argument ∈ arguments, argument.Written source :=
      fun argument member => inner (by simp [Expr.parts, member])
    simp [Outline.ofExpr, Outline.render_named, Expr.shown, Expr.sexp, Sexp.text, first,
      Outline.map_ofExpr written]
  | interpolation rows last =>
    have written (segment : Token) (value : Expr Token) (member : .mk segment value ∈ rows) :
        value.Written source := by
      refine inner (List.mem_append_left _ (List.mem_flatMap.2 ⟨_, member, ?_⟩))
      simp [Part.segment]
    simp [Outline.ofExpr, Outline.render_named, Outline.render, Expr.shown, Expr.sexp, Sexp.text,
      Outline.map_ofParts written]

theorem Stmt.written_step {statement : Stmt Token}
    (parts : ∀ part ∈ statement.parts, part.Written source) : statement.Written source := by
  have inner {value : Expr Token} (part : .nested (.expression value) ∈ statement.parts) :
      value.Written source := parts (.nested (.expression value)) part
  have branch {value : Stmt Token} (part : .nested (.statement value) ∈ statement.parts) :
      value.Written source := parts (.nested (.statement value)) part
  unfold Stmt.Written
  cases statement with
  | classDef foreign keyword name superclass methods =>
    have written : ∀ method ∈ methods, method.Written source := fun method member =>
      parts (.node (.method method)) (by simp [Stmt.parts, member])
    cases foreign <;> cases superclass <;>
      simp [Outline.ofStmt, Outline.render, Stmt.shown, Stmt.sexp, Sexp.text,
        Outline.map_ofMethods written]
  | importDef keyword path imported =>
    cases imported <;>
      simp [Outline.ofStmt, Outline.render_named, Outline.render, Stmt.shown, Stmt.sexp, Sexp.text,
        Function.comp_def]
  | varDef keyword name initializer =>
    have written : ∀ value ∈ initializer, value.Written source := by
      rintro value ⟨⟩
      exact inner (by simp [Stmt.parts])
    simp [Outline.ofStmt, Outline.render_named, Outline.render, Stmt.shown, Stmt.sexp, Sexp.text,
      Outline.map_ofValue written]
  | ifElse keyword condition thenBranch elseBranch =>
    have first : condition.Written source := inner (by simp [Stmt.parts])
    have second : thenBranch.Written source := branch (by simp [Stmt.parts])
    have third : ∀ value ∈ elseBranch, value.Written source := by
      rintro value ⟨⟩
      exact branch (by simp [Stmt.parts])
    simp [Outline.ofStmt, Outline.render_named, Stmt.shown, Stmt.sexp, Sexp.text, first, second,
      Outline.map_ofElse third]
  | forIn keyword loopVariable iterator body =>
    have first : iterator.Written source := inner (by simp [Stmt.parts])
    have second : body.Written source := branch (by simp [Stmt.parts])
    simp [Outline.ofStmt, Outline.render_named, Outline.render, Stmt.shown, Stmt.sexp, Sexp.text,
      first, second]
  | whileDo keyword condition body =>
    have first : condition.Written source := inner (by simp [Stmt.parts])
    have second : body.Written source := branch (by simp [Stmt.parts])
    simp [Outline.ofStmt, Outline.render_named, Stmt.shown, Stmt.sexp, Sexp.text, first, second]
  | returnValue keyword value =>
    have written : ∀ given ∈ value, given.Written source := by
      rintro given ⟨⟩
      exact inner (by simp [Stmt.parts])
    simp [Outline.ofStmt, Outline.render_named, Stmt.shown, Stmt.sexp, Sexp.text,
      Outline.map_ofValue written]
  | breakLoop keyword => rfl
  | block leftBrace statements rightBrace =>
    have written : ∀ value ∈ statements, value.Written source := by
      intro value member
      exact Part.written_statement (parts (Part.statement value)
        (List.mem_append_left _ (List.mem_cons_of_mem _ (List.mem_map_of_mem member))))
    simp [Outline.ofStmt, Outline.render_named, Stmt.shown, Stmt.sexp, Sexp.text,
      Outline.map_ofStmt written]
  | expression value =>
    have written : value.Written source := inner (by simp [Stmt.parts])
    exact written

theorem Body.written_step {body : Body Token}
    (parts : ∀ part ∈ (TreeNode.body body).parts, part.Written source) : body.Written source := by
  unfold Body.Written
  cases body with
  | single parameters element =>
    have written : element.Written source :=
      Part.written_element (parts (Part.element element) (by simp [TreeNode.parts]))
    cases parameters <;>
      simp [Outline.ofBody, Outline.render_named, Outline.ofBars, Outline.render, Body.shown,
        Body.sexp, Sexp.text, written]
  | sequence parameters statements =>
    have written : ∀ value ∈ statements, value.Written source := fun value member =>
      Part.written_statement (parts (Part.statement value) (List.mem_map_of_mem member))
    cases parameters <;>
      simp [Outline.ofBody, Outline.render_named, Outline.ofBars, Outline.render, Body.shown,
        Body.sexp, Sexp.text, Outline.map_ofStmt written]

theorem Method.written_step {method : Method Token}
    (parts : ∀ part ∈ (TreeNode.method method).parts, part.Written source) :
    method.Written source := by
  cases method with
  | mk foreign static construct name parameters body =>
    have held : ∀ content ∈ body, content.Written source := by
      rintro content ⟨⟩
      exact parts (.node (.body content)) (by simp [TreeNode.parts])
    cases foreign <;> cases static <;> cases construct <;>
      simp [Method.Written, Outline.ofMethods, Outline.render_named, Outline.render,
        Outline.ofOptional, Method.shown, sexpMethods, Method.announced, Sexp.text,
        Outline.map_ofParameters, Outline.map_ofBlock held]

end Steps

theorem TreeNode.written_step {node : TreeNode Token}
    (parts : ∀ part ∈ node.parts, part.Written source) : node.Written source := by
  cases node with
  | script module =>
    exact fun statement member =>
      Part.written_statement (parts (Part.statement statement) (List.mem_map_of_mem member))
  | statement value => exact Stmt.written_step parts
  | method value => exact Method.written_step parts
  | body value => exact Body.written_step parts
  | expression value => exact Expr.written_step parts

/-- A tree is written as what is shown of it, if no expression is missing in it. -/
theorem TreeNode.written_of_nulls {node : TreeNode Token} (nulls : ∀ levels token,
    node.Path levels (.expression (.null token)) → token.kind = .kwNull) : node.Written source := by
  induction node using TreeNode.induction with
  | step node ih =>
    refine TreeNode.written_step fun part inside => ?_
    cases part with
    | token written => trivial
    | null written =>
      obtain rfl := TreeNode.null_mem_parts inside
      exact nulls 0 written .here
    | node child =>
      exact ih child (.inl inside) fun levels token path =>
        nulls levels token (.beside inside path)
    | nested child =>
      exact ih child (.inr inside) fun levels token path =>
        nulls (levels + 1) token (.further inside path)

end WrenFront
