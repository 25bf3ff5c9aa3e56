import WrenFront.Proofs.CheckedReading
import WrenFront.Tree.Outline

/-! Printing a tree with its checks on: every range of bytes is compared with the source before it
is read. The tree of a source holds tokens of that source only, so no check is failed. -/

namespace WrenFront

open Checked

def Token.textChecked (source : Source) (token : Token) : Checked String :=
  ofRange (source.substring token.start token.length)

namespace Outline

mutual
def renderChecked (source : Source) : Outline → Checked String
  | .word text => return text
  | .leaf token => token.textChecked source
  | .bars parameters => return enbar (← parameters.mapM (·.textChecked source))
  | .form items => return enclose (← renderAllChecked source items)

def renderAllChecked (source : Source) : List Outline → Checked (List String)
  | [] => return []
  | item :: rest => return (← item.renderChecked source) :: (← renderAllChecked source rest)
end

end Outline

def Module.dumpChecked (source : Source) (module : Module Token) : Checked String := do
  let statements ← module.statements.mapM fun statement =>
    (Outline.ofStmt statement).renderChecked source
  return "\n".intercalate statements

theorem Token.textChecked_eq {source : Source} {token : Token}
    (inside : token.stop ≤ source.length) : token.textChecked source = .ok (token.text source) := by
  rw [stop] at inside
  rw [textChecked, Source.substring, if_pos inside]
  rfl

namespace Outline

/-- An outline with tokens of the source only. -/
inductive Legible (source : Source) : Outline → Prop where
  | word (text : String) : Legible source (.word text)
  | leaf {token : Token} (inside : token.stop ≤ source.length) : Legible source (.leaf token)
  | bars {parameters : List Token} (inside : ∀ token ∈ parameters, token.stop ≤ source.length) :
      Legible source (.bars parameters)
  | form {items : List Outline} (all : ∀ item ∈ items, Legible source item) :
      Legible source (.form items)

theorem renderAllChecked_eq {source : Source} {items : List Outline}
    (passed : ∀ item ∈ items, item.renderChecked source = .ok (item.render source)) :
    renderAllChecked source items = .ok (renderAll source items) := by
  induction items with
  | nil => rfl
  | cons item rest ih =>
    obtain ⟨first, others⟩ := List.forall_mem_cons.1 passed
    rw [renderAllChecked, first, ih others, renderAll]
    rfl

theorem Legible.renderChecked_eq {source : Source} {outline : Outline}
    (legible : outline.Legible source) :
    outline.renderChecked source = .ok (outline.render source) := by
  induction legible with
  | word => rfl
  | leaf inside => exact Token.textChecked_eq inside
  | bars inside =>
    rw [renderChecked, render,
      Checked.mapM_eq fun token member => Token.textChecked_eq (inside token member)]
    rfl
  | form _ ih =>
    rw [renderChecked, render, renderAllChecked_eq ih]
    rfl

/-- A call with nothing but a name is written as that name. -/
theorem ofExpr_call (receiver : Option (Expr Token)) (name : Token)
    (arguments : Option (List (Expr Token))) (block : Option (Body Token)) :
    ofExpr (.call receiver name arguments block) = .leaf name ∨
      ofExpr (.call receiver name arguments block) =
        named "call" (ofReceiver receiver :: .leaf name ::
          (ofArguments arguments ++ ofBlock block)) := by
  cases receiver <;> cases arguments <;> cases block <;> simp [ofExpr]

section Numbered
variable (source : Source)

theorem legible_token (reads : Nat) : (leaf (source.token reads)).Legible source :=
  .leaf (source.token_inside reads)

theorem legible_named {name : String} {items : List Outline}
    (all : ∀ item ∈ items, item.Legible source) : (named name items).Legible source :=
  .form (List.forall_mem_cons.2 ⟨.word name, all⟩)

theorem legible_optional (token : Option Nat) :
    ∀ item ∈ ofOptional (token.map source.token), item.Legible source := by
  cases token <;> simp [ofOptional, legible_token]

theorem legible_leaves (tokens : List Nat) :
    ∀ item ∈ (tokens.map source.token).map leaf, item.Legible source := by
  simp [legible_token]

theorem legible_parameters (parameters : Option (List Nat)) :
    ∀ item ∈ ofParameters (parameters.map (·.map source.token)), item.Legible source := by
  cases parameters with
  | none => simp [ofParameters]
  | some tokens => 
    simpa [ofParameters] using Legible.form (legible_leaves source tokens)

theorem legible_bars (parameters : Option (List Nat)) :
    ∀ item ∈ ofBars (parameters.map (·.map source.token)), item.Legible source := by
  cases parameters with
  | none => simp [ofBars]
  | some tokens =>
    have inside : (bars (tokens.map source.token)).Legible source :=
      .bars (by simp [source.token_inside])
    simpa [ofBars] using inside

mutual
theorem legible_expr (expression : Expr Nat) :
    (ofExpr (expression.mapTokens source.token)).Legible source := by
  cases expression with
  | list _ elements _ =>
    rw [Expr.mapTokens, ofExpr]
    exact legible_named source (legible_exprs elements)
  | map _ entries _ =>
    rw [Expr.mapTokens, ofExpr]
    exact legible_named source (legible_entries entries)
  | grouping _ expression _ =>
    rw [Expr.mapTokens, ofExpr]
    exact legible_named source (by simp [legible_expr expression])
  | null token =>
    rw [Expr.mapTokens, ofExpr]
    split
    · exact legible_token source token
    · exact .word _
  | assignment target _ value =>
    rw [Expr.mapTokens, ofExpr]
    exact legible_named source (by simp [legible_expr target, legible_expr value])
  | conditional condition _ thenBranch _ elseBranch =>
    rw [Expr.mapTokens, ofExpr]
    exact legible_named source
      (by simp [legible_expr condition, legible_expr thenBranch, legible_expr elseBranch])
  | infixOp left operator right =>
    rw [Expr.mapTokens, ofExpr]
    exact .form (by simp [legible_token, legible_expr left, legible_expr right])
  | prefixOp operator operand =>
    rw [Expr.mapTokens, ofExpr]
    exact .form (by simp [legible_token, legible_expr operand])
  | call receiver name arguments block =>
    have tail := List.forall_mem_append.2 ⟨legible_arguments arguments, legible_block block⟩
    have named := legible_token source name
    rw [Expr.mapTokens]
    rcases ofExpr_call (mapExpr? source.token receiver) (source.token name)
      (mapArguments source.token arguments) (mapBlock source.token block) with bare | full
    · rw [bare]
      exact named
    · rw [full]
      exact legible_named source (List.forall_mem_cons.2 ⟨legible_receiver receiver,
        List.forall_mem_cons.2 ⟨named, tail⟩⟩)
  | superCall _ name arguments block =>
    have tail := List.forall_mem_append.2 ⟨legible_arguments arguments, legible_block block⟩
    rw [Expr.mapTokens, ofExpr]
    exact legible_named source (List.forall_mem_append.2 ⟨legible_optional source name, tail⟩)
  | subscript receiver _ arguments _ =>
    rw [Expr.mapTokens, ofExpr]
    exact legible_named source
      (List.forall_mem_cons.2 ⟨legible_expr receiver, legible_exprs arguments⟩)
  | interpolation parts last =>
    rw [Expr.mapTokens, ofExpr]
    exact legible_named source
      (List.forall_mem_append.2 ⟨legible_parts parts, by simp [legible_token]⟩)
  | _ token =>
    rw [Expr.mapTokens, ofExpr]
    exact legible_token source token

theorem legible_exprs (expressions : List (Expr Nat)) :
    ∀ item ∈ ofExprs (mapExprs source.token expressions), item.Legible source := by
  cases expressions with
  | nil =>
    rw [mapExprs, ofExprs]
    exact List.forall_mem_nil _
  | cons expression rest =>
    rw [mapExprs, ofExprs]
    exact List.forall_mem_cons.2 ⟨legible_expr expression, legible_exprs rest⟩

theorem legible_entries (entries : List (MapEntry Nat)) :
    ∀ item ∈ ofEntries (mapEntries source.token entries), item.Legible source := by
  cases entries with
  | nil =>
    rw [mapEntries, ofEntries]
    exact List.forall_mem_nil _
  | cons entry rest =>
    obtain ⟨key, value⟩ := entry
    rw [mapEntries, MapEntry.mapTokens, ofEntries]
    exact List.forall_mem_cons.2
      ⟨.form (by simp [legible_expr key, legible_expr value]), legible_entries rest⟩

theorem legible_parts (parts : List (InterpolationPart Nat)) :
    ∀ item ∈ ofParts (mapParts source.token parts), item.Legible source := by
  cases parts with
  | nil =>
    rw [mapParts, ofParts]
    exact List.forall_mem_nil _
  | cons part rest =>
    obtain ⟨segment, expression⟩ := part
    rw [mapParts, InterpolationPart.mapTokens, ofParts]
    exact List.forall_mem_cons.2 ⟨legible_token source segment,
      List.forall_mem_cons.2 ⟨legible_expr expression, legible_parts rest⟩⟩

theorem legible_receiver (receiver : Option (Expr Nat)) :
    (ofReceiver (mapExpr? source.token receiver)).Legible source := by
  cases receiver with
  | none =>
    rw [mapExpr?, ofReceiver]
    exact .word _
  | some receiver =>
    rw [mapExpr?, ofReceiver]
    exact legible_expr receiver

theorem legible_arguments (arguments : Option (List (Expr Nat))) :
    ∀ item ∈ ofArguments (mapArguments source.token arguments), item.Legible source := by
  cases arguments with
  | none =>
    rw [mapArguments, ofArguments]
    exact List.forall_mem_nil _
  | some arguments =>
    rw [mapArguments, ofArguments]
    exact List.forall_mem_singleton.2 (legible_named source (legible_exprs arguments))

theorem legible_block (block : Option (Body Nat)) :
    ∀ item ∈ ofBlock (mapBlock source.token block), item.Legible source := by
  cases block with
  | none =>
    rw [mapBlock, ofBlock]
    exact List.forall_mem_nil _
  | some body =>
    rw [mapBlock, ofBlock]
    exact List.forall_mem_singleton.2 (legible_body body)

theorem legible_body (body : Body Nat) :
    (ofBody (body.mapTokens source.token)).Legible source := by
  cases body with
  | single parameters element =>
    rw [Body.mapTokens, ofBody]
    exact legible_named source (List.forall_mem_append.2
      ⟨legible_bars source parameters, List.forall_mem_singleton.2 (legible_stmt element)⟩)
  | sequence parameters statements =>
    rw [Body.mapTokens, ofBody]
    exact legible_named source (List.forall_mem_append.2 ⟨legible_bars source parameters,
      List.forall_mem_singleton.2 (legible_named source (legible_stmts statements))⟩)

theorem legible_methods (methods : List (Method Nat)) :
    ∀ item ∈ ofMethods (mapMethods source.token methods), item.Legible source := by
  cases methods with
  | nil =>
    rw [mapMethods, ofMethods]
    exact List.forall_mem_nil _
  | cons method rest =>
    obtain ⟨foreign, static, construct, name, parameters, body⟩ := method
    rw [mapMethods, Method.mapTokens, ofMethods]
    refine List.forall_mem_cons.2 ⟨legible_named source ?_, legible_methods rest⟩
    simp only [List.cons_append, List.append_assoc, List.forall_mem_append, List.forall_mem_cons]
    exact ⟨legible_optional source foreign, legible_optional source static,
      legible_optional source construct, legible_token source name,
      legible_parameters source parameters, legible_block body⟩

theorem legible_stmts (statements : List (Stmt Nat)) :
    ∀ item ∈ ofStmts (mapStmts source.token statements), item.Legible source := by
  cases statements with
  | nil =>
    rw [mapStmts, ofStmts]
    exact List.forall_mem_nil _
  | cons statement rest =>
    rw [mapStmts, ofStmts]
    exact List.forall_mem_cons.2 ⟨legible_stmt statement, legible_stmts rest⟩

theorem legible_else (statement : Option (Stmt Nat)) :
    ∀ item ∈ ofElse (mapStmt? source.token statement), item.Legible source := by
  cases statement with
  | none =>
    rw [mapStmt?, ofElse]
    exact List.forall_mem_nil _
  | some statement =>
    rw [mapStmt?, ofElse]
    exact List.forall_mem_singleton.2 (legible_stmt statement)

theorem legible_value (value : Option (Expr Nat)) :
    ∀ item ∈ ofValue (mapExpr? source.token value), item.Legible source := by
  cases value with
  | none =>
    rw [mapExpr?, ofValue]
    exact List.forall_mem_nil _
  | some value =>
    rw [mapExpr?, ofValue]
    exact List.forall_mem_singleton.2 (legible_expr value)

theorem legible_stmt (statement : Stmt Nat) :
    (ofStmt (statement.mapTokens source.token)).Legible source := by
  cases statement with
  | classDef foreign _ name superclass methods =>
    rw [Stmt.mapTokens, ofStmt]
    have listed := legible_methods methods
    refine .form ?_
    cases foreign <;> cases superclass <;>
      simpa [legible_token, Legible.word] using listed
  | importDef _ path imported =>
    rw [Stmt.mapTokens, ofStmt]
    refine legible_named source (List.forall_mem_cons.2 ⟨legible_token source path, ?_⟩)
    cases imported <;> simp [legible_token, Legible.word]
  | varDef _ name initializer =>
    rw [Stmt.mapTokens, ofStmt]
    exact legible_named source
      (List.forall_mem_cons.2 ⟨legible_token source name, legible_value initializer⟩)
  | ifElse _ condition thenBranch elseBranch =>
    rw [Stmt.mapTokens, ofStmt]
    exact legible_named source (List.forall_mem_cons.2 ⟨legible_expr condition,
      List.forall_mem_cons.2 ⟨legible_stmt thenBranch, legible_else elseBranch⟩⟩)
  | forIn _ loopVariable iterator body =>
    rw [Stmt.mapTokens, ofStmt]
    exact legible_named source
      (by simp [legible_token, legible_expr iterator, legible_stmt body])
  | whileDo _ condition body =>
    rw [Stmt.mapTokens, ofStmt]
    exact legible_named source (by simp [legible_expr condition, legible_stmt body])
  | returnValue _ value =>
    rw [Stmt.mapTokens, ofStmt]
    exact legible_named source (legible_value value)
  | breakLoop _ =>
    rw [Stmt.mapTokens, ofStmt]
    exact legible_named source (by simp)
  | block _ statements _ =>
    rw [Stmt.mapTokens, ofStmt]
    exact legible_named source (legible_stmts statements)
  | expression expression =>
    rw [Stmt.mapTokens, ofStmt]
    exact legible_expr expression
end

end Numbered
end Outline

theorem Source.dumpChecked_eq (source : Source) :
    source.parse.module.dumpChecked source = .ok (source.parse.module.dump source) := by
  have passed : ∀ statement ∈ source.parse.module.statements,
      (Outline.ofStmt statement).renderChecked source = .ok (statement.dump source) := by
    rw [(source.parse_numbered rfl).1]
    intro statement member
    obtain ⟨numbered, -, rfl⟩ := List.mem_map.1 member
    exact (Outline.legible_stmt source numbered).renderChecked_eq
  rw [Module.dumpChecked, Checked.mapM_eq passed]
  rfl

end WrenFront
