import WrenFront.Tree

/-! Trees with every token replaced by another. -/

namespace WrenFront

variable {τ υ : Type}

mutual
def Expr.mapTokens (f : τ → υ) : Expr τ → Expr υ
  | .list leftBracket elements rightBracket =>
    .list (f leftBracket) (mapExprs f elements) (f rightBracket)
  | .map leftBrace entries rightBrace => .map (f leftBrace) (mapEntries f entries) (f rightBrace)
  | .grouping leftParen expression rightParen =>
    .grouping (f leftParen) (expression.mapTokens f) (f rightParen)
  | .this token => .this (f token)
  | .null token => .null (f token)
  | .bool token => .bool (f token)
  | .number token => .number (f token)
  | .string token => .string (f token)
  | .field token => .field (f token)
  | .staticField token => .staticField (f token)
  | .assignment target equal value =>
    .assignment (target.mapTokens f) (f equal) (value.mapTokens f)
  | .conditional condition question thenBranch colon elseBranch =>
    .conditional (condition.mapTokens f) (f question) (thenBranch.mapTokens f) (f colon)
      (elseBranch.mapTokens f)
  | .infixOp left operator right => .infixOp (left.mapTokens f) (f operator) (right.mapTokens f)
  | .prefixOp operator operand => .prefixOp (f operator) (operand.mapTokens f)
  | .call receiver name arguments block =>
    .call (mapExpr? f receiver) (f name) (mapArguments f arguments) (mapBlock f block)
  | .superCall keyword name arguments block =>
    .superCall (f keyword) (name.map f) (mapArguments f arguments) (mapBlock f block)
  | .subscript receiver leftBracket arguments rightBracket =>
    .subscript (receiver.mapTokens f) (f leftBracket) (mapExprs f arguments) (f rightBracket)
  | .interpolation parts last => .interpolation (mapParts f parts) (f last)

def mapExprs (f : τ → υ) : List (Expr τ) → List (Expr υ)
  | [] => []
  | expression :: rest => expression.mapTokens f :: mapExprs f rest

def mapExpr? (f : τ → υ) : Option (Expr τ) → Option (Expr υ)
  | none => none
  | some expression => some (expression.mapTokens f)

def mapArguments (f : τ → υ) : Option (List (Expr τ)) → Option (List (Expr υ))
  | none => none
  | some arguments => some (mapExprs f arguments)

def MapEntry.mapTokens (f : τ → υ) : MapEntry τ → MapEntry υ
  | .mk key value => .mk (key.mapTokens f) (value.mapTokens f)

def mapEntries (f : τ → υ) : List (MapEntry τ) → List (MapEntry υ)
  | [] => []
  | entry :: rest => entry.mapTokens f :: mapEntries f rest

def InterpolationPart.mapTokens (f : τ → υ) : InterpolationPart τ → InterpolationPart υ
  | .mk segment expression => .mk (f segment) (expression.mapTokens f)

def mapParts (f : τ → υ) : List (InterpolationPart τ) → List (InterpolationPart υ)
  | [] => []
  | part :: rest => part.mapTokens f :: mapParts f rest

def Body.mapTokens (f : τ → υ) : Body τ → Body υ
  | .single parameters element => .single (parameters.map (·.map f)) (element.mapTokens f)
  | .sequence parameters statements =>
    .sequence (parameters.map (·.map f)) (mapStmts f statements)

def mapBlock (f : τ → υ) : Option (Body τ) → Option (Body υ)
  | none => none
  | some body => some (body.mapTokens f)

def Method.mapTokens (f : τ → υ) : Method τ → Method υ
  | .mk foreign static construct name parameters body =>
    .mk (foreign.map f) (static.map f) (construct.map f) (f name) (parameters.map (·.map f))
      (mapBlock f body)

def mapMethods (f : τ → υ) : List (Method τ) → List (Method υ)
  | [] => []
  | method :: rest => method.mapTokens f :: mapMethods f rest

def Stmt.mapTokens (f : τ → υ) : Stmt τ → Stmt υ
  | .classDef foreign keyword name superclass methods =>
    .classDef (foreign.map f) (f keyword) (f name) (superclass.map f) (mapMethods f methods)
  | .importDef keyword path imported =>
    .importDef (f keyword) (f path) (imported.map (·.map f))
  | .varDef keyword name initializer => .varDef (f keyword) (f name) (mapExpr? f initializer)
  | .ifElse keyword condition thenBranch elseBranch =>
    .ifElse (f keyword) (condition.mapTokens f) (thenBranch.mapTokens f) (mapStmt? f elseBranch)
  | .forIn keyword loopVariable iterator body =>
    .forIn (f keyword) (f loopVariable) (iterator.mapTokens f) (body.mapTokens f)
  | .whileDo keyword condition body =>
    .whileDo (f keyword) (condition.mapTokens f) (body.mapTokens f)
  | .returnValue keyword value => .returnValue (f keyword) (mapExpr? f value)
  | .breakLoop keyword => .breakLoop (f keyword)
  | .block leftBrace statements rightBrace =>
    .block (f leftBrace) (mapStmts f statements) (f rightBrace)
  | .expression expression => .expression (expression.mapTokens f)

def mapStmt? (f : τ → υ) : Option (Stmt τ) → Option (Stmt υ)
  | none => none
  | some statement => some (statement.mapTokens f)

def mapStmts (f : τ → υ) : List (Stmt τ) → List (Stmt υ)
  | [] => []
  | statement :: rest => statement.mapTokens f :: mapStmts f rest
end

def Module.mapTokens (f : τ → υ) (module : Module τ) : Module υ :=
  ⟨module.statements.map (·.mapTokens f)⟩

mutual
theorem Expr.mapTokens_id (expression : Expr τ) : expression.mapTokens id = expression := by
  cases expression with
  | list _ elements _ => simp only [Expr.mapTokens, id_eq, mapExprs_id elements]
  | map _ entries _ => simp only [Expr.mapTokens, id_eq, mapEntries_id entries]
  | grouping _ expression _ => simp only [Expr.mapTokens, id_eq, expression.mapTokens_id]
  | assignment target _ value =>
    simp only [Expr.mapTokens, id_eq, target.mapTokens_id, value.mapTokens_id]
  | conditional condition _ thenBranch _ elseBranch =>
    simp only [Expr.mapTokens, id_eq, condition.mapTokens_id, thenBranch.mapTokens_id,
      elseBranch.mapTokens_id]
  | infixOp left _ right =>
    simp only [Expr.mapTokens, id_eq, left.mapTokens_id, right.mapTokens_id]
  | prefixOp _ operand => simp only [Expr.mapTokens, id_eq, operand.mapTokens_id]
  | call receiver _ arguments block =>
    simp only [Expr.mapTokens, id_eq, mapExpr?_id receiver, mapArguments_id arguments,
      mapBlock_id block]
  | superCall _ _ arguments block =>
    simp only [Expr.mapTokens, id_eq, Option.map_id, mapArguments_id arguments, mapBlock_id block]
  | subscript receiver _ arguments _ =>
    simp only [Expr.mapTokens, id_eq, receiver.mapTokens_id, mapExprs_id arguments]
  | interpolation parts _ => simp only [Expr.mapTokens, id_eq, mapParts_id parts]
  | _ => simp only [Expr.mapTokens, id_eq]

theorem mapExprs_id (expressions : List (Expr τ)) : mapExprs id expressions = expressions := by
  cases expressions with
  | nil => simp only [mapExprs]
  | cons expression rest => simp only [mapExprs, expression.mapTokens_id, mapExprs_id rest]

theorem mapExpr?_id (expression : Option (Expr τ)) : mapExpr? id expression = expression := by
  cases expression with
  | none => simp only [mapExpr?]
  | some expression => simp only [mapExpr?, expression.mapTokens_id]

theorem mapArguments_id (arguments : Option (List (Expr τ))) :
    mapArguments id arguments = arguments := by
  cases arguments with
  | none => simp only [mapArguments]
  | some arguments => simp only [mapArguments, mapExprs_id arguments]

theorem MapEntry.mapTokens_id (entry : MapEntry τ) : entry.mapTokens id = entry := by
  cases entry with
  | mk key value => simp only [MapEntry.mapTokens, key.mapTokens_id, value.mapTokens_id]

theorem mapEntries_id (entries : List (MapEntry τ)) : mapEntries id entries = entries := by
  cases entries with
  | nil => simp only [mapEntries]
  | cons entry rest => simp only [mapEntries, entry.mapTokens_id, mapEntries_id rest]

theorem InterpolationPart.mapTokens_id (part : InterpolationPart τ) : part.mapTokens id = part := by
  cases part with
  | mk _ expression => simp only [InterpolationPart.mapTokens, id_eq, expression.mapTokens_id]

theorem mapParts_id (parts : List (InterpolationPart τ)) : mapParts id parts = parts := by
  cases parts with
  | nil => simp only [mapParts]
  | cons part rest => simp only [mapParts, part.mapTokens_id, mapParts_id rest]

theorem Body.mapTokens_id (body : Body τ) : body.mapTokens id = body := by
  cases body with
  | single _ element =>
    simp only [Body.mapTokens, List.map_id_fun, id_eq, Option.map_id_apply', element.mapTokens_id]
  | sequence _ statements =>
    simp only [Body.mapTokens, List.map_id_fun, id_eq, Option.map_id_apply', mapStmts_id statements]

theorem mapBlock_id (block : Option (Body τ)) : mapBlock id block = block := by
  cases block with
  | none => simp only [mapBlock]
  | some body => simp only [mapBlock, body.mapTokens_id]

theorem Method.mapTokens_id (method : Method τ) : method.mapTokens id = method := by
  cases method with
  | mk _ _ _ _ _ body =>
    simp only [Method.mapTokens, id_eq, List.map_id_fun, Option.map_id, Option.map_id_apply',
      mapBlock_id body]

theorem mapMethods_id (methods : List (Method τ)) : mapMethods id methods = methods := by
  cases methods with
  | nil => simp only [mapMethods]
  | cons method rest => simp only [mapMethods, method.mapTokens_id, mapMethods_id rest]

theorem Stmt.mapTokens_id (statement : Stmt τ) : statement.mapTokens id = statement := by
  cases statement with
  | classDef _ _ _ _ methods =>
    simp only [Stmt.mapTokens, id_eq, Option.map_id, mapMethods_id methods]
  | importDef _ _ _ => simp only [Stmt.mapTokens, id_eq, List.map_id_fun, Option.map_id_apply']
  | varDef _ _ initializer => simp only [Stmt.mapTokens, id_eq, mapExpr?_id initializer]
  | ifElse _ condition thenBranch elseBranch =>
    simp only [Stmt.mapTokens, id_eq, condition.mapTokens_id, thenBranch.mapTokens_id,
      mapStmt?_id elseBranch]
  | forIn _ _ iterator body =>
    simp only [Stmt.mapTokens, id_eq, iterator.mapTokens_id, body.mapTokens_id]
  | whileDo _ condition body =>
    simp only [Stmt.mapTokens, id_eq, condition.mapTokens_id, body.mapTokens_id]
  | returnValue _ value => simp only [Stmt.mapTokens, id_eq, mapExpr?_id value]
  | breakLoop _ => simp only [Stmt.mapTokens, id_eq]
  | block _ statements _ => simp only [Stmt.mapTokens, id_eq, mapStmts_id statements]
  | expression expression => simp only [Stmt.mapTokens, expression.mapTokens_id]

theorem mapStmt?_id (statement : Option (Stmt τ)) : mapStmt? id statement = statement := by
  cases statement with
  | none => simp only [mapStmt?]
  | some statement => simp only [mapStmt?, statement.mapTokens_id]

theorem mapStmts_id (statements : List (Stmt τ)) : mapStmts id statements = statements := by
  cases statements with
  | nil => simp only [mapStmts]
  | cons statement rest => simp only [mapStmts, statement.mapTokens_id, mapStmts_id rest]
end

@[simp]
theorem mapExprs_eq_map (f : τ → υ) (expressions : List (Expr τ)) :
    mapExprs f expressions = expressions.map (·.mapTokens f) := by
  induction expressions with
  | nil => simp [mapExprs]
  | cons expression rest ih => simp [mapExprs, ih]

@[simp]
theorem mapEntries_eq_map (f : τ → υ) (entries : List (MapEntry τ)) :
    mapEntries f entries = entries.map (·.mapTokens f) := by
  induction entries with
  | nil => simp [mapEntries]
  | cons entry rest ih => simp [mapEntries, ih]

@[simp]
theorem mapParts_eq_map (f : τ → υ) (parts : List (InterpolationPart τ)) :
    mapParts f parts = parts.map (·.mapTokens f) := by
  induction parts with
  | nil => simp [mapParts]
  | cons part rest ih => simp [mapParts, ih]

@[simp]
theorem mapMethods_eq_map (f : τ → υ) (methods : List (Method τ)) :
    mapMethods f methods = methods.map (·.mapTokens f) := by
  induction methods with
  | nil => simp [mapMethods]
  | cons method rest ih => simp [mapMethods, ih]

@[simp]
theorem mapStmts_eq_map (f : τ → υ) (statements : List (Stmt τ)) :
    mapStmts f statements = statements.map (·.mapTokens f) := by
  induction statements with
  | nil => simp [mapStmts]
  | cons statement rest ih => simp [mapStmts, ih]

@[simp]
theorem mapExpr?_eq_map (f : τ → υ) (expression : Option (Expr τ)) :
    mapExpr? f expression = expression.map (·.mapTokens f) := by
  cases expression <;> simp [mapExpr?]

@[simp]
theorem mapStmt?_eq_map (f : τ → υ) (statement : Option (Stmt τ)) :
    mapStmt? f statement = statement.map (·.mapTokens f) := by
  cases statement <;> simp [mapStmt?]

@[simp]
theorem mapArguments_eq_map (f : τ → υ) (arguments : Option (List (Expr τ))) :
    mapArguments f arguments = arguments.map (·.map (·.mapTokens f)) := by
  cases arguments <;> simp [mapArguments]

@[simp]
theorem mapBlock_eq_map (f : τ → υ) (block : Option (Body τ)) :
    mapBlock f block = block.map (·.mapTokens f) := by
  cases block <;> simp [mapBlock]

theorem Module.mapTokens_id (module : Module τ) : module.mapTokens id = module := by
  simp [Module.mapTokens, Stmt.mapTokens_id]

end WrenFront
