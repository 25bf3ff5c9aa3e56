import WrenFront.Proofs.Placeholders
import WrenFront.Tree.Outline

/-! Where the nodes of a tree stand in its text. The text of a node holds the texts of the nodes in
it, one after another and in the order they are listed, so what is written for a `null` can be found
in the text of the whole tree. -/

namespace WrenFront

/-- Pieces that stand in a text one after another. -/
inductive Shows : List String → String → Prop where
  | nil {text : String} : Shows [] text
  | cons {piece rest : String} {pieces : List String} (gap : String) (more : Shows pieces rest) :
      Shows (piece :: pieces) (gap ++ (piece ++ rest))

namespace Shows
variable {pieces more : List String} {text rest : String}

theorem self : Shows [text] text := by
  have shows : Shows [text] ("" ++ (text ++ "")) := .cons "" .nil
  rwa [String.append_empty, String.empty_append] at shows

theorem after (start : String) (shows : Shows pieces text) : Shows pieces (start ++ text) := by
  cases shows with
  | nil => exact .nil
  | cons gap more =>
    rw [← String.append_assoc]
    exact .cons (start ++ gap) more

theorem append (first : Shows pieces text) (second : Shows more rest) :
    Shows (pieces ++ more) (text ++ rest) := by
  induction first with
  | nil => exact second.after _
  | cons gap _ ih =>
    rw [String.append_assoc, String.append_assoc]
    exact .cons gap ih

theorem before (last : String) (shows : Shows pieces text) : Shows pieces (text ++ last) := by
  have whole := shows.append (Shows.nil : Shows [] last)
  rwa [List.append_nil] at whole

theorem split (shows : Shows (pieces ++ more) text) :
    ∃ first second, text = first ++ second ∧ Shows pieces first ∧ Shows more second := by
  induction pieces generalizing text with
  | nil => exact ⟨"", text, String.empty_append.symm, .nil, shows⟩
  | cons piece pieces ih =>
    cases shows with
    | cons gap later =>
      obtain ⟨first, second, rfl, front, back⟩ := ih later
      refine ⟨gap ++ (piece ++ first), second, ?_, .cons gap front, back⟩
      rw [String.append_assoc, String.append_assoc]

theorem within {piece : String} (shows : Shows [piece] text) (inside : Shows pieces piece) :
    Shows pieces text := by
  cases shows with
  | cons gap _ => exact (inside.before _).after gap

/-- Whatever shows the one shows the other, item by item. -/
theorem refine {α : Type} {items : List α} {outer inner : α → List String}
    (shows : Shows (items.flatMap outer) text)
    (inside : ∀ item ∈ items, ∀ whole, Shows (outer item) whole → Shows (inner item) whole) :
    Shows (items.flatMap inner) text := by
  induction items generalizing text with
  | nil => exact .nil
  | cons item items ih =>
    obtain ⟨here, others⟩ := List.forall_mem_cons.1 inside
    obtain ⟨first, second, rfl, front, back⟩ := shows.split
    exact (here first front).append (ih back others)

end Shows

/-- Texts that hold the pieces between them, in order. -/
inductive ShowsEach : List String → List String → Prop where
  | nil : ShowsEach [] []
  | cons {pieces more texts : List String} {text : String} (first : Shows pieces text)
      (rest : ShowsEach more texts) : ShowsEach (pieces ++ more) (text :: texts)

theorem ShowsEach.joined {pieces texts : List String} (separator : String)
    (each : ShowsEach pieces texts) :
    Shows pieces (separator.intercalate texts) := by
  induction each with
  | nil => exact .nil
  | @cons pieces more texts text first rest ih =>
    cases texts with
    | nil =>
      cases rest
      rw [List.append_nil, String.intercalate_singleton]
      exact first
    | cons next texts =>
      rw [String.intercalate_cons_cons]
      exact (first.before separator).append ih

/-- What is written for a node. -/
def TreeNode.text (source : Source) : TreeNode Token → String
  | .script module => module.dump source
  | .statement value => value.dump source
  | .method value => " ".intercalate (Outline.renderAll source (Outline.ofMethods [value]))
  | .body value => value.dump source
  | .expression value => (Outline.ofExpr value).render source

/-- What is written for a `null` that holds the token. -/
def Source.nullText (source : Source) (token : Token) : String :=
  (Outline.ofExpr (.null token)).render source

/-- What is written for a part, if it is a node. -/
def Part.texts (source : Source) : Part Token → List String
  | .token _ | .null _ => []
  | .node child | .nested child => [child.text source]

theorem Part.texts_statement (source : Source) (statement : Stmt Token) :
    (Part.statement statement).texts source = [(Outline.ofStmt statement).render source] := by
  cases statement <;> rfl

theorem Part.texts_element (source : Source) (statement : Stmt Token) :
    (Part.element statement).texts source = [(Outline.ofStmt statement).render source] := by
  cases statement <;> rfl

namespace Outline

/-- The nodes among some parts are written, in order, within some items. -/
inductive Holds (source : Source) : List (Part Token) → List Outline → Prop where
  | nil : Holds source [] []
  | token {parts items} (token : Token) (holds : Holds source parts items) :
      Holds source (.token token :: parts) items
  | skip {parts items} (item : Outline) (holds : Holds source parts items) :
      Holds source parts (item :: items)
  | item {parts items} {part : Part Token} {item : Outline}
      (same : part.texts source = [item.render source]) (holds : Holds source parts items) :
      Holds source (part :: parts) (item :: items)
  | within {inner parts innerItems items} (inside : Holds source inner innerItems)
      (holds : Holds source parts items) :
      Holds source (inner ++ parts) (.form innerItems :: items)

variable {source : Source} {parts more : List (Part Token)} {items others : List Outline}

namespace Holds

theorem each (holds : Holds source parts items) :
    ShowsEach (parts.flatMap (Part.texts source)) (renderAll source items) := by
  induction holds with
  | nil => exact .nil
  | token _ _ ih => exact ih
  | skip _ _ ih => exact .cons .nil ih
  | item same _ ih =>
    rw [List.flatMap_cons, same]
    exact .cons .self ih
  | within _ _ inside ih =>
    rw [List.flatMap_append, renderAll, render, enclose]
    exact .cons (((inside.joined " ").after "(").before ")") ih

theorem shows (holds : Holds source parts items) :
    Shows (parts.flatMap (Part.texts source)) ((form items).render source) := by
  rw [render, enclose]
  exact ((holds.each.joined " ").after "(").before ")"

theorem append (first : Holds source parts items) (second : Holds source more others) :
    Holds source (parts ++ more) (items ++ others) := by
  induction first with
  | nil => exact second
  | token token _ ih => exact .token token ih
  | skip item _ ih => exact .skip item ih
  | item same _ ih => exact .item same ih
  | within inside _ _ ih =>
    rw [List.append_assoc]
    exact .within inside ih

theorem none (items : List Outline) : Holds source [] items := by
  induction items with
  | nil => exact .nil
  | cons item items ih => exact .skip item ih

theorem skips (others : List Outline) (holds : Holds source parts items) :
    Holds source parts (others ++ items) :=
  (none others).append holds

theorem tokens (tokens : List Token) (holds : Holds source parts items) :
    Holds source (Part.tokens tokens ++ parts) items := by
  induction tokens with
  | nil => exact holds
  | cons token tokens ih => exact .token token ih

theorem last (token : Token) (holds : Holds source parts items) :
    Holds source (parts ++ [.token token]) items := by
  have whole := holds.append (.token token .nil)
  rwa [List.append_nil] at whole

theorem formed (holds : Holds source parts items) : Holds source parts [form items] := by
  have whole := holds.within .nil
  rwa [List.append_nil] at whole

end Holds

theorem ofExprs_holds (expressions : List (Expr Token)) :
    Holds source (expressions.map .expression) (ofExprs expressions) := by
  induction expressions with
  | nil => exact .nil
  | cons expression rest ih => exact .item rfl ih

theorem ofEntries_holds (entries : List (MapEntry Token)) :
    Holds source (entries.flatMap Part.entry) (ofEntries entries) := by
  induction entries with
  | nil => exact .nil
  | cons entry rest ih =>
    cases entry
    exact .within (.item rfl (.item rfl .nil)) ih

theorem ofParts_holds (segments : List (InterpolationPart Token)) :
    Holds source (segments.flatMap Part.segment) (ofParts segments) := by
  induction segments with
  | nil => exact .nil
  | cons segment rest ih =>
    cases segment
    exact .skip _ (.token _ (.item rfl ih))

theorem ofStmts_holds (statements : List (Stmt Token)) :
    Holds source (statements.map .statement) (ofStmts statements) := by
  induction statements with
  | nil => exact .nil
  | cons statement rest ih => exact .item (Part.texts_statement source statement) ih

theorem ofMethods_holds (methods : List (Method Token)) :
    Holds source (methods.map (.node <| .method ·)) (ofMethods methods) := by
  induction methods with
  | nil => exact .nil
  | cons method rest ih =>
    cases method
    exact .item rfl ih

theorem ofArguments_holds (arguments : Option (List (Expr Token))) :
    Holds source (Part.arguments arguments) (ofArguments arguments) := by
  cases arguments with
  | none => exact .nil
  | some arguments => exact (Holds.skip _ (ofExprs_holds arguments)).formed

theorem ofBlock_holds (block : Option (Body Token)) :
    Holds source (block.toList.map (.node <| .body ·)) (ofBlock block) := by
  cases block with
  | none => exact .nil
  | some body => exact .item rfl .nil

theorem block_holds (block : Option (Body Token)) :
    Holds source (Part.block block) (ofBlock block) := by
  cases block with
  | none => exact .nil
  | some body => exact (Holds.item rfl .nil).tokens _

theorem ofValue_holds (value : Option (Expr Token)) :
    Holds source (value.toList.map .expression) (ofValue value) := by
  cases value with
  | none => exact .nil
  | some value => exact .item rfl .nil

theorem ofElse_holds (statement : Option (Stmt Token)) :
    Holds source (statement.toList.map (.nested <| .statement ·)) (ofElse statement) := by
  cases statement with
  | none => exact .nil
  | some statement => exact .item rfl .nil

theorem ofReceiver_holds (receiver : Option (Expr Token)) :
    Holds source (receiver.toList.map (.node <| .expression ·)) [ofReceiver receiver] := by
  cases receiver with
  | none => exact .skip _ .nil
  | some receiver => exact .item rfl .nil

/-- The text of an expression shows those of the nodes in it. -/
theorem ofExpr_shows (expression : Expr Token) :
    Shows (expression.parts.flatMap (Part.texts source)) ((ofExpr expression).render source) := by
  cases expression with
  | list leftBracket elements rightBracket =>
    exact (Holds.token _ (.skip _ ((ofExprs_holds elements).last _))).shows
  | map leftBrace entries rightBrace =>
    exact (Holds.token _ (.skip _ ((ofEntries_holds entries).last _))).shows
  | grouping leftParen expression rightParen =>
    exact (Holds.token _ (.skip _ (.item rfl (.token _ .nil)))).shows
  | assignment target equal value =>
    exact (Holds.skip _ (.item rfl (.token _ (.item rfl .nil)))).shows
  | conditional condition question thenBranch colon elseBranch =>
    exact (Holds.skip _ (.item rfl (.token _ (.item rfl (.token _ (.item rfl .nil)))))).shows
  | infixOp left operator right =>
    exact (Holds.skip _ (.item rfl (.token _ (.item rfl .nil)))).shows
  | prefixOp operator operand => exact (Holds.skip _ (.token _ (.item rfl .nil))).shows
  | call receiver name arguments block =>
    have written : Holds source _ _ := ((ofReceiver_holds receiver).append (.token name
      (.skip (.leaf name) (ofArguments_holds arguments)))).append (block_holds block)
    by_cases bare : receiver = none ∧ arguments = none ∧ block = none
    · obtain ⟨rfl, rfl, rfl⟩ := bare
      exact .nil
    · rw [ofExpr]
      · exact (written.skip _).shows
      · exact fun receiver arguments block => bare ⟨receiver, arguments, block⟩
  | superCall keyword name arguments block =>
    have written : Holds source _ _ :=
      (ofArguments_holds arguments).append (block_holds block)
    rw [ofExpr, Expr.parts, List.append_assoc, List.cons_append]
    exact (((written.skips (ofOptional name)).tokens _).skip _).shows
  | subscript receiver leftBracket arguments rightBracket =>
    exact (Holds.skip _ (.item rfl (.token _ ((ofExprs_holds arguments).last _)))).shows
  | interpolation segments last =>
    exact (Holds.skip _ ((ofParts_holds segments).append (.token _ (.skip _ .nil)))).shows
  | _ token => exact .nil

/-- The text of a statement shows those of the nodes in it. -/
theorem ofStmt_shows (statement : Stmt Token) :
    Shows (statement.parts.flatMap (Part.texts source)) ((ofStmt statement).render source) := by
  cases statement with
  | classDef foreign keyword name superclass methods =>
    rw [ofStmt, Stmt.parts, List.append_assoc, List.append_assoc]
    exact (Holds.skips _ (.tokens _ (.token _ (.token _ (.skip _ (.skip _ (.tokens _
      (.skips _ (ofMethods_holds methods))))))))).shows
  | importDef keyword path imported =>
    rw [ofStmt, Stmt.parts, ← List.append_nil (Part.tokens? imported)]
    exact (Holds.token _ (.token _ (.tokens _ (.none _)))).shows
  | varDef keyword name initializer =>
    exact (Holds.token _ (.token _ (.skip _ (.skip _ (ofValue_holds initializer))))).shows
  | ifElse keyword condition thenBranch elseBranch =>
    exact (Holds.token _ (.skip _ (.item rfl (.item rfl (ofElse_holds elseBranch))))).shows
  | forIn keyword loopVariable iterator body =>
    exact (Holds.token _ (.token _ (.skip _ (.skip _ (.item rfl (.item rfl .nil)))))).shows
  | whileDo keyword condition body =>
    exact (Holds.token _ (.skip _ (.item rfl (.item rfl .nil)))).shows
  | returnValue keyword value => exact (Holds.token _ (.skip _ (ofValue_holds value))).shows
  | breakLoop keyword => exact .nil
  | block leftBrace statements rightBrace =>
    exact (Holds.token _ (.skip _ ((ofStmts_holds statements).last _))).shows
  | expression value => exact .self

theorem ofBody_shows (body : Body Token) :
    Shows ((TreeNode.body body).parts.flatMap (Part.texts source))
      ((ofBody body).render source) := by
  cases body with
  | single parameters element =>
    exact (Holds.skip _ (.skips _ (.item (Part.texts_element source element) .nil))).shows
  | sequence parameters statements =>
    exact (Holds.skip _ (.skips _ (.formed (.skip _ (ofStmts_holds statements))))).shows

theorem ofMethods_shows (method : Method Token) :
    Shows ((TreeNode.method method).parts.flatMap (Part.texts source))
      (" ".intercalate (renderAll source (ofMethods [method]))) := by
  obtain ⟨foreign, static, construct, name, parameters, body⟩ := method
  rw [ofMethods, TreeNode.parts, List.append_assoc]
  exact (Holds.formed (.skip _ (.tokens _ (.token _ (.tokens _
    (.skips _ (ofBlock_holds body))))))).each.joined " "

theorem renderAll_ofStmts (statements : List (Stmt Token)) :
    renderAll source (ofStmts statements) = statements.map (Stmt.dump source) := by
  induction statements with
  | nil => rfl
  | cons statement rest ih =>
    rw [ofStmts, renderAll, ih]
    rfl

end Outline

namespace TreeNode
variable (source : Source)

/-- The text of a node shows those of the nodes among its parts. -/
theorem text_shows (node : TreeNode Token) :
    Shows (node.parts.flatMap (Part.texts source)) (node.text source) := by
  cases node with
  | script module =>
    have written : Outline.Holds source _ _ := Outline.ofStmts_holds module.statements
    have each := written.each
    rw [Outline.renderAll_ofStmts] at each
    exact each.joined "\n"
  | statement statement => exact Outline.ofStmt_shows statement
  | method method => exact Outline.ofMethods_shows method
  | body body => exact Outline.ofBody_shows body
  | expression expression => exact Outline.ofExpr_shows expression

/-- The text of a node shows what is written for each `null` in it. -/
theorem text_shows_nulls (node : TreeNode Token) (levels : Nat) :
    Shows (((node.marks levels).filterMap Mark.nullNode?).map source.nullText)
      (node.text source) := by
  induction node using TreeNode.induction generalizing levels with
  | step node ih =>
    by_cases null : ∃ token, node = .expression (.null token)
    · obtain ⟨token, rfl⟩ := null
      rw [marks_null]
      exact .self
    rw [marks_eq, List.filterMap_append, nullNode?_other levels null, List.append_nil,
      List.filterMap_flatMap, List.map_flatMap]
    -- A node in the text of this one shows its own, on whichever level it is listed.
    refine (node.text_shows source).refine fun part member whole shows => ?_
    cases part with
    | token token => exact .nil
    | null token => exact .nil
    | node child => exact shows.within (ih child (.inl member) levels)
    | nested child => exact shows.within (ih child (.inr member) (levels + 1))

end TreeNode

theorem Module.dump_shows_nulls (source : Source) (module : Module Token) :
    Shows (module.nulls.map source.nullText) (module.dump source) :=
  (TreeNode.script module).text_shows_nulls source 0

end WrenFront
