import WrenFront.Proofs.FormReading

/-! Expressions that can be read back from their forms. A leaf shows its kind by how it is spelled,
and a form by what it begins with, node by node. -/

namespace WrenFront

open Sexp (Slot Fits solid)

theorem Text.isWord_solid {char : Char} (word : Text.isWord char) : solid char := by
  have others : ∀ other ∈ [' ', '(', ')', '"', '\n'], Text.isWord other = false := by decide
  cases isSolid : solid char with
  | true => rfl
  | false =>
    rw [solid, Bool.not_eq_false', List.contains_iff_mem] at isSolid
    rw [others char isSolid] at word
    cases word

theorem Text.letter_not_digit {char : Char} (letter : char.isAlpha) : char.isDigit = false := by
  rw [Bool.eq_false_iff]
  intro digit
  have most : char.val ≤ 57 := of_decide_eq_true (Bool.and_eq_true_iff.1 digit).2
  have least : 65 ≤ char.val := by
    rcases Bool.or_eq_true_iff.1 letter with upper | lower
    · exact (of_decide_eq_true upper).1
    · have least : 97 ≤ char.val := of_decide_eq_true (Bool.and_eq_true_iff.1 lower).1
      exact UInt32.le_trans (by decide) least
  exact absurd (UInt32.le_trans least most) (by decide)

namespace TokenKind

/-- The kinds that are not written as words. -/
def wordless : List TokenKind :=
  [.leftParen, .rightParen, .string, .interpolation, .line, .error, .eof]

/-- The operators that begin with a bar. -/
def barred : List TokenKind :=
  [.pipe, .pipePipe]

theorem fixed_solid : ∀ kind ∈ punctuators ++ keywords, kind ∉ wordless →
    ∀ text ∈ kind.spelling?, text.toList ≠ [] ∧ (∀ char ∈ text.toList, solid char) ∧
      (text.toList.head? = some '|' → kind ∈ barred) := by
  decide

namespace Spells
variable {kind : TokenKind} {text : String}

theorem fixed (spells : kind.Spells text) (listed : kind ∈ punctuators ++ keywords) :
    kind.spelling? = some text := by
  cases kind <;> first | exact spells | exact absurd listed (by decide)

theorem solid (spells : kind.Spells text) (word : kind ∉ wordless) :
    text.toList ≠ [] ∧ (∀ char ∈ text.toList, Sexp.solid char) ∧
      (text.toList.head? = some '|' → kind ∈ barred) := by
  have ofWord {first : Char} {rest : List Char} (word : Text.Word text)
      (chained : text.toList = first :: rest) : text.toList ≠ [] ∧
        (∀ char ∈ text.toList, Sexp.solid char) ∧
          (text.toList.head? = some '|' → kind ∈ barred) := by
    refine ⟨by simp [chained], fun char member => Text.isWord_solid (word char member), ?_⟩
    intro bar
    exact absurd (word '|' (List.mem_of_mem_head? bar)) (by decide)
  cases kind with
  | name =>
    obtain ⟨word, ⟨first, rest, chained, -⟩, -⟩ := spells
    exact ofWord word chained
  | number =>
    obtain ⟨word, first, rest, chained, -⟩ := spells
    exact ofWord word chained
  | field =>
    obtain ⟨word, rest, chained, -⟩ := spells
    exact ofWord word chained
  | staticField =>
    obtain ⟨word, rest, chained⟩ := spells
    exact ofWord word chained
  | string | interpolation | line | error | eof => exact absurd (by decide) word
  | _ => exact fixed_solid _ (by decide) word text (spells.fixed (by decide))

theorem fits (spells : kind.Spells text) (word : kind ∉ wordless) (plain : kind ∉ barred) :
    (Sexp.word text).Fits .plain := by
  obtain ⟨some, solids, bar⟩ := spells.solid word
  exact ⟨nofun, some, solids, fun head => absurd (bar head) plain⟩

theorem fits_method (spells : kind.Spells text) (word : kind ∉ wordless) :
    (Sexp.word text).Fits .method := by
  obtain ⟨some, solids, -⟩ := spells.solid word
  exact ⟨nofun, some, solids, fun _ => rfl⟩

/-- How a word is read that is no keyword. -/
theorem ofWord_eq {first : Char} {rest : List Char} (chained : text.toList = first :: rest)
    (unlisted : ∀ keyword ∈ keywords, keyword.spelling? ≠ some text) :
    Expr.ofWord text = if first = '_' ∧ rest.head? = some '_' then .staticField text
      else if first = '_' then .field text
      else if first.isDigit then .number text
      else .call none text none none := by
  have others : text ≠ "this" ∧ text ≠ "null" ∧ text ≠ "true" ∧ text ≠ "false" := by
    refine ⟨?_, ?_, ?_, ?_⟩ <;> rintro rfl
    · exact unlisted .kwThis (by decide) rfl
    · exact unlisted .kwNull (by decide) rfl
    · exact unlisted .kwTrue (by decide) rfl
    · exact unlisted .kwFalse (by decide) rfl
  cases rest <;> simp [Expr.ofWord, others, chained]

/-- Keywords begin with letters. -/
theorem keyword_first {first : Char} {rest : List Char} (chained : text.toList = first :: rest)
    (other : first.isDigit ∨ first = '_') :
    ∀ keyword ∈ keywords, keyword.spelling? ≠ some text := by
  have letters : ∀ keyword ∈ keywords, ∀ text ∈ keyword.spelling?,
      ∀ first ∈ text.toList.take 1, ¬ (first.isDigit ∨ first = '_') := by decide
  intro keyword listed spelled
  exact letters keyword listed text spelled first (by simp [chained]) other

theorem ofWord_this (spells : kwThis.Spells text) : Expr.ofWord text = .this text := by
  obtain rfl : "this" = text := Option.some.inj spells
  rfl

theorem ofWord_null (spells : kwNull.Spells text) : Expr.ofWord text = .null text := by
  obtain rfl : "null" = text := Option.some.inj spells
  rfl

theorem ofWord_bool (bool : kind = .kwTrue ∨ kind = .kwFalse) (spells : kind.Spells text) :
    Expr.ofWord text = .bool text := by
  rcases bool with rfl | rfl
  · obtain rfl : "true" = text := Option.some.inj spells
    rfl
  · obtain rfl : "false" = text := Option.some.inj spells
    rfl

theorem ofWord_name (spells : name.Spells text) : Expr.ofWord text = .call none text none none := by
  obtain ⟨-, ⟨first, rest, chained, alpha⟩, unlisted⟩ := spells
  have other : first ≠ '_' := by
    rintro rfl
    cases alpha
  simp [ofWord_eq chained unlisted, other, Text.letter_not_digit alpha]

theorem ofWord_number (spells : number.Spells text) : Expr.ofWord text = .number text := by
  obtain ⟨-, first, rest, chained, digit⟩ := spells
  have other : first ≠ '_' := by
    rintro rfl
    cases digit
  simp [ofWord_eq chained (keyword_first chained (.inl digit)), other, digit]

theorem ofWord_field (spells : field.Spells text) : Expr.ofWord text = .field text := by
  obtain ⟨-, rest, chained, single⟩ := spells
  simp [ofWord_eq chained (keyword_first chained (.inr rfl)), single]

theorem ofWord_staticField (spells : staticField.Spells text) :
    Expr.ofWord text = .staticField text := by
  obtain ⟨-, rest, chained⟩ := spells
  simp [ofWord_eq chained (keyword_first chained (.inr rfl))]

end Spells
end TokenKind

namespace Sexp

theorem operators_eq : operators = ["||", "&&", "==", "!=", "is", "<", "<=", ">", ">=", "|", "^",
    "&", "<<", ">>", "..", "...", "+", "-", "*", "/", "%", "!", "~"] := by
  decide

theorem mem_operators {kind : TokenKind} {text : String}
    (operator : kind.isInfixOperator ∨ kind.isPrefixOperator) (spells : kind.Spells text) :
    text ∈ operators := by
  have kinds : ∀ kind ∈ TokenKind.all, kind.isInfixOperator ∨ kind.isPrefixOperator →
      kind ∈ TokenKind.infixLevels.flatten ++ [TokenKind.bang, TokenKind.tilde] ∧
        kind ∈ TokenKind.punctuators ++ TokenKind.keywords := by decide
  obtain ⟨listed, fixed⟩ := kinds kind (by cases kind <;> decide) operator
  exact List.mem_filterMap.2 ⟨kind, listed, spells.fixed fixed⟩

/-- What the form of an expression can begin with, and the slot of its items. -/
def Heads (head : String) (inside : Slot) : Prop :=
  (∀ char ∈ head.toList, solid char) ∧ head ∉ statements ∧ Slot.inside .plain head = inside

instance (head : String) (inside : Slot) : Decidable (Heads head inside) :=
  inferInstanceAs (Decidable (_ ∧ _ ∧ _))

theorem fits_form {slot : Slot} {head : String} {items : List Sexp} (other : slot ≠ .map)
    (solids : ∀ char ∈ head.toList, solid char) (inside : slot.inside head = .plain)
    (fits : ∀ item ∈ items, item.Fits .plain) : (form head items).Fits slot := by
  rw [Fits, inside]
  exact ⟨other, solids, by simpa using fits⟩

theorem operators_head : ∀ head ∈ operators, Heads head .plain := by
  decide

end Sexp

/-- What is written for an expression can be read back, also where a statement can stand. -/
structure Expr.Legible (expression : Expr String) : Prop where
  fits : expression.sexp.Fits .plain
  read : expression.sexp.toExpr = expression
  alone : expression.sexp.toStmt = .expression expression

/-- What is written for a body can be read back. -/
def Body.Legible (body : Body String) : Prop :=
  ∃ items, body.sexp = .form "body" items ∧ (∀ item ∈ items, item.Fits .plain) ∧
    Sexp.toBody items = body

/-- A row of nodes can be read back if each of them can. -/
theorem Sexp.map_read {α : Type} {values : List α} {write : α → Sexp} {read : Sexp → α}
    (holds : ∀ value ∈ values, read (write value) = value) :
    (values.map write).map read = values := by
  rw [List.map_map]
  exact (List.map_congr_left holds).trans (List.map_id values)

namespace Expr.Legible
open Sexp

variable {expression : Expr String}

theorem form (head : String) (inside : Slot) {items : List Sexp}
    (written : expression.sexp = .form head items) (heads : Heads head inside)
    (fits : ∀ item ∈ items, item.Fits inside)
    (read : (Sexp.form head items).toExpr = expression) : expression.Legible := by
  obtain ⟨solids, other, rfl⟩ := heads
  rw [← written] at read
  refine ⟨?_, read, ?_⟩
  · rw [written]
    exact ⟨by decide, solids, by simpa using fits⟩
  · conv => rhs; rw [← read]
    rw [written, toStmt, if_neg other]

theorem leaf {kind : TokenKind} {text : String} (written : expression.sexp = .word text)
    (word : kind ∉ TokenKind.wordless ∧ kind ∉ TokenKind.barred) (spells : kind.Spells text)
    (read : Expr.ofWord text = expression) : expression.Legible := by
  refine ⟨?_, ?_, ?_⟩
  · rw [written]
    exact spells.fits word.1 word.2
  · rw [written, toExpr, read]
  · rw [written, toStmt, toExpr, read]
    intro _ _ same
    cases same

theorem string {text : String} (segment : Text.Segment text) : (Expr.string text).Legible := by
  refine ⟨⟨by decide, segment⟩, ?_, ?_⟩
  · rw [Expr.sexp, toExpr]
  · rw [Expr.sexp, toStmt, toExpr]
    intro _ _ same
    cases same

section Children
variable {first second third : Expr String} {expressions : List (Expr String)}

theorem list (legible : ∀ element ∈ expressions, element.Legible) :
    (Expr.list "" expressions "").Legible := by
  refine form "list" .plain rfl (by decide) ?_ ?_
  · simpa using fun element member => (legible element member).fits
  · have elements := map_read fun element member => (legible element member).read
    simpa [toExpr, operators_eq] using elements

theorem grouping (legible : first.Legible) : (Expr.grouping "" first "").Legible := by
  refine form "group" .plain rfl (by decide) ?_ ?_
  · simpa using legible.fits
  · simp [toExpr, operators_eq, toFixed, legible.read]

theorem assignment (target : first.Legible) (value : second.Legible) :
    (Expr.assignment first "" second).Legible := by
  refine form "=" .plain rfl (by decide) ?_ ?_
  · simpa using ⟨target.fits, value.fits⟩
  · simp [toExpr, operators_eq, toFixed, target.read, value.read]

theorem conditional (condition : first.Legible) (thenBranch : second.Legible)
    (elseBranch : third.Legible) : (Expr.conditional first "" second "" third).Legible := by
  refine form "?" .plain rfl (by decide) ?_ ?_
  · simpa using ⟨condition.fits, thenBranch.fits, elseBranch.fits⟩
  · simp [toExpr, operators_eq, toFixed, condition.read, thenBranch.read, elseBranch.read]

theorem infixOp {operator : String} (known : operator ∈ operators) (left : first.Legible)
    (right : second.Legible) : (Expr.infixOp first operator second).Legible := by
  refine form operator .plain rfl (operators_head _ known) ?_ ?_
  · simpa using ⟨left.fits, right.fits⟩
  · simp [toExpr, known, toOperation, left.read, right.read]

theorem prefixOp {operator : String} (known : operator ∈ operators) (operand : first.Legible) :
    (Expr.prefixOp operator first).Legible := by
  refine form operator .plain rfl (operators_head _ known) ?_ ?_
  · simpa using operand.fits
  · simp [toExpr, known, toOperation, operand.read]

theorem subscript (receiver : first.Legible) (some : expressions ≠ [])
    (legible : ∀ argument ∈ expressions, argument.Legible) :
    (Expr.subscript first "" expressions "").Legible := by
  refine form "subscript" .plain rfl (by decide) ?_ ?_
  · simpa using ⟨receiver.fits, fun argument member => (legible argument member).fits⟩
  · have arguments := map_read fun argument member => (legible argument member).read
    obtain ⟨argument, rest, rfl⟩ := List.exists_cons_of_ne_nil some
    simpa [toExpr, operators_eq, toFixed, receiver.read] using arguments

end Children

theorem entries (rows : List (MapEntry String))
    (legible : ∀ key value, .mk key value ∈ rows → key.Legible ∧ value.Legible) :
    (∀ item ∈ sexpEntries rows, item.Fits .map) ∧ toEntries (sexpEntries rows) = rows := by
  induction rows with
  | nil => simp [sexpEntries, toEntries]
  | cons entry rest ih =>
    obtain ⟨key, value⟩ := entry
    obtain ⟨first, second⟩ := legible key value List.mem_cons_self
    obtain ⟨fits, read⟩ := ih fun key value member =>
      legible key value (List.mem_cons_of_mem _ member)
    rw [sexpEntries, toEntries, first.read, second.read, read]
    exact ⟨List.forall_mem_cons.2 ⟨⟨rfl, first.fits, second.fits⟩, fits⟩, rfl⟩

theorem map {rows : List (MapEntry String)}
    (legible : ∀ key value, .mk key value ∈ rows → key.Legible ∧ value.Legible) :
    (Expr.map "" rows "").Legible := by
  obtain ⟨fits, read⟩ := entries rows legible
  refine form "map" .map rfl (by decide) fits ?_
  rw [toExpr, if_neg (by decide), if_neg (by decide), if_pos rfl, read]

/-- The segments and the expressions of an interpolated string, with an item after them. -/
theorem parts (rows : List (InterpolationPart String)) (last : Sexp)
    (legible : ∀ segment expression, .mk segment expression ∈ rows →
      Text.Segment segment ∧ expression.Legible) :
    (∀ item ∈ sexpParts rows, item.Fits .plain) ∧ toParts (sexpParts rows ++ [last]) = rows := by
  induction rows with
  | nil => simp [sexpParts, toParts]
  | cons part rest ih =>
    obtain ⟨segment, expression⟩ := part
    obtain ⟨spelled, holds⟩ := legible segment expression List.mem_cons_self
    obtain ⟨fits, read⟩ := ih fun segment expression member =>
      legible segment expression (List.mem_cons_of_mem _ member)
    rw [sexpParts, List.cons_append, List.cons_append, toParts, holds.read, read]
    have fitsSegment : (Sexp.segment segment).Fits .plain := ⟨by decide, spelled⟩
    exact ⟨List.forall_mem_cons.2 ⟨fitsSegment, List.forall_mem_cons.2 ⟨holds.fits, fits⟩⟩, rfl⟩

theorem interpolation {rows : List (InterpolationPart String)} {last : String}
    (legible : ∀ segment expression, .mk segment expression ∈ rows →
      Text.Segment segment ∧ expression.Legible) (spelled : Text.Segment last) :
    (Expr.interpolation rows last).Legible := by
  obtain ⟨fits, read⟩ := parts rows (.segment last) legible
  have fitsLast : (Sexp.segment last).Fits .plain := ⟨by decide, spelled⟩
  refine form "interp" .plain rfl (by decide) ?_ ?_
  · simpa [or_imp, forall_and, fitsLast] using fits
  · rw [toExpr, if_neg (by decide), if_neg (by decide), if_neg (by decide), if_pos rfl, read]
    simp [Sexp.text]

/-- What is written for a missing receiver. -/
theorem underscore : (Expr.field "_").Legible := by
  have word : Text.Word "_" := by
    rw [Text.Word]
    decide
  have spells : TokenKind.field.Spells "_" := ⟨word, [], rfl, nofun⟩
  exact leaf rfl (by decide) spells spells.ofWord_field

section Calls
variable {arguments : Option (List (Expr String))} {block : Option (Body String)}

/-- What follows the name of a call. -/
theorem callTail (given : ∀ list ∈ arguments, ∀ argument ∈ list, argument.Legible)
    (held : ∀ body ∈ block, body.Legible) :
    ∃ items, sexpArguments arguments ++ sexpBlock block = items ∧
      (∀ item ∈ items, item.Fits .plain) ∧ words items = [] ∧
      toArguments items = arguments ∧ toBlock items = block := by
  have bodied : ∀ body ∈ block, ∃ items, body.sexp = .form "body" items ∧
      (Sexp.form "body" items).Fits .plain ∧ toBody items = body := by
    intro body member
    obtain ⟨items, written, fits, read⟩ := held body member
    exact ⟨items, written, fits_form (by decide) (by decide) (by decide) fits, read⟩
  refine ⟨_, rfl, ?_⟩
  cases arguments with
  | none =>
    cases block with
    | none => simp [sexpArguments, sexpBlock, words, toArguments, toBlock]
    | some body =>
      obtain ⟨items, written, fits, read⟩ := bodied body rfl
      simpa [sexpArguments, sexpBlock, written, words, toArguments, toBlock, read] using fits
  | some list =>
    have fits : (Sexp.form "args" (list.map Expr.sexp)).Fits .plain := by
      refine fits_form (by decide) (by decide) (by decide) ?_
      simpa using fun value member => (given list rfl value member).fits
    have read : (list.map Expr.sexp).map toExpr = list :=
      map_read fun value member => (given list rfl value member).read
    rw [sexpArguments, sexpExprs_eq_map]
    cases block with
    | none => simpa [sexpBlock, words, toArguments, toBlock, fits] using read
    | some body =>
      obtain ⟨items, written, fitsBody, readBody⟩ := bodied body rfl
      simpa [sexpBlock, written, words, toArguments, toBlock, fits, fitsBody, readBody] using read

theorem call {receiver : Expr String} {name : String} (spells : TokenKind.name.Spells name)
    (target : receiver.Legible) (given : ∀ list ∈ arguments, ∀ argument ∈ list, argument.Legible)
    (held : ∀ body ∈ block, body.Legible) :
    (Expr.call (some receiver) name arguments block).Legible := by
  obtain ⟨items, same, fits, -, readArguments, readBlock⟩ := callTail given held
  have written : (Expr.call (some receiver) name arguments block).sexp =
      .form "call" (receiver.sexp :: .word name :: items) := by rw [Expr.sexp, same]
  refine form "call" .plain written (by decide) ?_ ?_
  · exact List.forall_mem_cons.2 ⟨target.fits,
      List.forall_mem_cons.2 ⟨spells.fits (by decide) (by decide), fits⟩⟩
  · simp [toExpr, operators_eq, toFixed, target.read, readArguments, readBlock, Sexp.text]

theorem superCall {name : Option String} (spells : ∀ text ∈ name, TokenKind.name.Spells text)
    (given : ∀ list ∈ arguments, ∀ argument ∈ list, argument.Legible)
    (held : ∀ body ∈ block, body.Legible) :
    (Expr.superCall "" name arguments block).Legible := by
  obtain ⟨items, same, fits, noWords, readArguments, readBlock⟩ := callTail given held
  have written : (Expr.superCall "" name arguments block).sexp =
      .form "super" (name.toList.map .word ++ items) := by rw [Expr.sexp, same]
  refine form "super" .plain written (by decide) ?_ ?_
  · cases name with
    | none => exact fits
    | some text =>
      exact List.forall_mem_cons.2 ⟨(spells text rfl).fits (by decide) (by decide), fits⟩
  · cases name <;>
      simp [toExpr, operators_eq, words, toArguments, toBlock, noWords, readArguments, readBlock]

end Calls
end Expr.Legible
end WrenFront
