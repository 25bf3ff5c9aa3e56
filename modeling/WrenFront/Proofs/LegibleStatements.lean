import WrenFront.Proofs.LegibleExpressions
import WrenFront.Proofs.TreeShapes

/-! Statements, bodies and methods that can be read back from their forms. -/

namespace WrenFront

open Sexp (Slot Fits solid)

namespace Sexp

theorem statements_head : ∀ head ∈ statements,
    (∀ char ∈ head.toList, solid char) ∧ Slot.inside .plain head = .plain := by
  decide

/-- The words that a class and an import hold apart from names. -/
theorem word_fits {text : String} (listed : text ∈ ["class", "is", "for"]) :
    (word text).Fits .plain := by
  have solids : ∀ text ∈ ["class", "is", "for"], text.toList ≠ [] ∧
      (∀ char ∈ text.toList, solid char) ∧ text.toList.head? ≠ some '|' := by decide
  obtain ⟨some, solids, other⟩ := solids text listed
  exact ⟨by decide, some, solids, fun bar => absurd bar other⟩

/-- Names that are written as words. -/
theorem names_fit {names : List String} (spells : ∀ name ∈ names, TokenKind.name.Spells name) :
    ∀ item ∈ names.map word, item.Fits .plain :=
  List.forall_mem_map.2 fun name member => (spells name member).fits (by decide) (by decide)

end Sexp

structure Stmt.Legible (statement : Stmt String) : Prop where
  fits : statement.sexp.Fits .plain
  read : statement.sexp.toStmt = statement

namespace Body
open Sexp

variable {parameters : Option (List String)}

/-- A body is read back with its parameters, if what is in it can be. -/
theorem legible_intro {body : Body String} {content : Sexp}
    (written : body.sexp = .form "body" (parameters.toList.map .bars ++ [content]))
    (spells : ∀ name ∈ parameters.getD [], TokenKind.name.Spells name)
    (fits : content.Fits .plain) (read : Body.ofElement parameters content.toStmt = body) :
    body.Legible := by
  refine ⟨_, written, ?_, ?_⟩
  · cases parameters with
    | none => simpa using fits
    | some names =>
      have bars : (Sexp.bars names).Fits .plain :=
        ⟨rfl, fun name member => ⟨((spells name member).solid (by decide)).1,
          (spells name member).1⟩⟩
      simp [fits, bars]
  · cases parameters with
    | none => simpa [toBody] using read
    | some names => simpa [toBody] using read

theorem legible_single {element : Stmt String} (isElement : element.isElement)
    (spells : ∀ name ∈ parameters.getD [], TokenKind.name.Spells name)
    (legible : element.Legible) : (Body.single parameters element).Legible := by
  refine legible_intro rfl spells legible.fits ?_
  rw [legible.read]
  cases element <;> first | rfl | cases isElement

theorem legible_sequence {statements : List (Stmt String)}
    (spells : ∀ name ∈ parameters.getD [], TokenKind.name.Spells name)
    (legible : ∀ statement ∈ statements, statement.Legible) :
    (Body.sequence parameters statements).Legible := by
  refine legible_intro rfl spells ?_ ?_
  · refine fits_form (by decide) (by decide) (by decide) ?_
    simpa using fun statement member => (legible statement member).fits
  · have read := map_read fun statement member => (legible statement member).read
    rw [toStmt, if_pos (by decide), toStatement]
    simpa [Body.ofElement] using read

end Body

namespace Method
open Sexp

/-- A method among others is read back from its own form. -/
def Legible (method : Method String) : Prop :=
  ∃ items, (∀ rest, sexpMethods (method :: rest) = .form "method" items :: sexpMethods rest) ∧
    (∀ item ∈ items, item.Fits .method) ∧
      ∀ rest, toMethods (.form "method" items :: rest) = method :: toMethods rest

/-- The words in front of a method's name are told from the name. -/
theorem ofWords_announced {foreign static construct : Option String} {name : String}
    (first : ∀ word ∈ foreign, word = "foreign") (second : ∀ word ∈ static, word = "static")
    (third : ∀ word ∈ construct, word = "construct")
    (other : name ≠ "foreign" ∧ name ≠ "static" ∧ name ≠ "construct")
    (parameters : Option (List String)) (body : Option (Body String)) :
    ofWords (announced foreign static construct name) parameters body =
        .mk foreign static construct name parameters body ∧
      (announced foreign static construct name).contains "foreign" = foreign.isSome := by
  obtain ⟨notForeign, notStatic, notConstruct⟩ := other
  cases foreign <;> cases static <;> cases construct <;> simp at first second third <;>
    subst_vars <;> simp [announced, ofWords, notForeign, notStatic, notConstruct, notForeign.symm]

/-- A method's name is none of the words that stand in front of it. -/
theorem signature_unlike {kind : TokenKind} {text : String}
    (front : kind ∈ Grammar.signatureFronts) (spells : kind.Spells text) :
    text ≠ "foreign" ∧ text ≠ "static" ∧ text ≠ "construct" := by
  by_cases isName : kind = .name
  · subst isName
    obtain ⟨-, -, unlisted⟩ := spells
    refine ⟨?_, ?_, ?_⟩ <;> rintro rfl
    · exact unlisted .kwForeign (by decide) rfl
    · exact unlisted .kwStatic (by decide) rfl
    · exact unlisted .kwConstruct (by decide) rfl
  · have operators : ∀ kind ∈ Grammar.signatureFronts, kind ≠ .name →
        kind ∈ TokenKind.punctuators ++ TokenKind.keywords ∧ ∀ text ∈ kind.spelling?,
          text ≠ "foreign" ∧ text ≠ "static" ∧ text ≠ "construct" := by decide
    obtain ⟨listed, others⟩ := operators kind front isName
    exact others text (spells.fixed listed)

theorem words_append (front : List String) (rest : List Sexp) :
    words (front.map .word ++ rest) = front ++ words rest := by
  induction front with
  | nil => rfl
  | cons word front ih => simp [words, ih]

theorem toMethods_announced {announced : List String} {forms : List Sexp} (head : String)
    (noWords : words forms = []) (rest : List Sexp) :
    toMethods (.form head (announced.map .word ++ forms) :: rest) =
      ofWords announced (Sexp.parameters (announced.contains "foreign") forms)
        (if announced.contains "foreign" then none
          else toLastBody (announced.map .word ++ forms)) :: toMethods rest := by
  have front : words (announced.map .word ++ forms) = announced := by
    rw [words_append, noWords, List.append_nil]
  have after : (announced.map Sexp.word ++ forms).drop announced.length = forms :=
    List.drop_left' (List.length_map ..)
  rw [toMethods, front, after]

theorem toLastBody_append (front : List Sexp) (head : String) (items : List Sexp) :
    toLastBody (front ++ [.form head items]) = some (toBody items) := by
  induction front with
  | nil => simp [toLastBody]
  | cons item front ih =>
    rw [List.cons_append, toLastBody, ih]
    simp

/-- A list of parameters is read off its form, whatever the first of them is called. -/
theorem ofNames_legible {names : List String}
    (spells : ∀ name ∈ names, TokenKind.name.Spells name) :
    ∃ head items, ofNames names = .form head items ∧ (Sexp.form head items).Fits .method ∧
      (Sexp.form head items).names = names := by
  cases names with
  | nil => exact ⟨"", [], rfl, ⟨by decide, by decide, trivial⟩, rfl⟩
  | cons name rest =>
    obtain ⟨first, others⟩ := List.forall_mem_cons.1 spells
    obtain ⟨some, solids, -⟩ := first.solid (by decide)
    refine ⟨name, rest.map .word, rfl, fits_form (by decide) solids rfl (names_fit others), ?_⟩
    have written : name ≠ "" := by
      rintro rfl
      exact some rfl
    have texts : (rest.map word).map Sexp.text = rest := map_read fun _ _ => rfl
    rw [Sexp.names, if_neg written, texts]

section Forms
variable {parameters : Option (List String)} {body : Option (Body String)}

/-- The forms after a method's name. -/
theorem forms_legible (spells : ∀ names ∈ parameters, ∀ name ∈ names, TokenKind.name.Spells name)
    (held : ∀ content ∈ body, content.Legible) (front : List Sexp) :
    ∃ forms, parameters.toList.map .ofNames ++ sexpBlock body = forms ∧
      (∀ item ∈ forms, item.Fits .method) ∧ words forms = [] ∧
      Sexp.parameters body.isNone forms = parameters ∧
      (if body.isNone then none else toLastBody (front ++ forms)) = body := by
  refine ⟨_, rfl, ?_⟩
  cases body with
  | none =>
    cases parameters with
    | none => simp [sexpBlock, words, Sexp.parameters]
    | some names =>
      obtain ⟨head, items, written, fits, read⟩ := ofNames_legible (spells names rfl)
      simpa [sexpBlock, written, words, Sexp.parameters, read] using fits
  | some content =>
    obtain ⟨items, written, fits, read⟩ := held content rfl
    have fits : (Sexp.form "body" items).Fits .method :=
      fits_form (by decide) (by decide) (by decide) fits
    cases parameters with
    | none =>
      simpa [sexpBlock, written, words, Sexp.parameters, toLastBody_append, read] using fits
    | some names =>
      obtain ⟨head, others, writtenToo, fitsToo, readToo⟩ := ofNames_legible (spells names rfl)
      have last := toLastBody_append (front ++ [.form head others]) "body" items
      rw [List.append_assoc, read] at last
      simpa [sexpBlock, written, writtenToo, words, Sexp.parameters, readToo]
        using ⟨⟨fitsToo, fits⟩, last⟩

theorem legible_intro {foreign static construct : Option String} {kind : TokenKind} {name : String}
    (first : ∀ word ∈ foreign, TokenKind.kwForeign.Spells word)
    (second : ∀ word ∈ static, TokenKind.kwStatic.Spells word)
    (third : ∀ word ∈ construct, TokenKind.kwConstruct.Spells word)
    (front : kind ∈ Grammar.signatureFronts) (named : kind.Spells name)
    (spells : ∀ names ∈ parameters, ∀ name ∈ names, TokenKind.name.Spells name)
    (held : ∀ content ∈ body, content.Legible) (bodiless : foreign.isSome = body.isNone) :
    (Method.mk foreign static construct name parameters body).Legible := by
  obtain ⟨forms, same, fits, noWords, readParameters, readBody⟩ := forms_legible spells held
    ((announced foreign static construct name).map .word)
  have announces := ofWords_announced
    (fun word member => (Option.some.inj (first word member)).symm)
    (fun word member => (Option.some.inj (second word member)).symm)
    (fun word member => (Option.some.inj (third word member)).symm) (signature_unlike front named)
  refine ⟨(announced foreign static construct name).map .word ++ forms, ?_, ?_, ?_⟩
  · intro rest
    rw [sexpMethods, same]
  · have operators : ∀ kind ∈ Grammar.signatureFronts, kind ∉ TokenKind.wordless := by decide
    have words : ∀ word ∈ announced foreign static construct name,
        (Sexp.word word).Fits .method := by
      intro word member
      simp only [announced, List.mem_append, Option.mem_toList, List.mem_singleton] at member
      rcases member with ((member | member) | member) | rfl
      · exact (first word member).fits_method (by decide)
      · exact (second word member).fits_method (by decide)
      · exact (third word member).fits_method (by decide)
      · exact named.fits_method (operators kind front)
    exact List.forall_mem_append.2 ⟨List.forall_mem_map.2 words, fits⟩
  · intro rest
    rw [toMethods_announced _ noWords, (announces none none).2, bodiless, readParameters, readBody,
      (announces _ _).1]

end Forms

/-- The methods of a class. -/
theorem all_legible (rows : List (Method String)) (legible : ∀ row ∈ rows, row.Legible) :
    (∀ item ∈ sexpMethods rows, item.Fits .plain) ∧ words (sexpMethods rows) = [] ∧
      toMethods (sexpMethods rows) = rows := by
  induction rows with
  | nil => simp [sexpMethods, words, toMethods]
  | cons row rest ih =>
    obtain ⟨holds, others⟩ := List.forall_mem_cons.1 legible
    obtain ⟨items, written, fits, read⟩ := holds
    obtain ⟨fitAll, -, readAll⟩ := ih others
    have formed : (Sexp.form "method" items).Fits .plain :=
      ⟨by decide, by decide, (fitAll_iff items).2 fits⟩
    rw [written, read, readAll]
    exact ⟨List.forall_mem_cons.2 ⟨formed, fitAll⟩, rfl, rfl⟩

end Method

namespace Stmt.Legible
open Sexp

variable {statement : Stmt String}

theorem form (head : String) {items : List Sexp} (written : statement.sexp = .form head items)
    (known : head ∈ statements) (fits : ∀ item ∈ items, item.Fits .plain)
    (read : toStatement head items = statement) : statement.Legible := by
  obtain ⟨solids, inside⟩ := statements_head head known
  refine ⟨?_, ?_⟩
  · rw [written]
    exact fits_form (by decide) solids inside fits
  · rw [written, toStmt, if_pos known, read]

theorem expression {value : Expr String} (legible : value.Legible) :
    (Stmt.expression value).Legible :=
  ⟨legible.fits, legible.alone⟩

theorem breakLoop : (Stmt.breakLoop "").Legible := by
  refine form "break" rfl (by decide) (by simp) ?_
  simp [toStatement, toControl]

theorem block {rows : List (Stmt String)} (legible : ∀ statement ∈ rows, statement.Legible) :
    (Stmt.block "" rows "").Legible := by
  refine form "block" rfl (by decide) ?_ ?_
  · simpa using fun statement member => (legible statement member).fits
  · have read := map_read fun statement member => (legible statement member).read
    simpa [toStatement] using read

theorem returnValue {value : Option (Expr String)} (legible : ∀ given ∈ value, given.Legible) :
    (Stmt.returnValue "" value).Legible := by
  refine form "return" rfl (by decide) ?_ ?_
  · cases value with
    | none => simp [sexpExpr?]
    | some given => simpa [sexpExpr?] using (legible given rfl).fits
  · cases value with
    | none => simp [sexpExpr?, toStatement]
    | some given => simp [sexpExpr?, toStatement, (legible given rfl).read]

theorem varDef {name : String} {initializer : Option (Expr String)}
    (spells : TokenKind.name.Spells name) (legible : ∀ given ∈ initializer, given.Legible) :
    (Stmt.varDef "" name initializer).Legible := by
  have fits : (Sexp.word name).Fits .plain := spells.fits (by decide) (by decide)
  refine form "var" rfl (by decide) ?_ ?_
  · cases initializer with
    | none => simpa [sexpExpr?] using fits
    | some given => simpa [sexpExpr?] using ⟨fits, (legible given rfl).fits⟩
  · cases initializer with
    | none => simp [sexpExpr?, toStatement, toControl, Sexp.text]
    | some given => simp [sexpExpr?, toStatement, toControl, Sexp.text, (legible given rfl).read]

section Branches
variable {condition : Expr String} {body : Stmt String}

theorem whileDo (first : condition.Legible) (second : body.Legible) :
    (Stmt.whileDo "" condition body).Legible := by
  refine form "while" rfl (by decide) ?_ ?_
  · simpa using ⟨first.fits, second.fits⟩
  · simp [toStatement, toControl, first.read, second.read]

theorem forIn {name : String} (spells : TokenKind.name.Spells name) (first : condition.Legible)
    (second : body.Legible) : (Stmt.forIn "" name condition body).Legible := by
  have fits : (Sexp.word name).Fits .plain := spells.fits (by decide) (by decide)
  refine form "for" rfl (by decide) ?_ ?_
  · simpa using ⟨fits, first.fits, second.fits⟩
  · simp [toStatement, toControl, Sexp.text, first.read, second.read]

theorem ifElse {other : Option (Stmt String)} (first : condition.Legible) (second : body.Legible)
    (third : ∀ branch ∈ other, branch.Legible) :
    (Stmt.ifElse "" condition body other).Legible := by
  refine form "if" rfl (by decide) ?_ ?_
  · cases other with
    | none => simpa [sexpStmt?] using ⟨first.fits, second.fits⟩
    | some branch => simpa [sexpStmt?] using ⟨first.fits, second.fits, (third branch rfl).fits⟩
  · cases other with
    | none => simp [sexpStmt?, toStatement, toControl, first.read, second.read]
    | some branch =>
      simp [sexpStmt?, toStatement, toControl, first.read, second.read, (third branch rfl).read]

end Branches

theorem importDef {path : String} {imported : Option (List String)} (segment : Text.Segment path)
    (spells : ∀ names ∈ imported, ∀ name ∈ names, TokenKind.name.Spells name) :
    (Stmt.importDef "" path imported).Legible := by
  have fits : (Sexp.segment path).Fits .plain := ⟨by decide, segment⟩
  have word : (Sexp.word "for").Fits .plain := word_fits (by decide)
  refine form "import" rfl (by decide) ?_ ?_
  · cases imported with
    | none => simpa using fits
    | some names => simpa [fits, word] using names_fit (spells names rfl)
  · cases imported with
    | none => simp [toStatement, toControl, Sexp.text]
    | some names =>
      have texts : (names.map Sexp.word).map Sexp.text = names := map_read fun _ _ => rfl
      simpa [toStatement, toControl, Sexp.text] using texts

section Classes
variable {superclass : Option String} {rows : List (Method String)}

/-- What follows the name of a class. -/
theorem classTail (inherits : ∀ name ∈ superclass, TokenKind.name.Spells name)
    (legible : ∀ row ∈ rows, row.Legible) :
    ∃ items, superclass.toList.flatMap (fun text => [Sexp.word "is", .word text]) ++
        sexpMethods rows = items ∧ (∀ item ∈ items, item.Fits .plain) ∧
      (words items)[1]? = superclass ∧ toMethods items = rows := by
  obtain ⟨fits, noWords, read⟩ := Method.all_legible rows legible
  refine ⟨_, rfl, ?_⟩
  cases superclass with
  | none => exact ⟨fits, by simp [noWords], read⟩
  | some name =>
    have named : (Sexp.word name).Fits .plain := (inherits name rfl).fits (by decide) (by decide)
    have word : (Sexp.word "is").Fits .plain := word_fits (by decide)
    refine ⟨?_, ?_, ?_⟩
    · simpa [named, word] using fits
    · simp [words]
    · simpa [toMethods] using read

theorem classDef {foreign : Option String} {name : String} (blank : ∀ text ∈ foreign, text = "")
    (spells : TokenKind.name.Spells name)
    (inherits : ∀ name ∈ superclass, TokenKind.name.Spells name)
    (legible : ∀ row ∈ rows, row.Legible) :
    (Stmt.classDef foreign "" name superclass rows).Legible := by
  obtain ⟨items, same, fits, super, read⟩ := classTail inherits legible
  have named : (Sexp.word name).Fits .plain := spells.fits (by decide) (by decide)
  cases foreign with
  | none =>
    have written : (Stmt.classDef none "" name superclass rows).sexp =
        .form "class" (.word name :: items) := by rw [Stmt.sexp, same]
    refine form "class" written (by decide) (List.forall_mem_cons.2 ⟨named, fits⟩) ?_
    simp [toStatement, toMethods, words, super, read]
  | some text =>
    obtain rfl := blank text rfl
    have word : (Sexp.word "class").Fits .plain := word_fits (by decide)
    have written : (Stmt.classDef (some "") "" name superclass rows).sexp =
        .form "foreign" (.word "class" :: .word name :: items) := by rw [Stmt.sexp, same]
    refine form "foreign" written (by decide)
      (List.forall_mem_cons.2 ⟨word, List.forall_mem_cons.2 ⟨named, fits⟩⟩) ?_
    simp [toStatement, toMethods, words, super, read]

end Classes
end Stmt.Legible
end WrenFront
