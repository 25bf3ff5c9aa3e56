import WrenFront.Proofs.TokenTexts
import WrenFront.Tree.Outline

/-! Forms in parentheses, apart from the trees that are written so. What follows an item in a text
shows where the item ends, although string segments may hold anything: two texts that begin with an
item each begin with the same one. Only the slot of an item has to be known, since a parenthesis
may open a form or begin an entry of a map, and a bar may be an operator. -/

namespace WrenFront

inductive Sexp where
  | word (text : String)
  | segment (text : String)
  | bars (names : List String)
  | form (head : String) (items : List Sexp)
  /-- The key and the value of an entry of a map. -/
  | entry (key value : Sexp)

namespace Sexp

mutual
def text : Sexp → String
  | .word text => text
  | .segment text => text
  | .bars names => Outline.enbar names
  | .form head items => Outline.enclose (head :: texts items)
  | .entry key value => Outline.enclose [key.text, value.text]

def texts : List Sexp → List String
  | [] => []
  | item :: rest => item.text :: texts rest
end

/-- Where an item stands, which tells how it has to be read. -/
inductive Slot where
  | plain
  | map
  | method
  deriving DecidableEq

/-- The slot of the items of a form. In a method a form may begin with the name of a parameter. -/
def Slot.inside (slot : Slot) (head : String) : Slot :=
  if slot = .method then .plain
  else if head = "map" then .map
  else if head = "method" then .method
  else .plain

/-- A character that neither ends a word nor begins something else. -/
def solid (char : Char) : Bool :=
  !([' ', '(', ')', '"', '\n'].contains char)

/-- Only the characters in the list are tried, and not all the characters there are. -/
instance decidableForallChars (p : Char → Prop) [DecidablePred p] (chars : List Char) :
    Decidable (∀ char ∈ chars, p char) :=
  List.decidableBAll p chars

mutual
/-- The item can stand in the slot. -/
def Fits (slot : Slot) : Sexp → Prop
  | .word text => slot ≠ .map ∧ text.toList ≠ [] ∧ (∀ char ∈ text.toList, solid char) ∧
      (text.toList.head? = some '|' → slot = .method)
  | .segment text => slot ≠ .map ∧ Text.Segment text
  | .bars names => slot = .plain ∧ ∀ name ∈ names, name.toList ≠ [] ∧ Text.Word name
  | .form head items =>
    slot ≠ .map ∧ (∀ char ∈ head.toList, solid char) ∧ FitAll (slot.inside head) items
  | .entry key value => slot = .map ∧ key.Fits .plain ∧ value.Fits .plain

def FitAll (slot : Slot) : List Sexp → Prop
  | [] => True
  | item :: rest => item.Fits slot ∧ FitAll slot rest
end

@[simp]
theorem texts_eq_map (items : List Sexp) : texts items = items.map text := by
  induction items with
  | nil => simp [texts]
  | cons item rest ih => simp [texts, ih]

@[simp]
theorem fitAll_iff {slot : Slot} (items : List Sexp) :
    FitAll slot items ↔ ∀ item ∈ items, item.Fits slot := by
  induction items with
  | nil => simp [FitAll]
  | cons item rest ih => simp [FitAll, ih]

/-- Texts with a character in front of each. -/
def led (lead : Char) (texts : List String) : List Char :=
  texts.flatMap fun text => lead :: text.toList

theorem toList_intercalate {separator : String} (lead : Char) (single : separator.toList = [lead])
    (first : String) (rest : List String) :
    (separator.intercalate (first :: rest)).toList = first.toList ++ led lead rest := by
  induction rest generalizing first with
  | nil => simp [led]
  | cons next rest ih =>
    rw [String.intercalate_cons_cons, String.toList_append, String.toList_append, ih, single]
    simp [led]

theorem toList_enclose (head : String) (items : List String) (rest : List Char) :
    (Outline.enclose (head :: items)).toList ++ rest =
      '(' :: (head.toList ++ (led ' ' items ++ ')' :: rest)) := by
  rw [Outline.enclose, String.toList_append, String.toList_append, toList_intercalate ' ' rfl]
  simp

theorem toList_enbar (first : String) (names : List String) (rest : List Char) :
    (Outline.enbar (first :: names)).toList ++ rest =
      '|' :: (first.toList ++ (led ' ' names ++ '|' :: rest)) := by
  rw [Outline.enbar, String.toList_append, String.toList_append, toList_intercalate ' ' rfl]
  simp

/-- What can follow an item. -/
def Stops (rest : List Char) : Prop :=
  ∀ char ∈ rest.head?, char = ' ' ∨ char = ')' ∨ char = '\n'

section Runs
variable {first second rest more : List Char}

/-- A run of characters of one class is fixed by the text that it is in front of. -/
theorem run_unique (isClass : Char → Bool) (allFirst : ∀ char ∈ first, isClass char)
    (allSecond : ∀ char ∈ second, isClass char)
    (endsFirst : ∀ char ∈ rest.head?, isClass char = false)
    (endsSecond : ∀ char ∈ more.head?, isClass char = false)
    (same : first ++ rest = second ++ more) : first = second ∧ rest = more := by
  have front {run after : List Char} (all : ∀ char ∈ run, isClass char)
      (ends : ∀ char ∈ after.head?, isClass char = false) :
      (run ++ after).takeWhile isClass = run := by
    rw [List.takeWhile_append_of_pos all]
    cases after with
    | nil => simp
    | cons char after => simp [ends char rfl]
  have runs : first = second := by
    rw [← front allFirst endsFirst, same, front allSecond endsSecond]
  subst runs
  exact ⟨rfl, List.append_cancel_left same⟩

theorem Stops.solid (stops : Stops rest) : ∀ char ∈ rest.head?, solid char = false := by
  intro char member
  rcases stops char member with rfl | rfl | rfl <;> decide

end Runs

/-- What is left after a string segment whose first character has been read. -/
def afterSegment : List Char → List Char
  | [] => []
  | '\\' :: _ :: rest => afterSegment rest
  | '%' :: '(' :: rest => rest
  | char :: rest => if char = '"' then rest else afterSegment rest

theorem afterSegment_inside {body ending : List Char} (inside : Text.Inside body)
    (ends : ending = ['"'] ∨ ending = ['%', '(']) (rest : List Char) :
    afterSegment (body ++ (ending ++ rest)) = rest := by
  induction inside with
  | none => rcases ends with rfl | rfl <;> simp [afterSegment]
  | escape _ ih => simpa [afterSegment] using ih
  | @char char chars notSlash notQuote closed others ih =>
    rw [List.cons_append, afterSegment.eq_4, if_neg notQuote, ih]
    · rintro next after rfl
      exact absurd rfl notSlash
    · rintro after rfl opens
      refine closed rfl ?_
      cases chars with
      | nil => rcases ends with rfl | rfl <;> simp at opens
      | cons next chars =>
        obtain ⟨rfl, -⟩ := List.cons.inj opens
        rfl

section Unique
variable {rest more : List Char}

theorem segment_unique {first second : String} (segment : Text.Segment first)
    (other : Text.Segment second) (same : first.toList ++ rest = second.toList ++ more) :
    first = second ∧ rest = more := by
  obtain ⟨lead, body, ending, -, inside, ends, chars⟩ := segment
  obtain ⟨lead', body', ending', -, inside', ends', chars'⟩ := other
  have after : rest = more := by
    rw [chars, chars', List.cons_append, List.cons_append, List.append_assoc,
      List.append_assoc] at same
    rw [← afterSegment_inside inside ends rest, (List.cons.inj same).2,
      afterSegment_inside inside' ends' more]
  subst after
  exact ⟨String.toList_inj.1 (List.append_cancel_right same), rfl⟩

theorem word_unique {first second : String} (solidFirst : ∀ char ∈ first.toList, solid char)
    (solidSecond : ∀ char ∈ second.toList, solid char) (stops : Stops rest) (ends : Stops more)
    (same : first.toList ++ rest = second.toList ++ more) : first = second ∧ rest = more := by
  obtain ⟨runs, after⟩ := run_unique solid solidFirst solidSecond stops.solid ends.solid same
  exact ⟨String.toList_inj.1 runs, after⟩

theorem led_cons (lead : Char) (text : String) (texts : List String) (rest : List Char) :
    led lead (text :: texts) ++ rest = lead :: (text.toList ++ (led lead texts ++ rest)) := by
  simp [led]

theorem led_names_head (names : List String) (rest : List Char) :
    ∀ char ∈ (led ' ' names ++ '|' :: rest).head?, Text.isWord char = false := by
  cases names <;> simp [led] <;> decide

theorem names_unique {first second : List String} (words : ∀ name ∈ first, Text.Word name)
    (others : ∀ name ∈ second, Text.Word name)
    (same : led ' ' first ++ '|' :: rest = led ' ' second ++ '|' :: more) :
    first = second ∧ rest = more := by
  induction first generalizing second with
  | nil =>
    cases second with
    | nil => exact ⟨rfl, (List.cons.inj same).2⟩
    | cons name names => simp [led] at same
  | cons name names ih =>
    cases second with
    | nil => simp [led] at same
    | cons other names' =>
      rw [led_cons, led_cons] at same
      obtain ⟨word, words⟩ := List.forall_mem_cons.1 words
      obtain ⟨word', others⟩ := List.forall_mem_cons.1 others
      obtain ⟨runs, after⟩ := run_unique Text.isWord word word' (led_names_head _ _)
        (led_names_head _ _) (List.cons.inj same).2
      obtain ⟨rfl, rest⟩ := ih words others after
      exact ⟨by rw [String.toList_inj.1 runs], rest⟩

/-- There is no name between two bars that are side by side. -/
theorem enbar_nil_ne {name : String} {names : List String} (some : name.toList ≠ [])
    (word : Text.Word name) :
    (Outline.enbar []).toList ++ rest ≠ (Outline.enbar (name :: names)).toList ++ more := by
  intro same
  rw [toList_enbar] at same
  obtain ⟨char, chars, chained⟩ := List.exists_cons_of_ne_nil some
  rw [chained] at same
  obtain ⟨rfl, -⟩ : '|' = char ∧ _ := List.cons.inj (List.cons.inj same).2
  exact absurd (word '|' (by simp [chained])) (by decide)

theorem bars_unique {first second : List String}
    (words : ∀ name ∈ first, name.toList ≠ [] ∧ Text.Word name)
    (others : ∀ name ∈ second, name.toList ≠ [] ∧ Text.Word name)
    (same : (Outline.enbar first).toList ++ rest = (Outline.enbar second).toList ++ more) :
    first = second ∧ rest = more := by
  cases first with
  | nil =>
    cases second with
    | nil => exact ⟨rfl, List.append_cancel_left same⟩
    | cons name names =>
      obtain ⟨some, word⟩ := others name List.mem_cons_self
      exact absurd same (enbar_nil_ne some word)
  | cons name names =>
    cases second with
    | nil =>
      obtain ⟨some, word⟩ := words name List.mem_cons_self
      exact absurd same.symm (enbar_nil_ne some word)
    | cons other names' =>
      -- A name that leads the others is written just as they are.
      rw [toList_enbar, toList_enbar, List.cons_inj_right, ← List.cons_inj_right ' ', ← led_cons,
        ← led_cons] at same
      exact names_unique (fun name member => (words name member).2)
        (fun name member => (others name member).2) same

end Unique

/-- What an item is, which shows in its first character. -/
inductive Shape where
  | word
  | segment
  | bars
  | form
  | entry

def shape : Sexp → Shape
  | .word _ => .word
  | .segment _ => .segment
  | .bars _ => .bars
  | .form .. => .form
  | .entry .. => .entry

def Slot.shape (slot : Slot) (first : Char) : Shape :=
  if first = '(' then if slot = .map then .entry else .form
  else if first = '"' ∨ first = ')' then .segment
  else if first = '|' ∧ slot ≠ .method then .bars
  else .word

theorem Fits.first {slot : Slot} {item : Sexp} (fits : item.Fits slot) :
    ∃ char chars, item.text.toList = char :: chars ∧ slot.shape char = item.shape := by
  cases item with
  | word text =>
    obtain ⟨-, some, solids, bar⟩ := fits
    obtain ⟨char, chars, chained⟩ := List.exists_cons_of_ne_nil some
    have solid := solids char (by simp [chained])
    rw [chained, List.head?_cons, Option.some.injEq] at bar
    refine ⟨char, chars, chained, ?_⟩
    have others : char ≠ '(' ∧ char ≠ ')' ∧ char ≠ '"' := by
      refine ⟨?_, ?_, ?_⟩ <;> rintro rfl <;> cases solid
    simpa [Slot.shape, shape, others] using bar
  | segment text =>
    obtain ⟨-, char, body, ending, delimits, -, -, chained⟩ := fits
    exact ⟨char, _, chained, by rcases delimits with rfl | rfl <;> rfl⟩
  | bars names =>
    refine ⟨'|', (" ".intercalate names).toList ++ ['|'], ?_, by simp [Slot.shape, shape, fits.1]⟩
    simp [text, Outline.enbar]
  | form head items =>
    have chained := toList_enclose head (texts items) []
    rw [List.append_nil] at chained
    exact ⟨_, _, chained, by simp [Slot.shape, shape, fits.1]⟩
  | entry key value =>
    have chained := toList_enclose key.text [value.text] []
    rw [List.append_nil] at chained
    exact ⟨_, _, chained, by simp [Slot.shape, shape, fits.1]⟩

theorem Fits.shape_unique {slot : Slot} {first second : Sexp} {rest more : List Char}
    (fits : first.Fits slot) (fitsToo : second.Fits slot)
    (same : first.text.toList ++ rest = second.text.toList ++ more) :
    first.shape = second.shape := by
  obtain ⟨char, chars, chained, shaped⟩ := fits.first
  obtain ⟨char', chars', chained', shaped'⟩ := fitsToo.first
  rw [chained, chained'] at same
  rw [← shaped, ← shaped', (List.cons.inj same).1]

theorem stops_close (rest : List Char) : Stops (')' :: rest) := by
  simp [Stops]

theorem led_stops {lead : Char} (separates : lead = ' ' ∨ lead = '\n') (texts : List String)
    {rest : List Char} (stops : Stops rest) : Stops (led lead texts ++ rest) := by
  cases texts with
  | nil => exact stops
  | cons text texts =>
    intro char member
    obtain rfl : lead = char := by simpa [led] using member
    rcases separates with rfl | rfl
    · exact .inl rfl
    · exact .inr (.inr rfl)

mutual
/-- Two texts that go on after an item begin with the same item, if they are the same. -/
theorem unique {slot : Slot} (first second : Sexp) (fits : first.Fits slot)
    (fitsToo : second.Fits slot) {rest more : List Char} (stops : Stops rest) (ends : Stops more)
    (same : first.text.toList ++ rest = second.text.toList ++ more) :
    first = second ∧ rest = more := by
  have shapes := fits.shape_unique fitsToo same
  cases first with
  | word text =>
    cases second with
    | word other =>
      obtain ⟨rfl, after⟩ := word_unique fits.2.2.1 fitsToo.2.2.1 stops ends same
      exact ⟨rfl, after⟩
    | _ => cases shapes
  | segment text =>
    cases second with
    | segment other =>
      obtain ⟨rfl, after⟩ := segment_unique fits.2 fitsToo.2 same
      exact ⟨rfl, after⟩
    | _ => cases shapes
  | bars names =>
    cases second with
    | bars others =>
      obtain ⟨rfl, after⟩ := bars_unique fits.2 fitsToo.2 same
      exact ⟨rfl, after⟩
    | _ => cases shapes
  | form head items =>
    cases second with
    | form other others =>
      obtain ⟨-, solids, fits⟩ := fits
      obtain ⟨-, solidsToo, fitsToo⟩ := fitsToo
      rw [text, text, toList_enclose, toList_enclose] at same
      obtain ⟨rfl, after⟩ := word_unique solids solidsToo
        (led_stops (.inl rfl) _ (stops_close rest)) (led_stops (.inl rfl) _ (stops_close more))
        (List.cons.inj same).2
      obtain ⟨rfl, last⟩ := uniqueAll items others fits fitsToo (.inl rfl) (stops_close rest)
        (stops_close more) (by simp) (by simp) after
      exact ⟨rfl, (List.cons.inj last).2⟩
    | _ => cases shapes
  | entry key value =>
    cases second with
    | entry key' value' =>
      obtain ⟨-, fitsKey, fitsValue⟩ := fits
      obtain ⟨-, fitsKey', fitsValue'⟩ := fitsToo
      rw [text, text, toList_enclose, toList_enclose] at same
      obtain ⟨rfl, after⟩ := unique key key' fitsKey fitsKey'
        (led_stops (.inl rfl) _ (stops_close rest)) (led_stops (.inl rfl) _ (stops_close more))
        (List.cons.inj same).2
      obtain ⟨rfl, last⟩ := unique value value' fitsValue fitsValue' (stops_close rest)
        (stops_close more) (by simpa [led] using after)
      exact ⟨rfl, (List.cons.inj last).2⟩
    | _ => cases shapes

theorem uniqueAll {slot : Slot} (first second : List Sexp) (fits : FitAll slot first)
    (fitsToo : FitAll slot second) {lead : Char} (separates : lead = ' ' ∨ lead = '\n')
    {rest more : List Char} (stops : Stops rest) (ends : Stops more)
    (past : rest.head? ≠ some lead) (pastToo : more.head? ≠ some lead)
    (same : led lead (texts first) ++ rest = led lead (texts second) ++ more) :
    first = second ∧ rest = more := by
  cases first with
  | nil =>
    cases second with
    | nil => exact ⟨rfl, same⟩
    | cons item items =>
      obtain rfl : rest = _ := same
      exact absurd (by simp [texts, led]) past
  | cons item items =>
    cases second with
    | nil =>
      obtain rfl : _ = more := same
      exact absurd (by simp [texts, led]) pastToo
    | cons other others =>
      rw [texts, texts, led_cons, led_cons] at same
      obtain ⟨rfl, after⟩ := unique item other fits.1 fitsToo.1
        (led_stops separates _ stops) (led_stops separates _ ends) (List.cons.inj same).2
      obtain ⟨rfl, last⟩ := uniqueAll items others fits.2 fitsToo.2 separates stops ends past
        pastToo after
      exact ⟨rfl, last⟩
end

/-- Items on lines of their own. -/
theorem lines_unique {first second : List Sexp} (fits : ∀ item ∈ first, item.Fits .plain)
    (fitsToo : ∀ item ∈ second, item.Fits .plain)
    (same : "\n".intercalate (first.map text) = "\n".intercalate (second.map text)) :
    first = second := by
  have started {item : Sexp} {items : List Sexp} (fits : item.Fits .plain) :
      "\n".intercalate (item.text :: items.map text) ≠ "" := by
    obtain ⟨char, chars, chained, -⟩ := fits.first
    intro empty
    have chars := congrArg String.toList empty
    rw [toList_intercalate '\n' rfl, chained] at chars
    cases chars
  cases first with
  | nil =>
    cases second with
    | nil => rfl
    | cons item items => exact absurd same.symm (started (fitsToo item List.mem_cons_self))
  | cons item items =>
    cases second with
    | nil => exact absurd same (started (fits item List.mem_cons_self))
    | cons other others =>
      have chars := congrArg String.toList same
      rw [List.map_cons, List.map_cons, toList_intercalate '\n' rfl,
        toList_intercalate '\n' rfl, ← List.cons_inj_right '\n'] at chars
      rw [← fitAll_iff] at fits fitsToo
      have lines : led '\n' (texts (item :: items)) ++ [] =
          led '\n' (texts (other :: others)) ++ [] := by simpa [led] using chars
      have atEnd : Stops [] := by simp [Stops]
      exact (uniqueAll _ _ fits fitsToo (.inr rfl) atEnd atEnd (by simp) (by simp) lines).1

end Sexp
end WrenFront
