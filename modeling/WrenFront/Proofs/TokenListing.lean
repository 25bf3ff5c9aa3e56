import Mathlib.Data.List.Nodup
import WrenFront.Command
import WrenFront.Proofs.QuotedText

/-! The listing of a source's tokens can be read back. Every token has a row of its own, and a
reader of rows that does not know the source finds in it where the token is, its kind and its text.
So a listing shows these of all tokens, and nothing else of the source. -/

namespace WrenFront

/-- What is listed of a token. -/
structure TokenRow where
  line : Nat
  column : Nat
  kind : TokenKind
  text : String
  deriving DecidableEq, Repr

theorem TokenKind.mem_all (kind : TokenKind) : kind ∈ all := by
  cases kind <;> decide

theorem TokenKind.labels_nodup : (all.map label).Nodup := by
  decide +kernel

/-- No two kinds share a label, so the first kind that is found under one is the only one. -/
theorem TokenKind.ofLabel?_label (kind : TokenKind) : ofLabel? kind.label = some kind := by
  cases found : ofLabel? kind.label with
  | none =>
    have other := List.find?_eq_none.1 found kind kind.mem_all
    simp at other
  | some other =>
    have same : other.label = kind.label := by simpa using List.find?_some found
    have listed := List.mem_of_find?_eq_some found
    rw [List.inj_on_of_nodup_map labels_nodup listed kind.mem_all same]

theorem TokenKind.label_solid (kind : TokenKind) : ' ' ∉ kind.label.toList ∧
    '\n' ∉ kind.label.toList := by
  cases kind <;> decide

namespace TokenRow

def write (row : TokenRow) : String :=
  s!"{row.line}:{row.column} {row.kind.label} " ++ Text.Quoted.string row.text

/-- What stands before the first `mark`, and what stands after it. -/
def cut (mark : Char) (chars : List Char) : List Char × List Char :=
  (chars.takeWhile (· ≠ mark), (chars.dropWhile (· ≠ mark)).tail)

def read? (chars : List Char) : Option TokenRow := do
  let (line, chars) := cut ':' chars
  let (column, chars) := cut ' ' chars
  let (label, chars) := cut ' ' chars
  return {
    line := Nat.ofDigitChars 10 line 0
    column := Nat.ofDigitChars 10 column 0
    kind := ← TokenKind.ofLabel? (String.ofList label)
    text := ← Text.Quoted.read? chars }

theorem cut_append {mark : Char} {before : List Char} (absent : mark ∉ before)
    (after : List Char) : cut mark (before ++ mark :: after) = (before, after) := by
  have others : ∀ char ∈ before, decide (char ≠ mark) = true := by
    intro char member
    exact decide_eq_true fun same => absent (same ▸ member)
  rw [cut, List.takeWhile_append_of_pos others, List.dropWhile_append_of_pos others]
  simp

theorem not_mem_digits {mark : Char} (other : mark.isDigit = false) (number : Nat) :
    mark ∉ Nat.toDigits 10 number := by
  intro member
  rw [Nat.isDigit_of_mem_toDigits (by decide) (by decide) member] at other
  cases other

theorem write_eq (row : TokenRow) : row.write.toList =
    Nat.toDigits 10 row.line ++ ':' :: (Nat.toDigits 10 row.column ++ ' ' ::
      (row.kind.label.toList ++ ' ' :: (Text.Quoted.string row.text).toList)) := by
  change (toString row.line ++ ":" ++ toString row.column ++ " " ++ row.kind.label ++ " " ++
    Text.Quoted.string row.text).toList = _
  simp

theorem read?_write (row : TokenRow) : read? row.write.toList = some row := by
  have line := cut_append (not_mem_digits (by decide : Char.isDigit ':' = false) row.line)
  have column := cut_append (not_mem_digits (by decide : Char.isDigit ' ' = false) row.column)
  rw [write_eq]
  simp only [read?, line, column, cut_append row.kind.label_solid.1, String.ofList_toList,
    TokenKind.ofLabel?_label, Text.Quoted.read?_string, Nat.ofDigitChars_ten_toDigits]
  rfl

theorem write_oneLine (row : TokenRow) : '\n' ∉ row.write.toList := by
  have digits := not_mem_digits (by decide : Char.isDigit '\n' = false)
  rw [write_eq]
  simp [digits, row.kind.label_solid.2, Text.Quoted.string_oneLine]

end TokenRow

/-- The row of a token. -/
def Token.row (source : Source) (token : Token) : TokenRow where
  line := source.line token.start
  column := source.column token.start
  kind := token.kind
  text := token.text source

namespace Source

def rows (source : Source) : List TokenRow :=
  source.tokens.map (Token.row source)

theorem listing_eq (source : Source) :
    source.listing = String.join (source.rows.map (·.write ++ "\n")) := by
  rw [rows, List.map_map]
  rfl

/-- Lines that are ended by line feeds are found between them, with nothing after the last. -/
theorem splitOn_lines {lines : List String} (oneLine : ∀ line ∈ lines, '\n' ∉ line.toList) :
    (String.join (lines.map (· ++ "\n"))).toList.splitOn '\n' =
      lines.map String.toList ++ [[]] := by
  induction lines with
  | nil => rfl
  | cons line rest ih =>
    obtain ⟨first, others⟩ := List.forall_mem_cons.1 oneLine
    have joined : (String.join ((line :: rest).map (· ++ "\n"))).toList =
        line.toList ++ '\n' :: (String.join (rest.map (· ++ "\n"))).toList := by
      simp
    rw [joined, List.splitOn_append_cons_self, List.splitOn_eq_singleton first, ih others]
    rfl

theorem splitOn_listing (source : Source) : source.listing.toList.splitOn '\n' =
    source.rows.map (·.write.toList) ++ [[]] := by
  have lines : source.rows.map (·.write ++ "\n") =
      (source.rows.map TokenRow.write).map (· ++ "\n") := by
    rw [List.map_map]
    rfl
  rw [listing_eq, lines, splitOn_lines, List.map_map]
  · rfl
  · simp [TokenRow.write_oneLine]

theorem read?_rows (source : Source) :
    (source.rows.map (·.write.toList)).map TokenRow.read? = source.rows.map some := by
  rw [List.map_map]
  exact List.map_congr_left fun row _ => row.read?_write

/-- The listing of a source has a row for each of its tokens, from which the line and the column,
the kind and the text of the token are read back. So two sources have the same listing exactly if
their tokens are alike in these. -/
theorem listings_readable :
    (∀ source : Source, ∃ rows, source.listing.toList.splitOn '\n' = rows ++ [[]] ∧
      rows.map TokenRow.read? = source.tokens.map fun token => some (token.row source)) ∧
    ∀ first second : Source, first.listing = second.listing ↔ first.rows = second.rows := by
  refine ⟨fun source => ⟨_, source.splitOn_listing, ?_⟩,
    fun first second => ⟨fun same => ?_, fun same => ?_⟩⟩
  · rw [read?_rows, rows, List.map_map]
    rfl
  · have split := congrArg (·.toList.splitOn '\n') same
    simp only [splitOn_listing] at split
    have written := List.append_cancel_right split
    have read := congrArg (List.map TokenRow.read?) written
    rw [read?_rows, read?_rows] at read
    exact (List.map_inj_right fun _ _ => Option.some.inj).1 read
  · rw [listing_eq, listing_eq, same]

example : TokenRow.read? "1:6 Line \"\\n\"".toList = some ⟨1, 6, .line, "\n"⟩ := by
  decide +kernel

end Source
end WrenFront
