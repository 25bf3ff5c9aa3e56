import Mathlib.Data.Prod.Lex
import Mathlib.Data.Set.Function
import Mathlib.Order.Interval.Set.Defs
import WrenFront.Proofs.LineLookup

/-! Lines and columns tell the offsets of a source apart. The lines are what stands between the line
feeds, and the offsets that are on a line are those of its bytes and the one just after them, where
its line feed stands or the source ends. So an offset is found by its line and column, and every
column up to that one is found. -/

namespace WrenFront

namespace Line

/-- Where lines begin that stand one after another from `offset` on, with a line feed after each but
the last. -/
def offsets (offset : Nat) : List (List UInt8) → List Nat
  | [] => []
  | line :: rest => offset :: offsets (offset + line.length + 1) rest

theorem length_offsets (offset : Nat) (lines : List (List UInt8)) :
    (offsets offset lines).length = lines.length := by
  induction lines generalizing offset with
  | nil => rfl
  | cons line rest ih => simp only [offsets, List.length_cons, ih]

theorem startsAfter_eq (offset : Nat) (bytes : List UInt8) :
    startsAfter offset bytes = (offsets offset (bytes.splitOn feed)).tail := by
  induction bytes generalizing offset with
  | nil => rfl
  | cons byte rest ih =>
    rw [startsAfter, List.splitOn_cons_eq_if_modifyHead, ih]
    obtain ⟨line, others, split⟩ := List.exists_cons_of_ne_nil (List.splitOn_ne_nil feed rest)
    rw [split]
    by_cases ends : byte = feed
    · simp [ends, offsets]
    · simp [ends, offsets, Nat.add_assoc, Nat.add_comm 1]

theorem starts_eq (bytes : List UInt8) : starts bytes = offsets 0 (bytes.splitOn feed) := by
  obtain ⟨line, others, split⟩ := List.exists_cons_of_ne_nil (List.splitOn_ne_nil feed bytes)
  rw [starts, startsAfter_eq, split]
  rfl

/-- What stands before and after one of the lines in the text that they make up. -/
theorem offsets_stand (offset : Nat) {lines : List (List UInt8)} {index : Nat} {line : List UInt8}
    (listed : lines[index]? = some line) : ∃ before after,
      [feed].intercalate lines = before ++ (line ++ after) ∧
      (before = [] ∨ before.getLast? = some feed) ∧
      (offsets offset lines)[index]? = some (offset + before.length) ∧
      (offsets offset lines)[index + 1]? =
        if after = [] then none else some (offset + before.length + line.length + 1) := by
  induction lines generalizing offset index with
  | nil => cases listed
  | cons first rest ih =>
    cases index with
    | zero =>
      cases listed
      cases rest with
      | nil => exact ⟨[], [], by simp, .inl rfl, rfl, rfl⟩
      | cons second others =>
        refine ⟨[], feed :: [feed].intercalate (second :: others), ?_, .inl rfl, rfl, rfl⟩
        rw [List.intercalate_cons_cons]
        simp
    | succ index =>
      change rest[index]? = some line at listed
      obtain ⟨before, after, whole, front, start, next⟩ := ih (offset + first.length + 1) listed
      have some : rest ≠ [] := by
        rintro rfl
        cases listed
      have length : (first ++ feed :: before).length = first.length + 1 + before.length := by
        simp only [List.length_append, List.length_cons]
        omega
      refine ⟨first ++ feed :: before, after, ?_, .inr ?_, ?_, ?_⟩
      · rw [List.intercalate_cons_of_ne_nil some, whole]
        simp
      · rcases front with rfl | last
        · simp
        · rw [List.getLast?_append, List.getLast?_cons, last]
          rfl
      · rw [length, ← Nat.add_assoc, ← Nat.add_assoc]
        exact start
      · rw [length, ← Nat.add_assoc, ← Nat.add_assoc]
        exact next

theorem feed_not_mem {bytes line : List UInt8} (member : line ∈ bytes.splitOn feed) :
    feed ∉ line := by
  induction bytes generalizing line with
  | nil => simp_all
  | cons byte rest ih =>
    rw [List.splitOn_cons_eq_if_modifyHead] at member
    obtain ⟨first, others, split⟩ := List.exists_cons_of_ne_nil (List.splitOn_ne_nil feed rest)
    rw [split] at ih member
    by_cases ends : byte = feed
    · rw [if_pos (beq_iff_eq.2 ends)] at member
      rcases List.mem_cons.1 member with rfl | later
      · exact List.not_mem_nil
      · exact ih later
    · rw [if_neg (by simpa using ends)] at member
      rcases List.mem_cons.1 member with rfl | later
      · have others := ih List.mem_cons_self
        exact fun found => (List.mem_cons.1 found).elim (Ne.symm ends) others
      · exact ih (List.mem_cons_of_mem first later)

theorem countP_startsAfter (offset : Nat) (bytes : List UInt8) (more : Nat) :
    (startsAfter offset bytes).countP (· ≤ offset + more) = (bytes.take more).count feed := by
  induction bytes generalizing offset more with
  | nil => simp [startsAfter]
  | cons byte rest ih =>
    cases more with
    | zero =>
      rw [List.take_zero, List.count_nil, List.countP_eq_zero]
      intro start member
      have later := startsAfter_lt offset (byte :: rest) start member
      simpa using later
    | succ more =>
      have others := ih (offset + 1) more
      rw [Nat.add_assoc, Nat.add_comm 1] at others
      rw [startsAfter, List.take_succ_cons, List.count_cons, ← others]
      by_cases ends : byte = feed
      · simp [ends]
      · simp [ends]

/-- The line that `offset` is on begins at `start`: just after the last line feed before `offset`,
or at the front if there is none. -/
structure Begins (bytes : List UInt8) (offset start : Nat) : Prop where
  le : start ≤ offset
  front : start = 0 ∨ bytes[start - 1]? = some feed
  last : ∀ index, start ≤ index → index < offset → bytes[index]? ≠ some feed

end Line

namespace Source

/-- The lines of a source, without the line feeds that end them. -/
def lines (source : Source) : List (List UInt8) :=
  source.bytes.splitOn Line.feed

/-- A line, counted from zero, and where it begins. -/
structure LineStands (source : Source) (index start : Nat) (line : List UInt8) : Prop where
  listed : source.lines[index]? = some line
  starts : source.lineStarts[index]? = some start
  front : start = 0 ∨ source.bytes[start - 1]? = some Line.feed
  bytes : source.slice start line.length = line
  inside : start + line.length ≤ source.length
  next : ∀ next ∈ source.lineStarts[index + 1]?, next = start + line.length + 1
  last : source.lineStarts[index + 1]? = none → start + line.length = source.length

theorem lineCount_eq (source : Source) : source.lineCount = source.lines.length := by
  rw [lineCount, source.lineStarts_eq, Line.starts_eq, Line.length_offsets, lines]

theorem line_stands (source : Source) {index : Nat} {line : List UInt8}
    (listed : source.lines[index]? = some line) : ∃ start, source.LineStands index start line := by
  obtain ⟨before, after, whole, front, start, next⟩ := Line.offsets_stand 0 listed
  rw [lines, List.intercalate_splitOn] at whole
  rw [lines, ← Line.starts_eq, ← source.lineStarts_eq, Nat.zero_add] at start next
  have length : source.length = before.length + (line.length + after.length) := by
    rw [Source.length, whole, List.length_append, List.length_append]
  refine ⟨before.length, listed, start, ?_, ?_, by omega, ?_, ?_⟩
  · refine front.imp (congrArg List.length) fun last => ?_
    rw [List.getLast?_eq_getElem?] at last
    have inside := (List.getElem?_eq_some_iff.1 last).1
    rw [whole, List.getElem?_append_left inside, last]
  · rw [slice, whole, List.drop_left, List.take_left]
  · intro found member
    rw [next] at member
    split at member <;> cases member
    rfl
  · intro none
    rw [next] at none
    split at none
    · simp_all
    · cases none

namespace LineStands
variable {source : Source} {index start offset : Nat} {line : List UInt8}

theorem startOfLine (stands : source.LineStands index start line) :
    source.startOfLine (index + 1) = start := by
  rw [Source.startOfLine, List.getD_eq_getElem?_getD, Nat.add_sub_cancel, stands.starts]
  rfl

theorem lineStart (stands : source.LineStands index start line) :
    source.lineStart (index + 1) = .ok start := by
  have counted := (List.getElem?_eq_some_iff.1 stands.starts).1
  rw [Source.lineStart, if_pos ⟨Nat.le_add_left 1 index, counted⟩, stands.startOfLine]

/-- The offsets of a line are those of its bytes and the one after them. -/
theorem line_eq (stands : source.LineStands index start line) (after : start ≤ offset)
    (upTo : offset ≤ start + line.length) : source.line offset = index + 1 := by
  have reached : index < source.line offset := lt_line_iff.2 ⟨start, stands.starts, after⟩
  have notNext : ¬ index + 1 < source.line offset := by
    intro passed
    obtain ⟨next, found, le⟩ := lt_line_iff.1 passed
    have after := stands.next next found
    omega
  omega

theorem column_eq (stands : source.LineStands index start line) (after : start ≤ offset)
    (upTo : offset ≤ start + line.length) : source.column offset = offset - start + 1 := by
  rw [column, stands.line_eq after upTo, stands.startOfLine]

/-- No line feed stands between the beginning of a line and an offset on it. -/
theorem begins (stands : source.LineStands index start line) (after : start ≤ offset)
    (upTo : offset ≤ start + line.length) : Line.Begins source.bytes offset start := by
  refine ⟨after, stands.front, fun place first before found => ?_⟩
  have member : line ∈ source.lines := List.mem_of_getElem? stands.listed
  apply Line.feed_not_mem member
  have inside : (source.slice start line.length)[place - start]? = some Line.feed := by
    rw [slice, List.getElem?_take_of_lt (by omega), List.getElem?_drop,
      Nat.add_sub_cancel' first, found]
  rw [stands.bytes] at inside
  exact List.mem_of_getElem? inside

theorem lineBytes (stands : source.LineStands index start line) :
    source.lineBytes (index + 1) = .ok line := by
  have length (stop : Nat) (same : stop = start + line.length) :
      source.slice start (stop - start) = line := by
    rw [same, Nat.add_sub_cancel_left, stands.bytes]
  rw [Source.lineBytes, stands.lineStart]
  cases found : source.lineStarts[index + 1]? with
  | some next => exact congrArg _ (length _ (Nat.sub_eq_of_eq_add (stands.next next found)))
  | none => exact congrArg _ (length _ (stands.last found).symm)

theorem offsetAt (stands : source.LineStands index start line) {column : Nat} (some : 1 ≤ column)
    (upTo : column ≤ line.length + 1) :
    source.offsetAt (index + 1) column = .ok (start + column - 1) := by
  have inside : ¬ source.length < start + column - 1 := by
    have bound := stands.inside
    omega
  rw [Source.offsetAt, if_neg (by omega), stands.lineStart]
  exact if_neg inside

end LineStands

/-- Every offset is on a line. -/
theorem offset_stands (source : Source) {offset : Nat} (inside : offset ≤ source.length) :
    ∃ index start line, source.LineStands index start line ∧ start ≤ offset ∧
      offset ≤ start + line.length := by
  obtain ⟨index, number⟩ := Nat.exists_eq_add_of_le' (source.line_pos offset)
  have counted : index < source.lines.length := by
    have bound := source.line_le offset
    rw [lineCount_eq] at bound
    omega
  obtain ⟨start, stands⟩ := source.line_stands (List.getElem?_eq_getElem counted)
  have after := source.startOfLine_le offset
  rw [number, stands.startOfLine] at after
  refine ⟨index, start, _, stands, after, ?_⟩
  cases found : source.lineStarts[index + 1]? with
  | none => exact stands.last found ▸ inside
  | some next =>
    -- The next line begins later, since it is not counted.
    have later : ¬ next ≤ offset := by
      intro reached
      have counted : index + 1 < source.line offset := lt_line_iff.2 ⟨next, found, reached⟩
      omega
    have ends := stands.next next found
    omega

/-- The line and the column of an offset. -/
def position (source : Source) (offset : Nat) : Nat × Nat :=
  (source.line offset, source.column offset)

/-- The lines of a source, each with its columns, of which the last is where the line ends. -/
def positions (source : Source) : Set (Nat × Nat) :=
  { position | 1 ≤ position.1 ∧ position.1 ≤ source.lineCount ∧ 1 ≤ position.2 ∧
    ∃ line ∈ source.lines[position.1 - 1]?, position.2 ≤ line.length + 1 }

theorem LineStands.position_eq {source : Source} {index start offset : Nat} {line : List UInt8}
    (stands : source.LineStands index start line) (after : start ≤ offset)
    (upTo : offset ≤ start + line.length) :
    source.position offset = (index + 1, offset - start + 1) := by
  rw [position, stands.line_eq after upTo, stands.column_eq after upTo]

theorem position_mem (source : Source) {offset : Nat} (inside : offset ≤ source.length) :
    source.position offset ∈ source.positions := by
  obtain ⟨index, start, line, stands, after, upTo⟩ := source.offset_stands inside
  have counted := (List.getElem?_eq_some_iff.1 stands.starts).1
  rw [stands.position_eq after upTo]
  refine ⟨Nat.le_add_left 1 index, counted, Nat.le_add_left 1 _, line, stands.listed, ?_⟩
  change offset - start + 1 ≤ line.length + 1
  omega

/-- The offset of a position that an offset has. -/
theorem offsetAt_position (source : Source) {offset : Nat} (inside : offset ≤ source.length) :
    source.offsetAt (source.line offset) (source.column offset) = .ok offset := by
  obtain ⟨index, start, line, stands, after, upTo⟩ := source.offset_stands inside
  have same : start + (offset - start + 1) - 1 = offset := by omega
  rw [stands.line_eq after upTo, stands.column_eq after upTo,
    stands.offsetAt (Nat.le_add_left 1 _) (by omega), same]

/-- The position of an offset that a position has. -/
theorem position_offsetAt (source : Source) {line column : Nat}
    (member : (line, column) ∈ source.positions) : ∃ offset ≤ source.length,
      source.offsetAt line column = .ok offset ∧ source.position offset = (line, column) := by
  obtain ⟨first, -, positive, bytes, listed, upTo⟩ := member
  change 1 ≤ column at positive
  change column ≤ bytes.length + 1 at upTo
  obtain ⟨index, rfl⟩ := Nat.exists_eq_add_of_le' first
  change source.lines[index]? = some bytes at listed
  obtain ⟨start, stands⟩ := source.line_stands listed
  have after : start ≤ start + column - 1 := by omega
  have bound : start + column - 1 ≤ start + bytes.length := by omega
  have same : start + column - 1 - start + 1 = column := by omega
  refine ⟨start + column - 1, Nat.le_trans bound stands.inside, stands.offsetAt positive upTo, ?_⟩
  rw [stands.position_eq after bound, same]

theorem position_lt (source : Source) {first second : Nat} (less : first < second) :
    toLex (source.position first) < toLex (source.position second) := by
  have lines : source.line first ≤ source.line second := by
    apply List.countP_mono_left
    intro start _ reached
    have le : start ≤ first := of_decide_eq_true reached
    exact decide_eq_true (Nat.le_trans le (Nat.le_of_lt less))
  rw [Prod.Lex.toLex_lt_toLex]
  rcases Nat.lt_or_eq_of_le lines with earlier | same
  · exact .inl earlier
  · have start := source.startOfLine_le first
    refine .inr ⟨same, ?_⟩
    change source.column first < source.column second
    rw [column, column, ← same]
    omega

theorem line_eq_count (source : Source) (offset : Nat) :
    source.line offset = 1 + (source.bytes.take offset).count Line.feed := by
  have others := Line.countP_startsAfter 0 source.bytes offset
  rw [Nat.zero_add] at others
  rw [line, source.lineStarts_eq, Line.starts, List.countP_cons_of_pos (by simp), others,
    Nat.add_comm]

theorem position_bijOn (source : Source) :
    Set.BijOn source.position (Set.Iic source.length) source.positions := by
  refine ⟨fun offset inside => source.position_mem inside, ?_, ?_⟩
  · intro first insideFirst second insideSecond same
    obtain ⟨line, column⟩ := Prod.mk.inj same
    have found := source.offsetAt_position insideFirst
    rw [line, column, source.offsetAt_position insideSecond] at found
    exact (Except.ok.inj found).symm
  · rintro ⟨line, column⟩ member
    obtain ⟨offset, inside, -, same⟩ := source.position_offsetAt member
    exact ⟨offset, inside, same⟩

/-- The line of an offset is one more than the line feeds before it, and its column counts from the
last of them. Offsets in ascending order have positions in ascending order, and the offsets of a
source correspond one to one to the columns of its lines, up to the end of each; looking up the
offset of a position is the inverse both ways. -/
theorem positions_correspond (source : Source) :
    (∀ offset ≤ source.length,
      source.lineAt offset = .ok (source.position offset).1 ∧
      source.columnAt offset = .ok (source.position offset).2 ∧
      (source.position offset).1 = 1 + (source.bytes.take offset).count Line.feed ∧
      ∃ start, Line.Begins source.bytes offset start ∧
        (source.position offset).2 = offset - start + 1) ∧
    StrictMonoOn (fun offset => toLex (source.position offset)) (Set.Iic source.length) ∧
    (source.lineCount = source.lines.length ∧ ∀ index line, source.lines[index]? = some line →
      source.lineBytes (index + 1) = .ok line) ∧
    Set.BijOn source.position (Set.Iic source.length) source.positions ∧
    (∀ offset ≤ source.length,
      source.offsetAt (source.position offset).1 (source.position offset).2 = .ok offset) ∧
    ∀ line column, (line, column) ∈ source.positions → ∃ offset ≤ source.length,
      source.offsetAt line column = .ok offset ∧ source.position offset = (line, column) := by
  refine ⟨fun offset inside => ?_, fun first _ second _ less => source.position_lt less,
    ⟨source.lineCount_eq, fun index line listed => ?_⟩, source.position_bijOn,
    fun offset inside => source.offsetAt_position inside,
    fun line column member => source.position_offsetAt member⟩
  · obtain ⟨index, start, line, stands, after, upTo⟩ := source.offset_stands inside
    exact ⟨source.lineAt_eq inside, source.columnAt_eq inside, source.line_eq_count offset,
      start, stands.begins after upTo, stands.column_eq after upTo⟩
  · obtain ⟨start, stands⟩ := source.line_stands listed
    exact stands.lineBytes

end Source
end WrenFront
