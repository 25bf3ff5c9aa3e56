import WrenFront.Source

/-! Every offset of a source lies on one of its lines, at or after the start of that line, since the
lines begin one after another and the first begins with the source. -/

namespace WrenFront

namespace Line

theorem startsAfter_lt (offset : Nat) (bytes : List UInt8) :
    ∀ start ∈ startsAfter offset bytes, offset < start := by
  fun_induction startsAfter offset bytes with
  | case1 => simp
  | case2 offset rest ih =>
    intro start member
    rcases List.mem_cons.1 member with rfl | later
    · exact Nat.lt_succ_self _
    · exact Nat.lt_of_succ_lt (ih start later)
  | case3 offset byte rest _ ih => exact fun start member => Nat.lt_of_succ_lt (ih start member)

theorem startsAfter_ascending (offset : Nat) (bytes : List UInt8) :
    (startsAfter offset bytes).Pairwise (· < ·) := by
  fun_induction startsAfter offset bytes with
  | case1 => exact .nil
  | case2 offset rest ih => exact .cons (startsAfter_lt (offset + 1) rest) ih
  | case3 _ _ _ _ ih => exact ih

theorem starts_ascending (bytes : List UInt8) : (starts bytes).Pairwise (· < ·) :=
  .cons (startsAfter_lt 0 bytes) (startsAfter_ascending 0 bytes)

/-- In an ascending list the numbers up to a bound come first, as many as there are. -/
theorem lt_countP_iff {starts : List Nat} (ascending : starts.Pairwise (· < ·)) {offset : Nat} :
    ∀ index, index < starts.countP (· ≤ offset) ↔ ∃ start ∈ starts[index]?, start ≤ offset := by
  induction ascending with
  | nil => simp
  | @cons first rest later _ ih =>
    intro index
    by_cases reached : first ≤ offset
    · rw [List.countP_cons_of_pos (by simpa using reached)]
      cases index with
      | zero => simpa using reached
      | succ index => simpa using ih index
    · -- All that follow are beyond the bound too.
      have beyond : ∀ start ∈ first :: rest, ¬ start ≤ offset := by
        intro start member
        rcases List.mem_cons.1 member with rfl | member
        · exact reached
        · have greater := later start member
          omega
      have none : (first :: rest).countP (· ≤ offset) = 0 :=
        List.countP_eq_zero.2 (by simpa using beyond)
      rw [none]
      refine iff_of_false (Nat.not_lt_zero index) ?_
      rintro ⟨start, found, le⟩
      exact beyond start (List.mem_of_getElem? found) le

end Line

namespace Source

theorem line_pos (source : Source) (offset : Nat) : 1 ≤ source.line offset := by
  rw [line, source.lineStarts_eq, Line.starts, List.countP_cons_of_pos (by simp)]
  exact Nat.le_add_left 1 _

theorem line_le (source : Source) (offset : Nat) : source.line offset ≤ source.lineCount :=
  List.countP_le_length

theorem lineStarts_ascending (source : Source) : source.lineStarts.Pairwise (· < ·) :=
  source.lineStarts_eq ▸ Line.starts_ascending source.bytes

theorem lt_line_iff {source : Source} {offset index : Nat} :
    index < source.line offset ↔ ∃ start ∈ source.lineStarts[index]?, start ≤ offset :=
  Line.lt_countP_iff source.lineStarts_ascending index

theorem startOfLine_le (source : Source) (offset : Nat) :
    source.startOfLine (source.line offset) ≤ offset := by
  have some := source.line_pos offset
  obtain ⟨start, found, le⟩ := lt_line_iff.1 (Nat.sub_lt some Nat.one_pos)
  rw [startOfLine, List.getD_eq_getElem?_getD, found]
  exact le

theorem lineAt_eq (source : Source) {offset : Nat} (inside : offset ≤ source.length) :
    source.lineAt offset = .ok (source.line offset) := by
  rw [lineAt, checkOffset, if_pos inside]
  rfl

theorem columnAt_eq (source : Source) {offset : Nat} (inside : offset ≤ source.length) :
    source.columnAt offset = .ok (source.column offset) := by
  rw [columnAt, checkOffset, if_pos inside]
  rfl

end Source
end WrenFront
