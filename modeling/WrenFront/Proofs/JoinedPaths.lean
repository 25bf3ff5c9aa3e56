import Mathlib.Data.List.Basic
import Mathlib.Data.List.TakeWhile
import WrenFront.Proofs.DirectoryListing
import WrenFront.Proofs.EncodedText

/-! Paths made by joining names to a path. However the path is written, its own names come first and
then those that were joined to it. What a joined name ends in is its extension. -/

namespace WrenFront

open Text.Utf8

/-- A name that a path can be joined with: one that an entry can have, and a text. -/
def FileName.Joinable (name : FileName) : Prop :=
  name.Legal ∧ ∃ string, name = encode string

namespace Path

/-- The path of what is at a place below a path. -/
def extend (path : String) (place : Place) : String :=
  place.foldl (fun path name => join path (text name)) path

/-- The names between the slashes, where a slash at the end asks for nothing. -/
def parts (bytes : List UInt8) : List FileName :=
  (bytes.splitOn slash).filter (!·.isEmpty)

theorem parts_slash (bytes more : List UInt8) :
    parts (bytes ++ slash :: more) = parts bytes ++ parts more := by
  rw [parts, List.splitOn_append_cons_self, List.filter_append]
  rfl

theorem parts_name {name : FileName} (legal : name.Legal) : parts name = [name] := by
  rw [parts, List.splitOn_eq_singleton legal.noSlash]
  simp [legal.some]

theorem encode_slash : encode "/" = [slash] := by
  decide

theorem endsWith_slash {path : String} (ends : path.endsWith "/") :
    ∃ before, path = before ++ "/" := by
  rw [String.endsWith_eq_endsWith_toSlice, String.Slice.endsWith_string_iff] at ends
  obtain ⟨before, same⟩ := ends
  refine ⟨.ofList before, ?_⟩
  rw [← String.toList_inj, String.toList_append, String.toList_ofList, same, String.copy_toSlice]

theorem parts_join (path : String) {name : String} (legal : FileName.Legal (encode name)) :
    parts (encode (join path name)) = parts (encode path) ++ [encode name] := by
  rw [join]
  split
  · next ends =>
    obtain ⟨before, rfl⟩ := endsWith_slash ends
    have nothing : parts [] = [] := by
      decide
    rw [encode_append, encode_append, encode_slash, List.append_assoc, List.singleton_append,
      parts_slash, parts_slash, parts_name legal, nothing, List.append_nil]
  · rw [encode_append, encode_append, encode_slash, List.append_assoc, List.singleton_append,
      parts_slash, parts_name legal]

theorem parts_extend (path : String) {place : Place}
    (joinable : ∀ name ∈ place, FileName.Joinable name) :
    parts (encode (extend path place)) = parts (encode path) ++ place := by
  induction place generalizing path with
  | nil => simp [extend]
  | cons name rest ih =>
    obtain ⟨⟨legal, string, rfl⟩, others⟩ := List.forall_mem_cons.1 joinable
    change parts (encode (extend (join path (text (encode string))) rest)) = _
    rw [ih _ others, text_encode, parts_join path legal, List.append_assoc]
    rfl

theorem getLast?_join (path : String) {name : String} (legal : FileName.Legal (encode name)) :
    (encode (join path name)).getLast? ≠ some slash := by
  have same : ∃ before, encode (join path name) = before ++ encode name := by
    rw [join]
    split
    · exact ⟨_, encode_append _ _⟩
    · exact ⟨_, encode_append _ _⟩
  obtain ⟨before, same⟩ := same
  rw [same, List.getLast?_append_of_ne_nil _ legal.some]
  intro last
  exact legal.noSlash (List.mem_of_getLast? last)

/-- The names of a path come first, then those joined to it. -/
theorem names_extend (path : String) {place : Place} (some : place ≠ [])
    (joinable : ∀ name ∈ place, FileName.Joinable name) :
    (ofBytes (encode (extend path place))).names = parts (encode path) ++ place := by
  have noSlash : (encode (extend path place)).getLast? ≠ .some slash := by
    obtain ⟨above, name, rfl⟩ := (List.eq_nil_or_concat' place).resolve_left some
    obtain ⟨legal, string, rfl⟩ := joinable name (by simp)
    rw [extend, List.foldl_append]
    change (encode (join _ (text (encode string)))).getLast? ≠ _
    rw [text_encode]
    exact getLast?_join _ legal
  rw [← parts_extend path joinable]
  simp [ofBytes, parts, noSlash]

theorem extension?_dot {stem ending : List Char} (noDot : '.' ∉ ending) :
    extension? (stem ++ '.' :: ending) = if stem.isEmpty then none else some ending := by
  have reversed : (stem ++ '.' :: ending).reverse = ending.reverse ++ '.' :: stem.reverse := by
    simp
  have last : (ending.reverse ++ '.' :: stem.reverse).takeWhile (· ≠ '.') = ending.reverse := by
    rw [List.takeWhile_append_of_pos]
    · simp
    · intro char member
      exact decide_eq_true fun same => noDot (same ▸ List.mem_reverse.1 member)
  simp only [extension?, reversed, last, List.drop_left, List.drop_succ_cons, List.drop_zero,
    List.isEmpty_reverse, List.reverse_reverse]

theorem extension?_noDot {name : List Char} (noDot : '.' ∉ name) : extension? name = none := by
  have last : name.reverse.takeWhile (· ≠ '.') = name.reverse := by
    rw [List.takeWhile_eq_self_iff]
    intro char member
    exact decide_eq_true fun same => noDot (same ▸ List.mem_reverse.1 member)
  simp only [extension?, last, List.drop_length, List.drop_nil, List.isEmpty_nil, if_true]

/-- A name has an extension when it ends in a dot and that extension, and something stands before
the dot. -/
theorem extension?_eq_some_iff {name ending : List Char} (noDot : '.' ∉ ending) :
    extension? name = some ending ↔ ∃ stem, stem ≠ [] ∧ name = stem ++ '.' :: ending := by
  constructor
  · intro found
    by_cases dot : '.' ∈ name
    · -- The first dot from behind is the last.
      obtain ⟨stem, last, rfl, plain⟩ : ∃ stem last, name = stem ++ '.' :: last ∧ '.' ∉ last := by
        obtain ⟨after, before, same, first⟩ := List.eq_append_cons_of_mem (List.mem_reverse.2 dot)
        exact ⟨before.reverse, after.reverse, by simpa using congrArg List.reverse same, by simpa⟩
      rw [extension?_dot plain] at found
      split at found
      · cases found
      · next some =>
        cases found
        exact ⟨stem, by simpa using some, rfl⟩
    · rw [extension?_noDot dot] at found
      cases found
  · rintro ⟨stem, some, rfl⟩
    rw [extension?_dot noDot, if_neg (by simpa using some)]

end Path
end WrenFront
