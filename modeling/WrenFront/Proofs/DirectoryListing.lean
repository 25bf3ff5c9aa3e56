import WrenFront.FileTree

/-! The order in which a directory lists its entries. Since no two entries of a directory have the
same name, it makes no difference to what a place leads to, nor to where a path leads, however the
entries of each directory are listed. -/

namespace WrenFront

/-- A name that an entry can have. -/
structure FileName.Legal (name : FileName) : Prop where
  some : name ≠ []
  noSlash : Path.slash ∉ name

instance (name : FileName) : Decidable name.Legal :=
  decidable_of_iff (name ≠ [] ∧ Path.slash ∉ name)
    ⟨fun both => ⟨both.1, both.2⟩, fun legal => ⟨legal.some, legal.noSlash⟩⟩

/-- What a node holds at a place below it. -/
def Node.get? : Node → Place → Option Node
  | .directory inner, place => inner.get? place
  | node, place => if place.isEmpty then some node else none

namespace Directory

theorem get?_cons (directory : Directory) (name : FileName) (rest : Place) :
    directory.get? (name :: rest) = (directory.lookup? name).bind (·.get? rest) := by
  rw [get?]
  cases directory.lookup? name with
  | none => simp
  | some node => cases node <;> rfl

/-- A directory of a file system: no two of its entries have the same name, every name is one that
an entry can have, and so it goes on below. -/
inductive Proper : Directory → Prop where
  | mk {refusal : Option SystemError} {entries : List Entry}
      (distinct : (entries.map Entry.name).Nodup) (legal : ∀ entry ∈ entries, entry.name.Legal)
      (below : ∀ name inner, .mk name (.directory inner) ∈ entries → inner.Proper) :
      Proper (.mk refusal entries)

theorem lookup?_mk_cons (refusal : Option SystemError) (first name : FileName) (node : Node)
    (rest : List Entry) : lookup? (.mk refusal (.mk first node :: rest)) name =
      if first = name then some node else lookup? (.mk refusal rest) name := by
  by_cases same : first = name
  · simp [lookup?, entries, Entry.name, Entry.node, same]
  · simp [lookup?, entries, Entry.name, same]

theorem lookup?_eq_none (refusal : Option SystemError) {entries : List Entry} {name : FileName}
    (absent : name ∉ entries.map Entry.name) : lookup? (.mk refusal entries) name = none := by
  rw [lookup?, Option.map_eq_none_iff, List.find?_eq_none]
  intro entry member same
  exact absent (List.mem_map.2 ⟨entry, member, beq_iff_eq.1 same⟩)

theorem lookup?_iff {refusal : Option SystemError} {entries : List Entry}
    (distinct : (entries.map Entry.name).Nodup) {name : FileName} {node : Node} :
    lookup? (.mk refusal entries) name = some node ↔ Entry.mk name node ∈ entries := by
  induction entries with
  | nil => simp [lookup?, Directory.entries]
  | cons entry rest ih =>
    obtain ⟨first, held⟩ := entry
    obtain ⟨fresh, others⟩ := List.nodup_cons.1 distinct
    rw [lookup?_mk_cons, List.mem_cons]
    by_cases same : first = name
    · subst same
      have absent (member : Entry.mk first node ∈ rest) : False :=
        fresh (List.mem_map.2 ⟨_, member, rfl⟩)
      rw [if_pos rfl]
      simp only [Option.some.injEq, Entry.mk.injEq, true_and]
      exact ⟨fun held => .inl held.symm, fun found => found.elim Eq.symm fun later =>
        (absent later).elim⟩
    · rw [if_neg same, ih others]
      simp [Ne.symm same]

theorem Proper.get? {directory inner : Directory} {place : Place} (proper : directory.Proper)
    (found : directory.get? place = some (.directory inner)) : inner.Proper := by
  induction place generalizing directory with
  | nil =>
    cases found
    exact proper
  | cons name rest ih =>
    obtain ⟨distinct, -, below⟩ := proper
    rw [get?_cons] at found
    obtain ⟨node, listed, held⟩ := Option.bind_eq_some_iff.1 found
    cases node with
    | directory next => exact ih (below name next ((lookup?_iff distinct).1 listed)) held
    | _ => cases rest <;> cases held

end Directory

mutual
/-- The same node, whose directories may list their entries in another order. -/
inductive Node.Relisted : Node → Node → Prop where
  | file (file : File) : Node.Relisted (.file file) (.file file)
  | link (target : List UInt8) : Node.Relisted (.link target) (.link target)
  | directory {first second : Directory} (relisted : Directory.Relisted first second) :
      Node.Relisted (.directory first) (.directory second)

inductive Directory.Relisted : Directory → Directory → Prop where
  | mk {refusal : Option SystemError} {entries aligned listed : List Entry}
      (each : Entry.Relisted entries aligned) (order : aligned.Perm listed) :
      Directory.Relisted (.mk refusal entries) (.mk refusal listed)

/-- Entries of the same names in the same order, with the nodes relisted. -/
inductive Entry.Relisted : List Entry → List Entry → Prop where
  | nil : Entry.Relisted [] []
  | cons {name : FileName} {first second : Node} {rest others : List Entry}
      (relisted : Node.Relisted first second) (more : Entry.Relisted rest others) :
      Entry.Relisted (.mk name first :: rest) (.mk name second :: others)
end

namespace Entry.Relisted
variable {entries aligned : List Entry}

theorem names (relisted : Entry.Relisted entries aligned) :
    aligned.map Entry.name = entries.map Entry.name := by
  induction entries generalizing aligned with
  | nil =>
    cases relisted
    rfl
  | cons entry rest ih =>
    cases relisted with
    | cons _ more => exact congrArg (List.cons _) (ih more)

/-- Every entry has a counterpart, and is one. -/
theorem counterpart (relisted : Entry.Relisted entries aligned) (name : FileName) :
    (∀ first, Entry.mk name first ∈ entries →
      ∃ second, Entry.mk name second ∈ aligned ∧ first.Relisted second) ∧
    ∀ second, Entry.mk name second ∈ aligned →
      ∃ first, Entry.mk name first ∈ entries ∧ first.Relisted second := by
  induction entries generalizing aligned with
  | nil =>
    cases relisted
    simp
  | cons entry rest ih =>
    cases relisted with
    | cons same more =>
      obtain ⟨forward, backward⟩ := ih more
      constructor
      · intro first member
        rcases List.mem_cons.1 member with here | later
        · cases here
          exact ⟨_, List.mem_cons_self, same⟩
        · obtain ⟨second, found, relisted⟩ := forward first later
          exact ⟨second, List.mem_cons_of_mem _ found, relisted⟩
      · intro second member
        rcases List.mem_cons.1 member with here | later
        · cases here
          exact ⟨_, List.mem_cons_self, same⟩
        · obtain ⟨first, found, relisted⟩ := backward second later
          exact ⟨first, List.mem_cons_of_mem _ found, relisted⟩

end Entry.Relisted

namespace Directory.Relisted
variable {first second : Directory}

theorem lookup? (relisted : first.Relisted second) (proper : first.Proper) (name : FileName) :
    Option.Rel Node.Relisted (first.lookup? name) (second.lookup? name) := by
  obtain ⟨each, order⟩ := relisted
  obtain ⟨distinct, -, -⟩ := proper
  obtain ⟨forward, backward⟩ := each.counterpart name
  have distinctToo := distinct
  rw [← each.names, (order.map Entry.name).nodup_iff] at distinctToo
  cases found : Directory.lookup? _ name with
  | some node =>
    obtain ⟨other, member, same⟩ := forward node ((lookup?_iff distinct).1 found)
    rw [(lookup?_iff distinctToo).2 (order.mem_iff.1 member)]
    exact .some same
  | none =>
    cases foundToo : Directory.lookup? _ name with
    | none => exact .none
    | some other =>
      have member := order.mem_iff.2 ((lookup?_iff distinctToo).1 foundToo)
      obtain ⟨node, memberToo, -⟩ := backward other member
      rw [(lookup?_iff distinct).2 memberToo] at found
      cases found

/-- Whatever stands at a place stands there too if the entries are listed otherwise. -/
theorem get? (relisted : first.Relisted second) (proper : first.Proper) (place : Place) :
    Option.Rel Node.Relisted (first.get? place) (second.get? place) := by
  induction place generalizing first second with
  | nil => exact .some (.directory relisted)
  | cons name rest ih =>
    have named := relisted.lookup? proper name
    rw [get?_cons, get?_cons]
    generalize listed : first.lookup? name = held, second.lookup? name = other at named
    cases named with
    | none => exact .none
    | some same =>
      cases same with
      | file file => cases rest with
        | nil => exact .some (.file file)
        | cons _ _ => exact .none
      | link target => cases rest with
        | nil => exact .some (.link target)
        | cons _ _ => exact .none
      | @directory inner others relisted =>
        have held : first.get? [name] = some (.directory inner) := by
          rw [get?_cons, listed]
          rfl
        exact ih relisted (proper.get? held)

theorem proper (relisted : first.Relisted second) (proper : first.Proper) : second.Proper := by
  induction proper generalizing second with
  | mk distinct legal below ih =>
    obtain ⟨each, order⟩ := relisted
    rw [← each.names] at distinct
    refine .mk ((order.map Entry.name).nodup_iff.1 distinct) ?_ ?_
    · rintro ⟨name, node⟩ member
      obtain ⟨other, found, -⟩ := (each.counterpart name).2 node (order.mem_iff.2 member)
      exact legal (.mk name other) found
    · intro name inner member
      obtain ⟨other, found, same⟩ := (each.counterpart name).2 _ (order.mem_iff.2 member)
      cases same with
      | directory relisted => exact ih name _ found relisted

theorem get?_directory (relisted : first.Relisted second) (proper : first.Proper) {place : Place}
    {inner : Directory} (found : first.get? place = some (.directory inner)) :
    ∃ other, second.get? place = some (.directory other) ∧ inner.Relisted other := by
  have held := relisted.get? proper place
  rw [found] at held
  generalize second.get? place = node at held ⊢
  cases held with
  | some same =>
    cases same with
    | directory relisted => exact ⟨_, rfl, relisted⟩

/-- What is no directory is the same. -/
theorem get?_same (relisted : first.Relisted second) (proper : first.Proper) {place : Place}
    (other : ∀ inner, first.get? place ≠ some (.directory inner)) :
    second.get? place = first.get? place := by
  have held := relisted.get? proper place
  generalize first.get? place = node, second.get? place = node' at held other ⊢
  cases held with
  | none => rfl
  | some same =>
    cases same with
    | directory _ => exact (other _ rfl).elim
    | _ => rfl

theorem get?_file_iff (relisted : first.Relisted second) (proper : first.Proper) {place : Place}
    {file : File} :
    second.get? place = some (.file file) ↔ first.get? place = some (.file file) := by
  by_cases within : ∃ inner, first.get? place = some (.directory inner)
  · obtain ⟨inner, found⟩ := within
    obtain ⟨other, foundToo, -⟩ := relisted.get?_directory proper found
    simp [found, foundToo]
  · rw [relisted.get?_same proper fun inner found => within ⟨inner, found⟩]

/-- Names lead to the same place. -/
theorem locate (relisted : first.Relisted second) (proper : first.Proper) (links : Nat)
    (start : Place) (names : List FileName) :
    second.locate links start names = first.locate links start names := by
  fun_induction first.locate links start names with
  | case1 => rw [Directory.locate]
  | case2 links start rest ih => rw [Directory.locate, if_pos rfl, ih]
  | case3 links start rest notHere ih => rw [Directory.locate, if_neg notHere, if_pos rfl, ih]
  | case4 links start name rest notHere notParent long =>
    rw [Directory.locate, if_neg notHere, if_neg notParent, if_pos long]
  | case5 links start name rest notHere notParent short inner found ih =>
    obtain ⟨other, foundToo, -⟩ := relisted.get?_directory proper found
    rw [Directory.locate, if_neg notHere, if_neg notParent, if_neg short, foundToo]
    exact ih
  | case6 _ start name rest notHere notParent short _ found ends
  | case7 _ start name rest notHere notParent short _ found ends
  | case8 _ start name rest notHere notParent short found ends
  | case9 _ start name rest notHere notParent short found ends =>
    have same : second.get? (start ++ [name]) = _ := relisted.get?_same proper (by simp [found])
    rw [Directory.locate, if_neg notHere, if_neg notParent, if_neg short, same, found]
    simp only [ends, if_true, if_false, Bool.false_eq_true]
  | case10 start name rest notHere notParent short target found =>
    have same : second.get? (start ++ [name]) = _ := relisted.get?_same proper (by simp [found])
    rw [Directory.locate, if_neg notHere, if_neg notParent, if_neg short, same, found]
  | case11 start name rest notHere notParent short target found links path ih =>
    have same : second.get? (start ++ [name]) = _ := relisted.get?_same proper (by simp [found])
    rw [Directory.locate, if_neg notHere, if_neg notParent, if_neg short, same, found]
    exact ih

end Directory.Relisted

namespace FileTree

/-- The same files, whose directories may list their entries in another order. -/
structure Relisted (first second : FileTree) : Prop where
  root : first.root.Relisted second.root
  working : second.working = first.working

theorem target_directory_iff {tree : FileTree} {path : Path} {directory : Directory} :
    tree.target path = .ok (.directory directory) ↔
      ∃ place, tree.locate path = .ok place ∧
        tree.root.get? place = some (.directory directory) := by
  rw [target]
  cases tree.locate path with
  | error cause => simp [bind, Except.bind]
  | ok place =>
    simp only [bind, Except.bind, Except.ok.injEq, exists_eq_left']
    cases tree.root.get? place with
    | none => simp
    | some node => cases node <;> simp [pure, Except.pure]

theorem follow_directory_iff {tree : FileTree} {path : String} {directory : Directory} :
    tree.follow path = .ok (.directory directory) ↔
      Text.Utf8.encode path ≠ [] ∧ (Text.Utf8.encode path).length ≤ Path.maxLength ∧
      ∃ place, tree.locate (.ofBytes (Text.Utf8.encode path)) = .ok place ∧
        tree.root.get? place = some (.directory directory) := by
  rw [follow, ← target_directory_iff]
  generalize Text.Utf8.encode path = bytes
  split
  · next empty => simp [List.isEmpty_iff.1 empty]
  split
  · next long => simp [Nat.not_le.2 long]
  · next some short =>
    rw [List.isEmpty_iff] at some
    simp [some, Nat.not_lt.1 short]

variable {tree other : FileTree}

/-- A path that leads to a directory leads to that directory if its entries are listed otherwise. -/
theorem Relisted.follow (relisted : tree.Relisted other) (proper : tree.root.Proper) {path : String}
    {directory : Directory} (leads : tree.follow path = .ok (.directory directory)) :
    ∃ listed, other.follow path = .ok (.directory listed) ∧ directory.Relisted listed := by
  obtain ⟨some, short, place, located, found⟩ := follow_directory_iff.1 leads
  obtain ⟨listed, foundToo, same⟩ := relisted.root.get?_directory proper found
  rw [locate, ← relisted.root.locate proper, ← relisted.working] at located
  exact ⟨listed, follow_directory_iff.2 ⟨some, short, place, located, foundToo⟩, same⟩

theorem follow_proper (proper : tree.root.Proper) {path : String} {directory : Directory}
    (leads : tree.follow path = .ok (.directory directory)) : directory.Proper := by
  obtain ⟨-, -, place, -, found⟩ := follow_directory_iff.1 leads
  exact proper.get? found

end FileTree
end WrenFront
