import Mathlib.Data.List.Lex
import Mathlib.Data.List.Sort
import WrenFront.FileTree.Scripts
import WrenFront.Proofs.JoinedPaths

/-! What a search finds: the scripts that stand below a directory, without a link on the way, each
of them once and in the order of the names in their paths. In what order the directories list their
entries makes no difference. -/

namespace WrenFront

open Text.Utf8

/-- The place of something with the scripts' extension. A name that is nothing but the extension
has none. -/
def Place.OfScript (place : Place) : Prop :=
  ∃ above stem, stem ≠ "" ∧ place = above ++ [encode (stem ++ ".wren")]

theorem Place.ofScript_iff (above : Place) (name : String) :
    OfScript (above ++ [encode name]) ↔
      Path.extension? name.toList = some ScriptFile.fileExtension := by
  rw [Path.extension?_eq_some_iff (by decide)]
  constructor
  · rintro ⟨_, stem, some, same⟩
    obtain ⟨-, last⟩ := List.append_inj' same rfl
    have whole := encode_inj (List.singleton_inj.1 last)
    refine ⟨stem.toList, by simpa using some, ?_⟩
    rw [whole, String.toList_append]
    rfl
  · rintro ⟨stem, some, same⟩
    refine ⟨above, .ofList stem, by simpa using some, ?_⟩
    have whole : name = .ofList stem ++ ".wren" := by
      rw [← String.toList_inj, same, String.toList_append, String.toList_ofList]
      rfl
    rw [whole]

namespace Directory

/-- A directory that can be searched: it can be read, every name in it is a text unless it is that
of a link, and so it goes on below. -/
inductive Searchable : Directory → Prop where
  | mk {entries : List Entry}
      (named : ∀ name node, .mk name node ∈ entries → (∀ target, node ≠ .link target) →
        ∃ string, name = encode string)
      (below : ∀ name inner, .mk name (.directory inner) ∈ entries → inner.Searchable) :
      Searchable (.mk none entries)

theorem Searchable.relisted {directory listed : Directory} (searchable : directory.Searchable)
    (relisted : directory.Relisted listed) : listed.Searchable := by
  induction searchable generalizing listed with
  | mk named below ih =>
    obtain ⟨each, order⟩ := relisted
    constructor
    · intro name node member noLink
      obtain ⟨other, found, same⟩ := (each.counterpart name).2 node (order.mem_iff.2 member)
      refine named name other found ?_
      rintro target rfl
      cases same
      exact noLink target rfl
    · intro name inner member
      obtain ⟨other, found, same⟩ := (each.counterpart name).2 _ (order.mem_iff.2 member)
      cases same with
      | directory within => exact ih name _ found within

/-- What a directory can be searched for has a path. -/
theorem joinable {directory : Directory} (proper : directory.Proper)
    (searchable : directory.Searchable) {place : Place} {node : Node}
    (held : directory.get? place = some node) (noLink : ∀ target, node ≠ .link target) :
    ∀ name ∈ place, FileName.Joinable name := by
  induction place generalizing directory with
  | nil => exact fun _ member => nomatch member
  | cons name rest ih =>
    obtain ⟨distinct, legal, properBelow⟩ := proper
    obtain ⟨named, below⟩ := searchable
    rw [get?_cons] at held
    obtain ⟨first, found, within⟩ := Option.bind_eq_some_iff.1 held
    have listed := (lookup?_iff distinct).1 found
    cases first with
    | directory inner =>
      refine List.forall_mem_cons.2 ⟨⟨legal _ listed, named name _ listed fun _ => nofun⟩, ?_⟩
      exact ih (properBelow name inner listed) (below name inner listed) within
    | _ => cases rest with
      | nil =>
        cases within
        exact List.forall_mem_singleton.2 ⟨legal _ listed, named name _ listed noLink⟩
      | cons _ _ => cases within

/-- A file stands below the first entry or below the others. -/
theorem get?_mk_cons {refusal : Option SystemError} {name : FileName} {node : Node}
    {rest : List Entry} (fresh : name ∉ rest.map Entry.name) {place : Place} {file : File} :
    get? (.mk refusal (.mk name node :: rest)) place = some (.file file) ↔
      (∃ more, place = name :: more ∧ node.get? more = some (.file file)) ∨
      get? (.mk refusal rest) place = some (.file file) := by
  cases place with
  | nil => simp [Directory.get?]
  | cons first more =>
    rw [get?_cons, get?_cons, lookup?_mk_cons]
    by_cases same : name = first
    · subst same
      simp [lookup?_eq_none refusal fresh]
    · simp [same, Ne.symm same]

end Directory

namespace ScriptFile

/-- The names in the path that a script is reported by. -/
def components (script : ScriptFile) : List FileName :=
  (Path.ofBytes (encode script.path)).names

/-- A script where `held` says that a file stands, reported below a path and below the names that
lead there. -/
def Stands (held : Place → Option Node) (path : String) (names : Place) (script : ScriptFile) :
    Prop :=
  ∃ place, held place = some (.file script.file) ∧ script.names = names ++ place ∧
    script.path = Path.extend path place ∧ Place.OfScript script.names

/-- All the scripts that stand there, each of them once. -/
structure Exactly (held : Place → Option Node) (path : String) (names : Place)
    (found : List ScriptFile) : Prop where
  mem_iff : ∀ script, script ∈ found ↔ script.Stands held path names
  once : (found.map ScriptFile.names).Nodup

section Stands
variable {refusal : Option SystemError} {path : String} {names : Place} {rest : List Entry}
  {script : ScriptFile}

theorem not_stands_nil : ¬ script.Stands (Directory.mk refusal []).get? path names := by
  rintro ⟨_ | ⟨name, _ | _⟩, held, -⟩ <;> cases held

/-- Nothing stands below a link. -/
theorem stands_link_iff {name : FileName} {target : List UInt8}
    (fresh : name ∉ rest.map Entry.name) :
    script.Stands (Directory.mk refusal (.mk name (.link target) :: rest)).get? path names ↔
      script.Stands (Directory.mk refusal rest).get? path names := by
  simp [Stands, Directory.get?_mk_cons fresh, Node.get?]

theorem stands_cons_iff {name : String} {node : Node} (fresh : encode name ∉ rest.map Entry.name) :
    script.Stands (Directory.mk refusal (.mk (encode name) node :: rest)).get? path names ↔
      script.Stands node.get? (Path.join path name) (names ++ [encode name]) ∨
      script.Stands (Directory.mk refusal rest).get? path names := by
  have extended (more : Place) :
      Path.extend path (encode name :: more) = Path.extend (Path.join path name) more := by
    rw [Path.extend, List.foldl_cons, text_encode]
    rfl
  simp only [Stands, Directory.get?_mk_cons fresh, or_and_right, exists_or]
  refine or_congr_left ⟨?_, ?_⟩
  · rintro ⟨_, ⟨more, rfl, held⟩, led, reported, named⟩
    exact ⟨more, held, by simpa using led, extended more ▸ reported, named⟩
  · rintro ⟨more, held, led, reported, named⟩
    exact ⟨_, ⟨more, rfl, held⟩, by simpa using led, (extended more).symm ▸ reported, named⟩

theorem stands_file_iff {name : String} {file : File} :
    script.Stands (Node.file file).get? path (names ++ [encode name]) ↔
      script = ⟨path, names ++ [encode name], file⟩ ∧
        Path.extension? name.toList = some fileExtension := by
  rw [← Place.ofScript_iff names]
  constructor
  · obtain ⟨reported, led, content⟩ := script
    rintro ⟨_ | _, held, same, rfl, named⟩
    · cases held
      rw [List.append_nil] at same
      subst same
      exact ⟨rfl, named⟩
    · cases held
  · rintro ⟨rfl, named⟩
    exact ⟨[], rfl, (List.append_nil _).symm, rfl, named⟩

theorem stands_nil_iff {held : Place → Option Node} :
    script.Stands held path [] ↔ held script.names = some (.file script.file) ∧
      Place.OfScript script.names ∧ script.path = Path.extend path script.names := by
  constructor
  · rintro ⟨place, found, rfl, reported, named⟩
    exact ⟨found, named, reported⟩
  · rintro ⟨found, named, reported⟩
    exact ⟨script.names, found, rfl, reported, named⟩

end Stands

namespace Exactly
variable {refusal : Option SystemError} {path : String} {names : Place} {node : Node}
  {rest : List Entry} {found others : List ScriptFile}

theorem nil : Exactly (Directory.mk refusal []).get? path names [] :=
  ⟨fun script => by simp [not_stands_nil], List.nodup_nil⟩

theorem link {name : FileName} {target : List UInt8} (fresh : name ∉ rest.map Entry.name)
    (exactly : Exactly (Directory.mk refusal rest).get? path names found) :
    Exactly (Directory.mk refusal (.mk name (.link target) :: rest)).get? path names found :=
  ⟨fun script => by rw [exactly.mem_iff, stands_link_iff fresh], exactly.once⟩

/-- The scripts of the first entry, then those of the others. -/
theorem append {name : String} (fresh : encode name ∉ rest.map Entry.name)
    (exactly : Exactly node.get? (Path.join path name) (names ++ [encode name]) found)
    (exactlyOthers : Exactly (Directory.mk refusal rest).get? path names others) :
    Exactly (Directory.mk refusal (.mk (encode name) node :: rest)).get? path names
      (found ++ others) where
  mem_iff script := by
    rw [List.mem_append, exactly.mem_iff, exactlyOthers.mem_iff, stands_cons_iff fresh]
  once := by
    rw [List.map_append, List.nodup_append]
    refine ⟨exactly.once, exactlyOthers.once, ?_⟩
    intro led member ledToo memberToo same
    obtain ⟨script, listed, rfl⟩ := List.mem_map.1 member
    obtain ⟨other, listedToo, rfl⟩ := List.mem_map.1 memberToo
    obtain ⟨more, -, below, -⟩ := (exactly.mem_iff script).1 listed
    obtain ⟨place, held, belowToo, -⟩ := (exactlyOthers.mem_iff other).1 listedToo
    rw [below, belowToo, List.append_assoc] at same
    -- The names would have to pass through an entry of the same name among the others.
    rw [← List.append_cancel_left same, List.singleton_append, Directory.get?_cons,
      Directory.lookup?_eq_none refusal fresh] at held
    cases held

theorem file (path : String) (names : Place) (name : String) (file : File) :
    ∃ found, (Node.file file).scripts path (names ++ [encode name]) name = .ok found ∧
      Exactly (Node.file file).get? path (names ++ [encode name]) found := by
  rw [Node.scripts]
  split
  · next named =>
    exact ⟨_, rfl, fun script => by simp [stands_file_iff, named], List.nodup_singleton _⟩
  · next other =>
    exact ⟨_, rfl, fun script => by simp [stands_file_iff, other], List.nodup_nil⟩

end Exactly
end ScriptFile

open ScriptFile (Exactly)

/-- The scripts of some entries, given those of each. -/
theorem Entry.scripts_exactly (refusal : Option SystemError) (path : String) (names : Place)
    {entries : List Entry} (distinct : (entries.map Entry.name).Nodup)
    (each : ∀ name node, .mk name node ∈ entries → (∀ target, node ≠ .link target) →
      ∃ string found, name = encode string ∧
        node.scripts (Path.join path string) (names ++ [name]) string = .ok found ∧
        Exactly node.get? (Path.join path string) (names ++ [name]) found) :
    ∃ found, Entry.scripts path names entries = .ok found ∧
      Exactly (Directory.mk refusal entries).get? path names found := by
  induction entries with
  | nil => exact ⟨[], rfl, .nil⟩
  | cons entry rest ih =>
    obtain ⟨fresh, others⟩ := List.nodup_cons.1 distinct
    obtain ⟨later, searched, exactlyOthers⟩ :=
      ih others fun name node member => each name node (List.mem_cons_of_mem _ member)
    obtain ⟨name, node⟩ := entry
    by_cases link : ∃ target, node = .link target
    · obtain ⟨target, rfl⟩ := link
      exact ⟨later, by rw [Entry.scripts, searched], exactlyOthers.link fresh⟩
    · have other (target : List UInt8) : node ≠ .link target := fun same => link ⟨target, same⟩
      obtain ⟨string, found, rfl, searchedToo, exactly⟩ := each name node List.mem_cons_self other
      refine ⟨found ++ later, ?_, exactly.append fresh exactlyOthers⟩
      rw [Entry.scripts, text?_encode]
      · simp only [searchedToo, searched]
        rfl
      · exact other

namespace Directory

/-- Everything below a directory is searched, however deep. -/
theorem scripts_exactly {directory : Directory} (proper : directory.Proper)
    (searchable : directory.Searchable) (path : String) (names : Place) :
    ∃ found, directory.scripts path names = .ok found ∧
      Exactly directory.get? path names found := by
  induction proper generalizing path names with
  | @mk refusal entries distinct legal below ih =>
    obtain ⟨named, searchableBelow⟩ := searchable
    rw [Directory.scripts]
    apply Entry.scripts_exactly none path names distinct
    intro name node member other
    obtain ⟨string, rfl⟩ := named name node member other
    cases node with
    | link target => exact (other target rfl).elim
    | file file =>
      obtain ⟨found, searched, exactly⟩ := Exactly.file (Path.join path string) names string file
      exact ⟨string, found, rfl, searched, exactly⟩
    | directory inner =>
      obtain ⟨found, searched, exactly⟩ := ih _ inner member
        (searchableBelow _ inner member) (Path.join path string) (names ++ [encode string])
      exact ⟨string, found, rfl, by rw [Node.scripts, searched], exactly⟩

end Directory

/-- Lists are compared as their members are. -/
theorem compareLex_eq_lt_iff {α : Type} [LT α] {cmp : α → α → Ordering} [Std.LawfulEqCmp cmp]
    (each : ∀ first second, cmp first second = .lt ↔ first < second) (first second : List α) :
    List.compareLex cmp first second = .lt ↔ first < second := by
  induction first generalizing second with
  | nil => cases second <;> simp [List.compareLex]
  | cons head tail ih =>
    cases second with
    | nil => simp [List.compareLex]
    | cons other rest =>
      rw [List.compareLex_cons_cons, Ordering.then_eq_lt, List.cons_lt_cons_iff, each,
        Std.LawfulEqCmp.compare_eq_iff_eq, ih]

namespace ScriptFile

theorem before_iff {first second : ScriptFile} :
    first.before second ↔ first.names < second.names ∨ first.names = second.names := by
  have order := compareLex_eq_lt_iff
    (compareLex_eq_lt_iff fun (first second : UInt8) => Std.compare_eq_lt)
  rw [before, Ordering.isLE_iff_eq_lt_or_eq_eq, order, Std.LawfulEqCmp.compare_eq_iff_eq]

/-- Sorting puts scripts at different places in strict order. -/
theorem sort_ascending {found : List ScriptFile} (once : (found.map names).Nodup) :
    (found.mergeSort before).Pairwise fun first second => first.names < second.names := by
  have sorted : (found.mergeSort before).Pairwise fun first second => first.before second := by
    apply List.pairwise_mergeSort
    · intro first second third
      exact Std.TransCmp.isLE_trans
    · intro first second
      have swap : List.compareLex (List.compareLex compare) first.names second.names =
        (List.compareLex (List.compareLex compare) second.names first.names).swap :=
          Std.OrientedCmp.eq_swap
      rw [before, before, swap]
      cases List.compareLex (List.compareLex compare) second.names first.names <;> rfl
  have apart := ((List.mergeSort_perm found before).map names).nodup_iff.2 once
  rw [List.Nodup, List.pairwise_map] at apart
  exact sorted.imp₂ (fun _ _ before apart => (before_iff.1 before).resolve_right apart) apart

end ScriptFile

namespace Directory
variable {directory listed : Directory}

/-- The path of a script that is found ends in the names that lead to it. -/
theorem components_eq (proper : directory.Proper) (searchable : directory.Searchable)
    {path : String} {script : ScriptFile} (stands : script.Stands directory.get? path []) :
    script.components = Path.parts (encode path) ++ script.names := by
  obtain ⟨held, named, reported⟩ := ScriptFile.stands_nil_iff.1 stands
  have some : script.names ≠ [] := by
    obtain ⟨above, stem, -, same⟩ := named
    simp [same]
  rw [ScriptFile.components, reported]
  exact Path.names_extend path some (joinable proper searchable held fun _ => nofun)

theorem sortedScripts_exactly (proper : directory.Proper) (searchable : directory.Searchable)
    (path : String) :
    ∃ scripts, directory.sortedScripts path = .ok scripts ∧
      (∀ script, script ∈ scripts ↔ script.Stands directory.get? path []) ∧
      scripts.Pairwise fun first second => first.names < second.names := by
  obtain ⟨found, searched, exactly⟩ := directory.scripts_exactly proper searchable path []
  refine ⟨found.mergeSort ScriptFile.before, ?_, ?_, ScriptFile.sort_ascending exactly.once⟩
  · rw [sortedScripts, searched]
    rfl
  · intro script
    rw [List.mem_mergeSort, exactly.mem_iff]

/-- Where the entries are listed otherwise, the same scripts are found. -/
theorem sortedScripts_relisted (proper : directory.Proper) (searchable : directory.Searchable)
    (relisted : directory.Relisted listed) (path : String) :
    listed.sortedScripts path = directory.sortedScripts path := by
  obtain ⟨scripts, searched, mem, ascending⟩ := sortedScripts_exactly proper searchable path
  obtain ⟨others, searchedToo, memToo, ascendingToo⟩ := sortedScripts_exactly
    (relisted.proper proper) (searchable.relisted relisted) path
  have same (script : ScriptFile) : script ∈ others ↔ script ∈ scripts := by
    simp only [mem, memToo, ScriptFile.Stands, relisted.get?_file_iff proper]
  have asymmetric : Std.Asymm fun first second : ScriptFile => first.names < second.names :=
    ⟨fun _ _ => List.lt_asymm⟩
  rw [searched, searchedToo, ascendingToo.eq_of_mem_iff ascending same]

end Directory

namespace FileTree

/-- For a path that leads to a directory which can be searched, exactly the files with the scripts'
extension are found that stand below it without a link on the way. They come in the order of the
names in their paths, each of them once, and they are the same however the directories list their
entries. -/
theorem search_exact {tree : FileTree} (proper : tree.root.Proper) {path : String}
    {directory : Directory} (leads : tree.follow path = .ok (.directory directory))
    (searchable : directory.Searchable) :
    ∃ scripts, ScriptFile.search path (tree.follow path) = .ok scripts ∧
      (∀ script, script ∈ scripts ↔ directory.get? script.names = some (.file script.file) ∧
        Place.OfScript script.names ∧ script.path = Path.extend path script.names) ∧
      (scripts.map ScriptFile.path).Nodup ∧
      (scripts.Pairwise fun first second => first.components < second.components) ∧
      ∀ other, tree.Relisted other →
        ScriptFile.search path (other.follow path) = .ok scripts := by
  have below := follow_proper proper leads
  obtain ⟨scripts, searched, mem, ascending⟩ :=
    Directory.sortedScripts_exactly below searchable path
  have increasing :
      scripts.Pairwise fun first second => first.components < second.components := by
    refine ascending.imp_of_mem fun {first second} listed listedToo less => ?_
    rw [Directory.components_eq below searchable ((mem first).1 listed),
      Directory.components_eq below searchable ((mem second).1 listedToo)]
    exact List.Lex.append_left _ less _
  refine ⟨scripts, ?_, fun script => (mem script).trans ScriptFile.stands_nil_iff, ?_,
    increasing, ?_⟩
  · rw [leads]
    exact searched
  · rw [List.Nodup, List.pairwise_map]
    refine increasing.imp fun {first second} less same => ?_
    rw [ScriptFile.components, same] at less
    exact List.lt_irrefl _ less
  · intro other relisted
    obtain ⟨listed, leadsToo, same⟩ := relisted.follow proper leads
    rw [leadsToo, ← searched]
    exact Directory.sortedScripts_relisted below searchable same path

/-- A script beside a directory of the same stem, and links that lead back up. -/
def loopedDirectory : Directory :=
  .mk none
    [.mk (encode "a.wren") (.file { content := [] }), .mk [255] (.link (encode "/lib")),
      .mk (encode "a") (.directory (.mk none
        [.mk (encode "up.wren") (.link (encode "..")),
          .mk (encode "b.wren") (.file { content := [] })]))]

def looped : FileTree where
  root := .mk none [.mk (encode "lib") (.directory loopedDirectory)]
  working := []

theorem looped_proper : looped.root.Proper := by
  refine .mk (by decide) (by decide) ?_
  intro name inner member
  simp only [List.mem_singleton, Entry.mk.injEq, Node.directory.injEq] at member
  rw [member.2]
  refine .mk (by decide) (by decide) ?_
  intro name inner member
  simp only [List.mem_cons, Entry.mk.injEq, reduceCtorEq, Node.directory.injEq, List.not_mem_nil,
    and_false, or_false, false_or] at member
  rw [member.2]
  exact .mk (by decide) (by decide) (by simp)

theorem loopedDirectory_searchable : loopedDirectory.Searchable := by
  refine .mk ?_ ?_
  · intro name node member noLink
    simp only [List.mem_cons, Entry.mk.injEq, List.not_mem_nil, or_false] at member
    obtain ⟨rfl, -⟩ | ⟨-, rfl⟩ | ⟨rfl, -⟩ := member
    · exact ⟨_, rfl⟩
    · exact (noLink _ rfl).elim
    · exact ⟨_, rfl⟩
  · intro name inner member
    simp only [List.mem_cons, Entry.mk.injEq, reduceCtorEq, Node.directory.injEq, List.not_mem_nil,
      and_false, or_false, false_or] at member
    rw [member.2]
    refine .mk ?_ (by simp)
    intro name node member noLink
    simp only [List.mem_cons, Entry.mk.injEq, List.not_mem_nil, or_false] at member
    obtain ⟨rfl, -⟩ | ⟨rfl, -⟩ := member
    · exact ⟨_, rfl⟩
    · exact ⟨_, rfl⟩

theorem looped_follow : looped.follow "lib" = .ok (.directory loopedDirectory) := by
  have path : Path.ofBytes (encode "lib") = ⟨false, [encode "lib"]⟩ := by
    decide +kernel
  have plain : encode "lib" ≠ FileName.here ∧ encode "lib" ≠ FileName.parent ∧
      ¬ FileName.maxLength < (encode "lib").length := by
    decide +kernel
  have held : looped.root.get? [encode "lib"] = some (.directory loopedDirectory) := rfl
  refine follow_directory_iff.2 ⟨by decide, by decide, [encode "lib"], ?_, held⟩
  rw [path]
  change looped.root.locate maxLinks [] [encode "lib"] = _
  rw [Directory.locate, if_neg plain.1, if_neg plain.2.1, if_neg plain.2.2, List.nil_append, held]
  change looped.root.locate maxLinks [encode "lib"] [] = _
  rw [Directory.locate]

/-- As texts, the paths would be in the other order: a dot comes before a slash. -/
theorem looped_search_exact :
    looped.root.Proper ∧ looped.follow "lib" = .ok (.directory loopedDirectory) ∧
    loopedDirectory.Searchable ∧ ∀ other, looped.Relisted other →
      ScriptFile.search "lib" (other.follow "lib") =
        .ok [⟨"lib/a/b.wren", [encode "a", encode "b.wren"], { content := [] }⟩,
          ⟨"lib/a.wren", [encode "a.wren"], { content := [] }⟩] := by
  obtain ⟨scripts, searched, -, -, increasing, same⟩ :=
    search_exact looped_proper looped_follow loopedDirectory_searchable
  have found : loopedDirectory.scripts "lib" [] =
      .ok [⟨"lib/a.wren", [encode "a.wren"], { content := [] }⟩,
        ⟨"lib/a/b.wren", [encode "a", encode "b.wren"], { content := [] }⟩] := by
    decide +kernel
  rw [looped_follow, ScriptFile.search, Directory.sortedScripts, found] at searched
  cases searched
  refine ⟨looped_proper, looped_follow, loopedDirectory_searchable, fun other relisted => ?_⟩
  rw [same other relisted]
  apply congrArg
  refine List.Perm.eq_of_pairwise ?_ increasing (by decide +kernel)
    ((List.mergeSort_perm _ _).trans (.swap _ _ _))
  intro first second _ _ less greater
  exact (List.lt_asymm less greater).elim

end FileTree

end WrenFront
