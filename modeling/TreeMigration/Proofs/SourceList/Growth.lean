import TreeMigration.Proofs.FileSystem.Subtree
import TreeMigration.Proofs.SourceList.Admission

/-!
The source files that a growing tree gives. What it gives stays; and where it has grown in one place
only, whatever it gives besides comes from that place or from a path that did not exist before.

`mem_below_iff` unfolds the search once, in terms of what the path leads to, and the two inductions
go down with it. Forward, a file found stays a file under the same name (`mem_below_of_grown`).
Back, a file found later but not before must lie where the tree has grown, since a directory outside
of that place has the same names (`mem_below_of_later`).

For a list file the lines are asked one by one. A line that led nowhere at first can lead somewhere
after the first run, so the paths on such lines are the ones about which something has to be assumed
when two runs are compared.
-/
namespace TreeMigration

namespace FileSystem

theorem mem_children_iff {files : FileSystem} {location : Location} {name : Name} :
    name ∈ files.children location ↔ ∃ entry, files.entry? (name :: location) = some entry := by
  rw [children, (List.mergeSort_perm _ _).mem_iff, List.mem_filterMap]
  constructor
  · rintro ⟨⟨place, entry⟩, listed, found⟩
    cases place with
    | nil => cases found
    | cons first above =>
      dsimp only at found
      split at found
      · rename_i here
        cases found
        subst here
        exact ⟨entry, EntryTable.lookup_of_mem files.distinct listed⟩
      · cases found
  · rintro ⟨entry, here⟩
    have listed : name :: location ∈ files.entries.map Prod.fst := by
      by_contra absent
      cases here.symm.trans (EntryTable.lookup_eq_none_iff.mpr absent)
    obtain ⟨⟨place, held⟩, isListed, same⟩ := List.mem_map.mp listed
    cases same
    exact ⟨_, isListed, if_pos rfl⟩

theorem mem_list_iff {files : FileSystem} {path : Path} {location : Location} {entry : Entry}
    (located : files.locate path = .ok (location, entry)) {name : Name} :
    name ∈ files.list path ↔ ∃ held, files.entry? (name :: location) = some held := by
  rw [list, located]
  exact mem_children_iff

end FileSystem

namespace SourceList

open FileSystem

variable {files later : FileSystem} {extension : Text}

/-- A source file at or below a path is the path itself, or is at or below a name in it. -/
theorem mem_below_iff {path : Path} {source : SourceFile} :
    source ∈ below files extension path ↔
      (∃ location content, files.locate path = .ok (location, .file content) ∧
        hasEnding extension path = true ∧ source = ⟨path, extension⟩) ∨
      ∃ location name entry, files.locate path = .ok (location, .directory) ∧
        files.entry? (name :: location) = some entry ∧
        source ∈ below files extension (path.join ⟨name.text⟩) := by
  rw [below]
  split
  · rename_i file
    obtain ⟨location, content, located⟩ := isFile_iff.mp file
    by_cases ending : hasEnding extension path = true
    · simp [located, ending]
    · simp [located, ending]
  · rename_i noFile
    have other : ∀ location content, files.locate path ≠ .ok (location, .file content) :=
      fun location content located => noFile (isFile_iff.mpr ⟨location, content, located⟩)
    split
    · rename_i directory
      obtain ⟨location, located⟩ := isDirectory_iff.mp directory
      simp only [List.mem_flatMap, mem_list_iff located, located, Except.ok.injEq, Prod.mk.injEq,
        reduceCtorEq, and_false, false_and, exists_false, false_or]
      constructor
      · rintro ⟨name, ⟨entry, here⟩, inside⟩
        exact ⟨location, name, entry, ⟨rfl, trivial⟩, here, inside⟩
      · rintro ⟨_, name, entry, ⟨rfl, -⟩, here, inside⟩
        exact ⟨name, ⟨entry, here⟩, inside⟩
    · rename_i noDirectory
      have neither : ∀ location, files.locate path ≠ .ok (location, .directory) :=
        fun location located => noDirectory (isDirectory_iff.mpr ⟨location, located⟩)
      simp [other, neither]

/-- Only a path that leads somewhere gives source files. -/
theorem exists_locate_of_mem_below {path : Path} {source : SourceFile}
    (member : source ∈ below files extension path) :
    ∃ location entry, files.locate path = .ok (location, entry) := by
  rcases mem_below_iff.mp member with ⟨location, content, located, -⟩ | ⟨location, -, -, located, -⟩
  · exact ⟨location, _, located⟩
  · exact ⟨location, _, located⟩

/-- A path goes on giving the source files that it gave. -/
theorem mem_below_of_grown (grown : Grown files later) {path : Path} {source : SourceFile}
    (member : source ∈ below files extension path) : source ∈ below later extension path := by
  induction path using below.induct files extension with
  | case1 path file ending =>
    obtain ⟨location, content, located⟩ := isFile_iff.mp file
    obtain ⟨entry, leads, alike⟩ := locate_of_grown grown located
    rw [below, if_pos file, if_pos ending] at member
    cases alike with
    | same => exact mem_below_iff.mpr (.inl ⟨_, _, leads, ending, List.mem_singleton.mp member⟩)
    | contents _ new =>
      exact mem_below_iff.mpr (.inl ⟨_, _, leads, ending, List.mem_singleton.mp member⟩)
  | case2 path file other =>
    rw [below, if_pos file, if_neg other] at member
    cases member
  | case3 path noFile directory shorter ih =>
    obtain ⟨location, located⟩ := isDirectory_iff.mp directory
    obtain ⟨entry, leads, alike⟩ := locate_of_grown grown located
    cases alike
    rw [below, if_neg noFile, dif_pos directory] at member
    obtain ⟨name, listed, inside⟩ := List.mem_flatMap.mp member
    obtain ⟨held, here⟩ := (mem_list_iff located).mp listed
    obtain ⟨heldLater, there, -⟩ := grown.entries _ held here
    exact mem_below_iff.mpr (.inr ⟨location, name, heldLater, leads, there, ih name inside⟩)
  | case4 path noFile noDirectory =>
    rw [below, if_neg noFile, dif_neg noDirectory] at member
    cases member

/-- Source files at or below a path are located there. -/
theorem locate_of_mem_below (free : files.LinkFree) {path : Path} {source : SourceFile}
    {location : Location} {entry : Entry} (located : files.locate path = .ok (location, entry))
    (member : source ∈ below files extension path) :
    ∃ place content, files.locate source.path = .ok (place, .file content) ∧
      location <:+ place := by
  induction path using below.induct files extension generalizing location entry with
  | case1 path file ending =>
    obtain ⟨place, content, leads⟩ := isFile_iff.mp file
    rw [below, if_pos file, if_pos ending] at member
    rw [List.mem_singleton.mp member]
    cases located.symm.trans leads
    exact ⟨location, content, leads, List.suffix_rfl⟩
  | case2 path file other =>
    rw [below, if_pos file, if_neg other] at member
    cases member
  | case3 path noFile directory shorter ih =>
    rw [below, if_neg noFile, dif_pos directory] at member
    obtain ⟨name, -, inside⟩ := List.mem_flatMap.mp member
    obtain ⟨reached, held, leads⟩ := exists_locate_of_mem_below inside
    obtain rfl := locate_join free located leads
    obtain ⟨place, content, found, within⟩ := ih name leads inside
    exact ⟨place, content, found, (List.suffix_cons name location).trans within⟩
  | case4 path noFile noDirectory =>
    rw [below, if_neg noFile, dif_neg noDirectory] at member
    cases member

/-- What a path gives besides comes from where the tree has grown. -/
theorem mem_below_of_later {top : Location} (grown : GrownBelow top files later)
    (free : later.LinkFree) {path : Path} {source : SourceFile} {location place : Location}
    {entry held : Entry} (located : files.locate path = .ok (location, entry))
    (found : later.locate source.path = .ok (place, held)) (out : ¬ top <:+ place)
    (member : source ∈ below later extension path) : source ∈ below files extension path := by
  induction path using below.induct later extension generalizing location entry with
  | case1 path file ending =>
    obtain ⟨other, leads, alike⟩ := locate_of_grown grown.grown located
    obtain ⟨reached, content, again⟩ := isFile_iff.mp file
    cases leads.symm.trans again
    rw [below, if_pos file, if_pos ending] at member
    cases alike with
    | same => exact mem_below_iff.mpr (.inl ⟨_, _, located, ending, List.mem_singleton.mp member⟩)
    | contents old _ =>
      exact mem_below_iff.mpr (.inl ⟨_, _, located, ending, List.mem_singleton.mp member⟩)
  | case2 path file other =>
    rw [below, if_pos file, if_neg other] at member
    cases member
  | case3 path noFile directory shorter ih =>
    obtain ⟨other, leads, alike⟩ := locate_of_grown grown.grown located
    obtain ⟨reached, again⟩ := isDirectory_iff.mp directory
    cases leads.symm.trans again
    cases alike
    rw [below, if_neg noFile, dif_pos directory] at member
    obtain ⟨name, listed, inside⟩ := List.mem_flatMap.mp member
    obtain ⟨held', there⟩ := (mem_list_iff leads).mp listed
    obtain ⟨deeper, entry', leadsIn⟩ := exists_locate_of_mem_below inside
    obtain rfl := locate_join free leads leadsIn
    obtain ⟨place', content, found', within⟩ := locate_of_mem_below free leadsIn inside
    cases found.symm.trans found'
    -- the source is outside, so all on the way to it is, and was there before
    have outside : ¬ top <:+ name :: location := fun below => out (below.trans within)
    have here := there
    rw [grown.outside _ outside] at here
    exact mem_below_iff.mpr (.inr ⟨location, name, held', located, here,
      ih name (locate_join_of_later grown.grown free located leadsIn here) inside⟩)
  | case4 path noFile noDirectory =>
    rw [below, if_neg noFile, dif_neg noDirectory] at member
    cases member

/-- A list file gives what the paths on its lines give. -/
theorem mem_ofListLines_iff {list : Path} {number : Nat} {lines : List Text} {source : SourceFile} :
    source ∈ (ofListLines files extension list number lines).2 ↔
      ∃ line ∈ lines, source ∈ below files extension ⟨Text.trim line⟩ := by
  induction lines generalizing number with
  | nil => simp [ofListLines]
  | cons line later ih =>
    have leads : source ∈ below files extension ⟨Text.trim line⟩ →
        Text.trim line ≠ [] ∧ files.pathExists ⟨Text.trim line⟩ = true := by
      intro member
      obtain ⟨location, entry, located⟩ := exists_locate_of_mem_below member
      exact ⟨text_ne_nil_of_locate located, by simp [pathExists, located]⟩
    have split : (∃ other ∈ line :: later, source ∈ below files extension ⟨Text.trim other⟩) ↔
        source ∈ below files extension ⟨Text.trim line⟩ ∨
          source ∈ (ofListLines files extension list (number + 1) later).2 := by
      rw [ih]
      exact List.exists_mem_cons_iff _ _ _
    rw [ofListLines, split]
    split
    · rename_i empty
      have nothing : source ∉ below files extension ⟨Text.trim line⟩ :=
        fun member => (leads member).1 (List.isEmpty_iff.mp empty)
      simp [nothing]
    · split
      · exact List.mem_append
      · rename_i missing
        have nothing : source ∉ below files extension ⟨Text.trim line⟩ :=
          fun member => missing (leads member).2
        simp [nothing]

/-- A path that source files are taken from: a directory itself, or what a line of a list file
names. -/
def Listed (files : FileSystem) (list path : Path) : Prop :=
  files.isDirectory list = true ∧ path = list ∨
    ∃ lines, files.readLines list = .ok lines ∧ ∃ line ∈ lines, path = ⟨Text.trim line⟩

theorem mem_resolve_iff {list : Path} {sources : List SourceFile}
    (resolved : (resolve files list extension).result = .ok sources) {source : SourceFile} :
    source ∈ sources ↔
      ∃ path, Listed files list path ∧ source ∈ below files (withDot extension) path := by
  unfold resolve at resolved
  dsimp only at resolved
  split at resolved
  · rename_i directory
    cases resolved
    constructor
    · exact fun member => ⟨list, .inl ⟨directory, rfl⟩, member⟩
    · rintro ⟨path, ⟨-, rfl⟩ | ⟨lines, read, -⟩, member⟩
      · exact member
      · obtain ⟨location, located⟩ := isDirectory_iff.mp directory
        obtain ⟨place, content, leads, -⟩ := readLines_eq_ok_iff.mp read
        cases located.symm.trans leads
  · rename_i noDirectory
    split at resolved
    · obtain ⟨lines, read, resolved⟩ := Noted.bind_result_eq_ok.mp resolved
      obtain ⟨⟨⟩, -, resolved⟩ := Noted.bind_result_eq_ok.mp resolved
      cases resolved
      rw [mem_ofListLines_iff]
      constructor
      · rintro ⟨line, listed, member⟩
        exact ⟨_, .inr ⟨lines, read, line, listed, rfl⟩, member⟩
      · rintro ⟨path, ⟨directory, -⟩ | ⟨lines', read', line, listed, rfl⟩, member⟩
        · exact absurd directory noDirectory
        · cases read.symm.trans read'
          exact ⟨line, listed, member⟩
    · cases resolved

/-- A list that leads outside the place where the tree has grown names the same paths. -/
theorem listed_iff_of_later {top : Location} (grown : GrownBelow top files later) {list : Path}
    {location : Location} {entry : Entry} (located : files.locate list = .ok (location, entry))
    (out : ∀ content, entry = .file content → ¬ top <:+ location) {path : Path} :
    Listed later list path ↔ Listed files list path := by
  have same : later.locate list = files.locate list := by
    obtain ⟨other, leads, alike⟩ := locate_of_grown grown.grown located
    cases alike with
    | same => rw [leads, located]
    | contents old new => rw [grown.locate located (out old rfl), located]
  rw [Listed, Listed, isDirectory, isDirectory, readLines, readLines, FileSystem.read,
    FileSystem.read, same]

end SourceList

end TreeMigration
