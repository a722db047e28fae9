import TreeMigration.Proofs.FileSystem.Descent
import TreeMigration.Proofs.SourceList.Order
import Mathlib

/-!
The source files that a directory gives, where there are no links below it: every file at any depth
whose name has the ending, each once, in the order of their paths. The induction follows the search
downwards; a file is told by the names on the way to it.

`Path.descend` goes on from a path into one name after another and `FileAt` says that a file stands
at the end of such names, so `mem_below_iff_fileAt` compares a list of paths with a set of names.
That different files are given by different paths is `descend_injective`.

There is a condition on lengths: `FitsBelow` asks that everything below the directory can be reached
by a possible path. Without it a file could stand too deep to be opened, and the search would pass
it over. It is about what is listed, so it is decidable. The order is that of the paths name by
name, which is not the order of their texts; the example at the end is a tree in which the two
differ.
-/
namespace TreeMigration

/-- The path that goes on into one name after another. -/
def Path.descend (path : Path) (names : List Name) : Path :=
  names.foldl (fun above name => above.join ⟨name.text⟩) path

namespace Path

theorem join_ne_nil {path : Path} (spelled : path.text ≠ []) (name : Name) :
    (path.join ⟨name.text⟩).text ≠ [] := by
  obtain ⟨front, whole, -⟩ := join_shape name.isAbsolute spelled
  simp [whole]

theorem components_descend {path : Path} (spelled : path.text ≠ []) (names : List Name) :
    (path.descend names).components =
      (path.parts.lead, path.parts.names ++ names.map Name.text) := by
  induction names generalizing path with
  | nil =>
    rw [List.map_nil, List.append_nil]
    rfl
  | cons name later ih =>
    exact SourceList.components_of_join spelled (ih (join_ne_nil spelled name))

/-- The names gone into can be told from the path. -/
theorem descend_injective {path : Path} (spelled : path.text ≠ []) :
    path.descend.Injective := by
  intro names others same
  have components := congrArg Path.components same
  rw [components_descend spelled, components_descend spelled] at components
  have texts := List.append_cancel_left (Prod.mk.inj components).2
  exact List.map_injective_iff.mpr FileSystem.text_injective texts

theorem fileName?_descend {path : Path} (spelled : path.text ≠ []) (names : List Name)
    (last : Name) : (path.descend (names ++ [last])).fileName? = some last.text := by
  have whole := (Prod.mk.inj (components_descend spelled (names ++ [last]))).2
  have ordinary : (last.text != ['.', '.']) = true := by simpa using last.ordinary.2.2.1
  rw [fileName?, whole, List.map_append, List.map_singleton, ← List.append_assoc,
    List.getLast?_concat, Option.filter_some, if_pos ordinary]

end Path

namespace FileSystem

/-- Everything below a location can be reached by going on from a path: the paths are possible ones
and no name is too long. -/
def FitsBelow (files : FileSystem) (root : Path) (top : Location) : Prop :=
  ∀ names : List Name, names ≠ [] → files.entry? (names.reverse ++ top) ≠ none →
    ('\x00' ∉ (root.descend names).text ∧ Text.byteSize (root.descend names).text < pathLimit) ∧
      ∀ name ∈ names, Text.byteSize name.text ≤ nameLimit

variable {files : FileSystem} {root : Path} {top : Location} {name : Name}

/-- Whether everything fits is a question about what is listed. -/
theorem fitsBelow_iff :
    files.FitsBelow root top ↔ ∀ listed ∈ files.entries, top <:+ listed.1 →
      let names := (listed.1.take (listed.1.length - top.length)).reverse
      names ≠ [] →
        ('\x00' ∉ (root.descend names).text ∧ Text.byteSize (root.descend names).text < pathLimit) ∧
          ∀ name ∈ names, Text.byteSize name.text ≤ nameLimit := by
  constructor
  · rintro fits ⟨location, entry⟩ member inside names filled
    have whole : names.reverse ++ top = location := by
      rw [List.reverse_reverse]
      exact List.suffix_iff_eq_append.mp inside
    refine fits names filled ?_
    have below : location ≠ [] := by
      rw [← whole]
      simp [filled]
    rw [whole, (entry?_eq_some_iff below).mpr member]
    exact Option.some_ne_none entry
  · intro listed names filled found
    obtain ⟨entry, here⟩ := Option.ne_none_iff_exists'.mp found
    have below : names.reverse ++ top ≠ [] := by simp [filled]
    have fits := listed _ ((entry?_eq_some_iff below).mp here) (List.suffix_append _ _)
    have front : (names.reverse ++ top).take ((names.reverse ++ top).length - top.length) =
        names.reverse := by
      rw [List.length_append, Nat.add_sub_cancel]
      exact List.take_left
    dsimp only at fits
    rw [front, List.reverse_reverse] at fits
    exact fits filled

instance decidableFitsBelow (files : FileSystem) (root : Path) (top : Location) :
    Decidable (files.FitsBelow root top) :=
  decidable_of_iff _ fitsBelow_iff.symm

theorem FitsBelow.join (fits : files.FitsBelow root top) :
    files.FitsBelow (root.join ⟨name.text⟩) (name :: top) := by
  intro names filled there
  have below : files.entry? ((name :: names).reverse ++ top) ≠ none := by
    rw [List.reverse_cons, List.append_assoc]
    exact there
  obtain ⟨possible, short⟩ := fits (name :: names) (List.cons_ne_nil _ _) below
  exact ⟨possible, fun other member => short other (List.mem_cons_of_mem _ member)⟩

/-- Where no links stand, each name in a directory is reached by the path of the directory. -/
theorem FitsBelow.locate_join (fits : files.FitsBelow root top)
    (located : files.locate root = .ok (top, .directory)) (free : files.LinkFreeBelow top)
    {entry : Entry} (here : files.entry? (name :: top) = some entry) :
    files.locate (root.join ⟨name.text⟩) = .ok (name :: top, entry) := by
  obtain ⟨⟨unmarked, brief⟩, short⟩ :=
    fits [name] (List.cons_ne_nil _ _) (by simp [here])
  refine locate_join_name located here ?_ unmarked brief (short name List.mem_cons_self)
  rintro target rfl
  exact free.ne_link here

/-- What stands on the way to something. -/
theorem exists_entry_of_below {inner : Location} {entry : Entry}
    (found : files.entry? (inner ++ top) = some entry) :
    ∃ above, files.entry? top = some above := by
  by_cases here : inner = []
  · subst here
    exact ⟨entry, found⟩
  · exact ⟨_, directory_of_below found here⟩

end FileSystem

namespace SourceList

open FileSystem

variable {files : FileSystem} {extension : Text}

/-- A file stands at the end of the names, from the location on. -/
def FileAt (files : FileSystem) (top : Location) (names : List Name) : Prop :=
  ∃ content, files.entry? (names.reverse ++ top) = some (.file content)

theorem fileAt_cons {top : Location} {name : Name} {names : List Name} :
    FileAt files top (name :: names) ↔ FileAt files (name :: top) names := by
  rw [FileAt, FileAt, List.reverse_cons, List.append_assoc, List.singleton_append]

/-- Below a file stands nothing. -/
theorem eq_nil_of_fileAt {top : Location} {names : List Name} {content : ByteArray}
    (here : files.entry? top = some (.file content)) (found : FileAt files top names) :
    names = [] := by
  obtain ⟨inner, there⟩ := found
  by_contra filled
  have directory := directory_of_below there (by simpa using filled)
  cases here.symm.trans directory

/-- The source files at and below a path are the files that the names from it on lead to, as far as
they have the ending. -/
theorem mem_below_iff_fileAt {path : Path} {location : Location} {entry : Entry}
    (located : files.locate path = .ok (location, entry)) (free : files.LinkFreeBelow location)
    (fits : files.FitsBelow path location) {source : SourceFile} :
    source ∈ below files extension path ↔
      ∃ names, FileAt files location names ∧ hasEnding extension (path.descend names) = true ∧
        source = ⟨path.descend names, extension⟩ := by
  induction path using below.induct files extension generalizing location entry with
  | case1 path file ending =>
    obtain ⟨place, content, leads⟩ := isFile_iff.mp file
    cases located.symm.trans leads
    have here := entry_of_locate located
    rw [below, if_pos file, if_pos ending, List.mem_singleton]
    constructor
    · rintro rfl
      exact ⟨[], ⟨content, here⟩, ending, rfl⟩
    · rintro ⟨names, found, -, rfl⟩
      rw [eq_nil_of_fileAt here found]
      rfl
  | case2 path file notEnding =>
    obtain ⟨place, content, leads⟩ := isFile_iff.mp file
    cases located.symm.trans leads
    have here := entry_of_locate located
    rw [below, if_pos file, if_neg notEnding]
    constructor
    · intro member
      cases member
    · rintro ⟨names, found, ending, -⟩
      rw [eq_nil_of_fileAt here found] at ending
      exact absurd ending notEnding
  | case3 path noFile directory shorter ih =>
    obtain ⟨place, leads⟩ := isDirectory_iff.mp directory
    cases located.symm.trans leads
    rw [below, if_neg noFile, dif_pos directory, List.mem_flatMap]
    constructor
    · rintro ⟨name, listed, inside⟩
      obtain ⟨held, here⟩ := (mem_list_iff located).mp listed
      obtain ⟨names, found, ending, same⟩ := (ih name (fits.locate_join located free here) free.down
        fits.join).mp inside
      exact ⟨name :: names, fileAt_cons.mpr found, ending, same⟩
    · rintro ⟨names, found, ending, same⟩
      cases names with
      | nil =>
        obtain ⟨content, here⟩ := found
        cases (entry_of_locate located).symm.trans here
      | cons name names =>
        have below := fileAt_cons.mp found
        obtain ⟨held, here⟩ := exists_entry_of_below below.choose_spec
        refine ⟨name, (mem_list_iff located).mpr ⟨held, here⟩, ?_⟩
        exact (ih name (fits.locate_join located free here) free.down fits.join).mpr
          ⟨names, below, ending, same⟩
  | case4 path noFile noDirectory =>
    have here := entry_of_locate located
    cases entry with
    | directory => exact absurd (isDirectory_iff.mpr ⟨location, located⟩) noDirectory
    | file content => exact absurd (isFile_iff.mpr ⟨location, content, located⟩) noFile
    | link target => exact absurd here (free location target List.suffix_rfl)

theorem hasEnding_descend {path : Path} (spelled : path.text ≠ []) (names : List Name)
    (last : Name) :
    hasEnding extension (path.descend (names ++ [last])) = true ↔ extension <:+ last.text := by
  rw [hasEnding, Path.fileName?_descend spelled, Option.any_some, List.isSuffixOf_iff_suffix]

/-- A directory without links below it gives every file below it whose name has the ending and
nothing else, each once, in the strict order of their paths name by name. Different files are given
by different paths, and the order in which the system lists entries does not matter. -/
theorem resolve_directory {files : FileSystem} {root : Path} {top : Location} (extension : Text)
    (located : files.locate root = .ok (top, .directory)) (free : files.LinkFreeBelow top)
    (fits : files.FitsBelow root top) :
    ∃ sources, resolve files root extension = pure sources ∧
      (∀ source, source ∈ sources ↔ ∃ names last, FileAt files top (names ++ [last]) ∧
        withDot extension <:+ last.text ∧
        source = ⟨root.descend (names ++ [last]), withDot extension⟩) ∧
      root.descend.Injective ∧ sources.Nodup ∧
      (sources.Pairwise fun first second => first.path.Before second.path) ∧
      ∀ other, files.Relisted other → resolve other root extension = pure sources := by
  have spelled := text_ne_nil_of_locate located
  have directory : files.isDirectory root = true := isDirectory_iff.mpr ⟨top, located⟩
  have ascending := below_ascending files (withDot extension) root
  refine ⟨below files (withDot extension) root, if_pos directory, ?_,
    Path.descend_injective spelled, ?_, ascending, ?_⟩
  · intro source
    rw [mem_below_iff_fileAt located free fits]
    constructor
    · rintro ⟨names, found, ending, rfl⟩
      rcases List.eq_nil_or_concat' names with rfl | ⟨before, last, rfl⟩
      · obtain ⟨content, here⟩ := found
        cases (entry_of_locate located).symm.trans here
      · exact ⟨before, last, found, (hasEnding_descend spelled before last).mp ending, rfl⟩
    · rintro ⟨names, last, found, ending, rfl⟩
      exact ⟨_, found, (hasEnding_descend spelled names last).mpr ending, rfl⟩
  · exact ascending.imp fun before same => before.ne (congrArg SourceFile.path same)
  · intro other relisted
    have directoryToo : other.isDirectory root = true := by
      rw [isDirectory, relisted.locate_eq]
      exact directory
    rw [← below_eq_of_relisted relisted]
    exact if_pos directoryToo

namespace Nested

def top : Location := [⟨"main", by decide⟩]

/-- A tree in which the order of the paths is not that of their texts. -/
def tree : FileSystem :=
  .ofTree [
    (⟨"main"⟩, .directory),
    (⟨"main/a.kt"⟩, .file (encode "1")),
    (⟨"main/a-b"⟩, .directory),
    (⟨"main/a"⟩, .directory),
    (⟨"main/a-b/x.kt"⟩, .file (encode "2")),
    (⟨"main/a/é.kt"⟩, .file (encode "3")),
    (⟨"main/a/kt"⟩, .file (encode "4"))]

/-- The same tree, made in another order. -/
def relisted : FileSystem :=
  .ofTree [
    (⟨"main"⟩, .directory),
    (⟨"main/a"⟩, .directory),
    (⟨"main/a/kt"⟩, .file (encode "4")),
    (⟨"main/a/é.kt"⟩, .file (encode "3")),
    (⟨"main/a-b"⟩, .directory),
    (⟨"main/a-b/x.kt"⟩, .file (encode "2")),
    (⟨"main/a.kt"⟩, .file (encode "1"))]

def sources : List SourceFile :=
  [⟨⟨"main/a/é.kt"⟩, ".kt"⟩, ⟨⟨"main/a-b/x.kt"⟩, ".kt"⟩, ⟨⟨"main/a.kt"⟩, ".kt"⟩]

end Nested

theorem resolve_directory_nested :
    Nested.tree.locate ⟨"main"⟩ = .ok (Nested.top, .directory) ∧
    Nested.tree.LinkFreeBelow Nested.top ∧ Nested.tree.FitsBelow ⟨"main"⟩ Nested.top ∧
    resolve Nested.tree ⟨"main"⟩ "kt" = pure Nested.sources ∧ Nested.sources.Nodup ∧
    resolve Nested.relisted ⟨"main"⟩ "kt" = pure Nested.sources := by
  have located : Nested.tree.locate ⟨"main"⟩ = .ok (Nested.top, .directory) := by decide +kernel
  have free : Nested.tree.LinkFreeBelow Nested.top := by decide +kernel
  have fits : Nested.tree.FitsBelow ⟨"main"⟩ Nested.top := by decide +kernel
  have relisted : Nested.tree.Relisted Nested.relisted := ⟨by decide +kernel, by decide +kernel⟩
  have found : (resolve Nested.tree ⟨"main"⟩ "kt").result = .ok Nested.sources := by cbv
  obtain ⟨sources, resolved, -, -, once, -, same⟩ := resolve_directory "kt" located free fits
  rw [resolved] at found
  obtain rfl : sources = Nested.sources := Except.ok.inj found
  exact ⟨located, free, fits, resolved, once, same _ relisted⟩

end SourceList

end TreeMigration
