import TreeMigration.Proofs.FileSystem.LinkFree
import Mathlib.Data.List.Lex
import Mathlib.Data.Char
import Mathlib.Data.List.Nodup
import Mathlib.Order.Lattice

/-!
The names in a directory. They come in ascending order, each once, and neither this nor where a path
leads depends on the order in which the table holds its entries.

The names of a directory are sorted by merging. What is proved of the result is what any sorting
gives: the same names as before (`nodup_children`), ordered by `Text.noLater`, and strictly, since
no two names of a directory have one text (`children_ascending`).

`Relisted` is the relation between two tables with the same entries in some order. A lookup answers
the same in both because no location is listed twice, so a walk does, and two strictly ascending
lists of the same names are equal.
-/
namespace TreeMigration

theorem Text.noLater_iff {s t : Text} : s.noLater t = true ↔ s ≤ t := by
  simp [noLater]

namespace FileSystem

variable {files other : FileSystem}

theorem text_injective : Name.text.Injective := by
  rintro ⟨text, _⟩ ⟨_, _⟩ rfl
  rfl

def nameIn (directory : Location) : Location → Option Name
  | [] => none
  | name :: above => if above = directory then some name else none

theorem nameIn_eq_some_iff {directory place : Location} {name : Name} :
    nameIn directory place = some name ↔ place = name :: directory := by
  cases place with
  | nil => simp [nameIn]
  | cons first above => simp [nameIn, and_comm]

theorem children_eq (files : FileSystem) (directory : Location) :
    files.children directory = ((files.entries.map Prod.fst).filterMap (nameIn directory)).mergeSort
      fun first second => first.text.noLater second.text := by
  rw [List.filterMap_map]
  rfl

/-- A directory has each of its names once. -/
theorem nodup_children (files : FileSystem) (directory : Location) :
    (files.children directory).Nodup := by
  rw [children_eq, List.nodup_mergeSort]
  refine files.distinct.filterMap ?_
  intro place other name here there
  rw [nameIn_eq_some_iff.mp here, nameIn_eq_some_iff.mp there]

/-- The names in a directory ascend strictly. -/
theorem children_ascending (files : FileSystem) (directory : Location) :
    (files.children directory).Pairwise fun first second => first.text < second.text := by
  have once := files.nodup_children directory
  have ascending := @List.pairwise_mergeSort _
    (fun first second : Name => first.text.noLater second.text)
    (fun _ _ _ most others => by
      rw [Text.noLater_iff] at *
      exact most.trans others)
    (fun first second => by
      rw [Bool.or_eq_true, Text.noLater_iff, Text.noLater_iff]
      exact le_total _ _)
    ((files.entries.map Prod.fst).filterMap (nameIn directory))
  rw [← children_eq] at ascending
  exact ascending.imp₂ (fun first second most differ =>
    lt_of_le_of_ne (Text.noLater_iff.mp most) fun same => differ (text_injective same)) once

/-- The same entries, listed in some order, and the same place to start from. -/
structure Relisted (files other : FileSystem) : Prop where
  entries : other.entries.Perm files.entries
  workingDirectory : other.workingDirectory = files.workingDirectory

theorem advance_congr (same : other.entry? = files.entry?) : other.advance = files.advance := by
  funext followLast slashed jump location steps
  induction steps generalizing location with
  | nil => rfl
  | cons step later ih => simp only [advance, same, ih]

theorem walkFrom_congr (same : other.entry? = files.entry?) : other.walkFrom = files.walkFrom := by
  funext followLast links
  induction links with
  | zero =>
    funext slashed location steps
    simp only [walkFrom, advance_congr same]
  | succ links ih =>
    funext slashed location steps
    simp only [walkFrom, advance_congr same, ih]

namespace Relisted

theorem entry?_eq (relisted : Relisted files other) : other.entry? = files.entry? := by
  funext location
  cases location with
  | nil => rfl
  | cons name above =>
    ext entry
    rw [entry?_eq_some_iff (List.cons_ne_nil _ _), entry?_eq_some_iff (List.cons_ne_nil _ _)]
    exact relisted.entries.mem_iff

theorem locate_eq (relisted : Relisted files other) (path : Path) :
    other.locate path = files.locate path := by
  simp only [locate, walk, walkFrom_congr relisted.entry?_eq, relisted.entry?_eq,
    relisted.workingDirectory]

theorem children_eq (relisted : Relisted files other) (directory : Location) :
    other.children directory = files.children directory := by
  -- a set of names can be in ascending order in one way only
  refine List.Perm.eq_of_pairwise ?_ (other.children_ascending directory)
    (files.children_ascending directory) ?_
  · intro first second _ _ less greater
    exact absurd less (List.lt_asymm greater)
  · rw [FileSystem.children_eq, FileSystem.children_eq]
    exact (List.mergeSort_perm _ _).trans
      (((relisted.entries.map Prod.fst).filterMap _).trans (List.mergeSort_perm _ _).symm)

theorem list_eq (relisted : Relisted files other) (path : Path) :
    other.list path = files.list path := by
  rw [list, list, relisted.locate_eq]
  cases files.locate path with
  | error cause => rfl
  | ok found => exact relisted.children_eq found.1

end Relisted

end FileSystem

end TreeMigration
