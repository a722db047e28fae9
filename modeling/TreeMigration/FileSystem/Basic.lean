import TreeMigration.Path.Basic

/-!
A file system as a finite table from locations to entries. Two facts belong to the type: no location
has two entries, and whatever lies below a location lies in a directory. Placing and removing
entries keep both, so every later operation does.

A location is the list of the names on the way to it with the last one first, so the directory of an
entry is the tail of its location and being below a location is being an extension of it. A name is
never empty, a dot or two dots, and holds no slash; the type carries that too.

The tree knows directories, files with their bytes, and symbolic links with their target as text,
which need not lead anywhere. Names are sequences of characters and not of bytes. Owners,
permissions, times, hard links, devices and a full disk are outside the model: an operation fails
only for a reason that lies in the tree and the path.
-/
namespace TreeMigration

structure Name where
  text : Text
  ordinary : text ≠ [] ∧ text ≠ ['.'] ∧ text ≠ ['.', '.'] ∧ '/' ∉ text
  deriving DecidableEq

/-- A place in the tree: the names on the way to it from the root, the last one first. -/
abbrev Location := List Name

/-- Contents are compared byte by byte. -/
instance (priority := 2000) contentDecidableEq : DecidableEq ByteArray := ByteArray.instDecidableEq

inductive Entry where
  | directory
  | file (content : ByteArray)
  | link (target : Text)
  deriving DecidableEq

/-- A table of entries; the root is not listed in it. -/
abbrev EntryTable := List (Location × Entry)

namespace EntryTable

/-- Puts an entry in place of the one at the location, or at the end. -/
def set (location : Location) (entry : Entry) : EntryTable → EntryTable
  | [] => [(location, entry)]
  | (other, old) :: rest =>
    if other = location then (location, entry) :: rest
    else (other, old) :: set location entry rest

theorem lookup_set (location sought : Location) (entry : Entry) (table : EntryTable) :
    (table.set location entry).lookup sought =
      if sought = location then some entry else table.lookup sought := by
  induction table with
  | nil =>
    by_cases same : sought = location
    · simp [set, same]
    · simp [set, same, List.lookup_cons, beq_false_of_ne same]
  | cons head rest ih =>
    obtain ⟨other, old⟩ := head
    by_cases here : other = location
    · subst here
      by_cases same : sought = other
      · simp [set, same]
      · simp [set, same, List.lookup_cons, beq_false_of_ne same]
    · by_cases same : sought = other
      · subst same
        simp [set, here]
      · simp [set, here, List.lookup_cons, beq_false_of_ne same, ih]

theorem map_fst_set (location : Location) (entry : Entry) (table : EntryTable) :
    (table.set location entry).map Prod.fst =
      if location ∈ table.map Prod.fst then table.map Prod.fst
      else table.map Prod.fst ++ [location] := by
  induction table with
  | nil => simp [set]
  | cons head rest ih =>
    obtain ⟨other, old⟩ := head
    by_cases here : other = location
    · simp [set, here]
    · have apart : ¬ location = other := fun same => here same.symm
      by_cases listed : location ∈ rest.map Prod.fst
      · simp only [set, here, if_false, List.map_cons, ih, listed, if_true, List.mem_cons, or_true]
      · simp only [set, here, if_false, List.map_cons, ih, listed, List.mem_cons, apart, or_self,
          List.cons_append]

theorem nodup_set {table : EntryTable} (distinct : (table.map Prod.fst).Nodup)
    (location : Location) (entry : Entry) : ((table.set location entry).map Prod.fst).Nodup := by
  rw [map_fst_set]
  split
  · exact distinct
  · rename_i absent
    exact List.nodup_append.mpr ⟨distinct, by simp, by
      intro listed member placed same
      simp only [List.mem_singleton] at same
      intro equal
      exact absent (same ▸ equal ▸ member)⟩

theorem lookup_filter (keep : Location → Bool) (sought : Location) (table : EntryTable) :
    (table.filter fun e => keep e.1).lookup sought =
      if keep sought then table.lookup sought else none := by
  induction table with
  | nil => simp
  | cons head rest ih =>
    obtain ⟨other, old⟩ := head
    by_cases same : sought = other
    · subst same
      by_cases kept : keep sought <;> simp [kept, ih]
    · by_cases kept : keep other <;>
        simp [kept, ih, List.lookup_cons, beq_false_of_ne same]

end EntryTable

/-- A tree of directories, files and symbolic links, and the place relative paths start from. -/
structure FileSystem where
  entries : EntryTable
  workingDirectory : Location
  distinct : (entries.map Prod.fst).Nodup
  nested : ∀ name directory, (entries.lookup (name :: directory)).isSome →
    directory = [] ∨ entries.lookup directory = some .directory

namespace FileSystem

/-- Nothing but the root, which is also the working directory. -/
def empty : FileSystem := ⟨[], [], by simp, by simp⟩

/-- The entry at a location; the root is always a directory. -/
def entry? (files : FileSystem) : Location → Option Entry
  | [] => some .directory
  | name :: directory => files.entries.lookup (name :: directory)

def enter (files : FileSystem) (location : Location) : FileSystem :=
  { files with workingDirectory := location }

/-- Whether an entry may be put under a name: only in a directory, and not over a directory. -/
def canPlace (files : FileSystem) (directory : Location) (name : Name) : Bool :=
  decide (files.entry? directory = some .directory) &&
    decide (files.entry? (name :: directory) ≠ some .directory)

/-- Puts an entry under a name in a directory, in place of a file or link of that name. Where this
is not possible nothing changes. -/
def place (files : FileSystem) (directory : Location) (name : Name) (entry : Entry) : FileSystem :=
  if possible : files.canPlace directory name = true then
    { files with
      entries := files.entries.set (name :: directory) entry
      distinct := EntryTable.nodup_set files.distinct _ _
      nested := by
        simp only [canPlace, Bool.and_eq_true, decide_eq_true_eq] at possible
        obtain ⟨inDirectory, overNone⟩ := possible
        intro below above found
        rw [EntryTable.lookup_set] at found
        rw [EntryTable.lookup_set]
        by_cases here : below :: above = name :: directory
        · obtain ⟨rfl, rfl⟩ := List.cons.inj here
          match above with
          | [] => exact .inl rfl
          | first :: rest =>
            have apart : first :: rest ≠ below :: first :: rest := by
              intro same
              have := congrArg List.length same
              simp at this
            simp only [if_neg apart]
            exact .inr inDirectory
        · rw [if_neg here] at found
          rcases files.nested below above found with root | held
          · exact .inl root
          · by_cases same : above = name :: directory
            · subst same
              exact absurd held overNone
            · simp only [if_neg same]
              exact .inr held }
  else files

/-- Takes a location out with all that is below it. -/
def remove (files : FileSystem) (location : Location) : FileSystem :=
  { files with
    entries := files.entries.filter fun e => !location.isSuffixOf e.1
    distinct := by
      have sub : ((files.entries.filter fun e => !location.isSuffixOf e.1).map Prod.fst).Sublist
          (files.entries.map Prod.fst) := List.filter_sublist.map _
      exact sub.nodup files.distinct
    nested := by
      intro name directory found
      rw [EntryTable.lookup_filter (fun l => !location.isSuffixOf l)] at found
      rw [EntryTable.lookup_filter (fun l => !location.isSuffixOf l)]
      by_cases kept : (!location.isSuffixOf (name :: directory)) = true
      · rw [if_pos kept] at found
        have keptAbove : (!location.isSuffixOf directory) = true := by
          simp only [Bool.not_eq_true', Bool.eq_false_iff, ne_eq, List.isSuffixOf_iff_suffix] at *
          exact fun above => kept (above.trans (List.suffix_cons name directory))
        rw [if_pos keptAbove]
        exact files.nested name directory found
      · rw [if_neg kept] at found
        simp at found }

/-- The names in a directory, sorted. -/
def children (files : FileSystem) (directory : Location) : List Name :=
  (files.entries.filterMap fun e =>
    match e.1 with
    | [] => none
    | name :: above => if above = directory then some name else none).mergeSort
      fun first second => first.text.noLater second.text

end FileSystem

end TreeMigration
