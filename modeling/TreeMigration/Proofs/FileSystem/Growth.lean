import TreeMigration.FileSystem.Operations
import Mathlib.Data.List.Infix

/-!
Growing file systems. Writing files and making directories add entries and change contents, but take
nothing out, turn nothing into another kind and leave every link where it points. So a walk that
ended somewhere ends there for good; the inductions follow the steps and then the links.

`Grown` compares two tables place by place: the earlier locations begin the later ones, and entries
at one location are `Alike`, equal or both files. It is reflexive and transitive, so a run of any
length grows the tree because each of its operations does. `grown_place` is the step, the only way
in which an operation changes entries.

That the order of the table is part of the relation is used once: files that have grown without a
new entry or content are equal as tables (`Grown.eq_of_entries`), so that nothing has changed can be
said as an equation.
-/
namespace TreeMigration

/-- Entries that no walk can tell apart: equal ones, or two files. -/
inductive Entry.Alike : Entry → Entry → Prop where
  | same (entry : Entry) : Alike entry entry
  | contents (old new : ByteArray) : Alike (.file old) (.file new)

theorem Entry.Alike.trans {first second third : Entry} (before : first.Alike second)
    (after : second.Alike third) : first.Alike third := by
  cases before with
  | same => exact after
  | contents old new =>
    cases after with
    | same => exact .contents old new
    | contents _ last => exact .contents old last

namespace EntryTable

theorem lookup_eq_none_iff {table : EntryTable} {location : Location} :
    table.lookup location = none ↔ location ∉ table.map Prod.fst := by
  induction table with
  | nil => simp
  | cons head rest ih =>
    obtain ⟨other, entry⟩ := head
    by_cases same : location = other
    · simp [same]
    · rw [List.lookup_cons, beq_false_of_ne same, ih]
      simp [same]

/-- A table that begins with the locations of another and answers like it is the other. -/
theorem eq_of_lookup {table longer : EntryTable}
    (begins : table.map Prod.fst <+: longer.map Prod.fst)
    (distinct : (longer.map Prod.fst).Nodup)
    (same : ∀ location, longer.lookup location = table.lookup location) : longer = table := by
  induction table generalizing longer with
  | nil =>
    cases longer with
    | nil => rfl
    | cons head rest =>
      have found := same head.1
      simp at found
  | cons head rest ih =>
    cases longer with
    | nil => simp at begins
    | cons first others =>
      obtain ⟨location, entry⟩ := head
      obtain ⟨other, held⟩ := first
      rw [List.map_cons, List.map_cons, List.cons_prefix_cons] at begins
      obtain ⟨here, begins⟩ := begins
      dsimp only at here
      subst here
      rw [List.map_cons, List.nodup_cons] at distinct
      obtain ⟨absent, distinct⟩ := distinct
      have entries : held = entry := by simpa using same location
      subst entries
      rw [ih begins distinct]
      intro sought
      by_cases there : sought = location
      · subst there
        rw [lookup_eq_none_iff.mpr absent, eq_comm, lookup_eq_none_iff]
        exact fun member => absent (begins.subset member)
      · have found := same sought
        simpa [List.lookup_cons, beq_false_of_ne there] using found

end EntryTable

namespace FileSystem

/-- Later files have the entries of the earlier ones, at the same places of the table, and differ in
them by the contents of files alone. -/
structure Grown (files later : FileSystem) : Prop where
  workingDirectory : later.workingDirectory = files.workingDirectory
  locations : files.entries.map Prod.fst <+: later.entries.map Prod.fst
  root : later.entries.lookup [] = files.entries.lookup []
  entries : ∀ location entry, files.entry? location = some entry →
    ∃ other, later.entry? location = some other ∧ entry.Alike other

namespace Grown

theorem refl (files : FileSystem) : Grown files files where
  workingDirectory := rfl
  locations := List.prefix_refl _
  root := rfl
  entries := fun _ entry found => ⟨entry, found, .same entry⟩

theorem trans {files middle later : FileSystem} (before : Grown files middle)
    (after : Grown middle later) : Grown files later where
  workingDirectory := after.workingDirectory.trans before.workingDirectory
  locations := before.locations.trans after.locations
  root := after.root.trans before.root
  entries := by
    intro location entry found
    obtain ⟨other, kept, alike⟩ := before.entries location entry found
    obtain ⟨last, keptAgain, alikeAgain⟩ := after.entries location other kept
    exact ⟨last, keptAgain, alike.trans alikeAgain⟩

theorem directory {files later : FileSystem} (grown : Grown files later) {location : Location}
    (found : files.entry? location = some .directory) :
    later.entry? location = some .directory := by
  obtain ⟨other, kept, alike⟩ := grown.entries location _ found
  cases alike
  exact kept

theorem link {files later : FileSystem} (grown : Grown files later) {location : Location}
    {target : Text} (found : files.entry? location = some (.link target)) :
    later.entry? location = some (.link target) := by
  obtain ⟨other, kept, alike⟩ := grown.entries location _ found
  cases alike
  exact kept

/-- What is missing later was missing before. -/
theorem none {files later : FileSystem} (grown : Grown files later) {location : Location}
    (missing : later.entry? location = .none) : files.entry? location = .none := by
  cases found : files.entry? location with
  | none => rfl
  | some entry =>
    obtain ⟨other, kept, -⟩ := grown.entries location entry found
    rw [missing] at kept
    cases kept

end Grown

/-- Files that grew without any new entry or content are the same files. -/
theorem Grown.eq_of_entries {files later : FileSystem} (grown : Grown files later)
    (same : ∀ location, later.entry? location = files.entry? location) : later = files := by
  have looked : ∀ location, later.entries.lookup location = files.entries.lookup location := by
    intro location
    cases location with
    | nil => exact grown.root
    | cons name directory => exact same (name :: directory)
  have table : later.entries = files.entries :=
    EntryTable.eq_of_lookup grown.locations later.distinct looked
  obtain ⟨entries, workingDirectory, distinct, nested⟩ := files
  obtain ⟨laterEntries, laterDirectory, laterDistinct, laterNested⟩ := later
  cases table
  cases grown.workingDirectory
  rfl

/-- Placing an entry changes what stands at its own location alone. -/
theorem entry_place {files : FileSystem} {directory : Location} {name : Name}
    (possible : files.canPlace directory name = true) (entry : Entry) (location : Location) :
    FileSystem.entry? (files.place directory name entry) location =
      if location = name :: directory then some entry else files.entry? location := by
  unfold place
  rw [dif_pos possible]
  cases location with
  | nil =>
    rw [if_neg (List.cons_ne_nil _ _).symm]
    rfl
  | cons first above => exact EntryTable.lookup_set _ _ _ _

theorem workingDirectory_place (files : FileSystem) (directory : Location) (name : Name)
    (entry : Entry) :
    (files.place directory name entry).workingDirectory = files.workingDirectory := by
  unfold place
  split <;> rfl

/-- Placing an entry where there is none, or a file over a file, is growth. -/
theorem grown_place {files : FileSystem} {directory : Location} {name : Name}
    (possible : files.canPlace directory name = true) {entry : Entry}
    (beneath : ∀ old, files.entry? (name :: directory) = some old → old.Alike entry) :
    Grown files (files.place directory name entry) where
  workingDirectory := workingDirectory_place files directory name entry
  locations := by
    unfold place
    rw [dif_pos possible, EntryTable.map_fst_set]
    split
    · exact List.prefix_refl _
    · exact List.prefix_append _ _
  root := by
    unfold place
    rw [dif_pos possible, EntryTable.lookup_set, if_neg (List.cons_ne_nil _ _).symm]
  entries := by
    intro location old found
    rw [entry_place possible]
    split
    · rename_i here
      exact ⟨entry, rfl, beneath old (here ▸ found)⟩
    · exact ⟨old, found, .same old⟩

end FileSystem

end TreeMigration
