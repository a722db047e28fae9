import TreeMigration.Proofs.FileSystem.Resolution

/-!
What writing files and making directories changes. An operation that succeeds leaves at the end of
its path just what it was asked for; whether it succeeds or not, it changes nothing but the file its
path leads to and directories that its paths lead to and that were missing.

`Confined` is the frame: between earlier and later files, with the paths written and the paths made.
It contains growth, and says of every location that is new or different which of the paths leads to
it. It is transitive (`Confined.trans`), because a path that led to a location goes on leading
there, so the frame of a whole run is put together from those of its operations, each proved once
(`writeBytes_spec`, `makeDirectory_spec`, `makeDirectoriesBelow_confined`).

The last statement is an induction on the paths above the one to be made, nearest first, as the
operation tries them. An operation that fails half-way has the same frame: the directories made so
far are among those that its paths lead to.
-/
namespace TreeMigration

namespace FileSystem

/-- Files changed by writing at some paths and making directories at others: nothing is taken out,
and whatever is new or different is a file that a written path leads to or a directory, missing
before, that a made path leads to. -/
structure Confined (written made : List Path) (files later : FileSystem) : Prop where
  grown : Grown files later
  changes : ∀ location, later.entry? location ≠ files.entry? location →
    (∃ path ∈ written, ∃ content, later.locate path = .ok (location, .file content)) ∨
    (files.entry? location = none ∧
      ∃ path ∈ made, later.locate path = .ok (location, .directory))

namespace Confined

variable {written made : List Path}

theorem refl (files : FileSystem) : Confined written made files files where
  grown := Grown.refl files
  changes := fun _ differs => absurd rfl differs

theorem mono {files later : FileSystem} {moreWritten moreMade : List Path}
    (confined : Confined written made files later) (widerWritten : written ⊆ moreWritten)
    (widerMade : made ⊆ moreMade) : Confined moreWritten moreMade files later where
  grown := confined.grown
  changes := by
    intro location differs
    rcases confined.changes location differs with ⟨path, listed, leads⟩ |
      ⟨missing, path, listed, leads⟩
    · exact .inl ⟨path, widerWritten listed, leads⟩
    · exact .inr ⟨missing, path, widerMade listed, leads⟩

theorem trans {files middle later : FileSystem} (before : Confined written made files middle)
    (after : Confined written made middle later) : Confined written made files later where
  grown := before.grown.trans after.grown
  changes := by
    intro location differs
    by_cases kept : later.entry? location = middle.entry? location
    · rcases before.changes location (kept ▸ differs) with ⟨path, listed, content, leads⟩ |
        ⟨missing, path, listed, leads⟩
      · obtain ⟨other, leadsLater, alike⟩ := locate_of_grown after.grown leads
        cases alike with
        | same => exact .inl ⟨path, listed, content, leadsLater⟩
        | contents _ new => exact .inl ⟨path, listed, new, leadsLater⟩
      · obtain ⟨other, leadsLater, alike⟩ := locate_of_grown after.grown leads
        cases alike
        exact .inr ⟨missing, path, listed, leadsLater⟩
    · rcases after.changes location kept with written | ⟨missing, path, listed, leads⟩
      · exact .inl written
      · exact .inr ⟨before.grown.none missing, path, listed, leads⟩

/-- A file keeps its content, unless a written path has come to lead to it and left another. -/
theorem locate_file {files later : FileSystem}
    (confined : Confined written made files later) {path : Path} {location : Location}
    {content : ByteArray} (leads : files.locate path = .ok (location, .file content))
    (again : ∀ other ∈ written, ∀ new, later.locate other = .ok (location, .file new) →
      later.locate path = .ok (location, .file new) → new = content) :
    later.locate path = .ok (location, .file content) := by
  obtain ⟨entry, leadsLater, alike⟩ := locate_of_grown confined.grown leads
  by_cases kept : later.entry? location = files.entry? location
  · rw [entry_of_locate leadsLater, entry_of_locate leads] at kept
    cases kept
    exact leadsLater
  · rcases confined.changes location kept with ⟨other, listed, new, there⟩ | ⟨missing, -⟩
    · cases entry_eq_of_locate leadsLater there
      cases again other listed new there leadsLater
      exact leadsLater
    · rw [entry_of_locate leads] at missing
      cases missing

end Confined

/-- An entry placed at the end of a walk is what the path leads to from then on. -/
theorem locate_place {files : FileSystem} {path : Path} {way : Route} {followLast : Bool}
    {found : Found} {directory : Location} {name : Name} {entry : Entry}
    (routed : route path = .ok way) (walked : files.walk followLast way = .ok found)
    (follows : followLast = true ∨ ∀ location slashed, found ≠ .present location slashed)
    (ends : found.location = name :: directory)
    (possible : files.canPlace directory name = true)
    (grown : Grown files (files.place directory name entry))
    (plain : ∀ target, entry ≠ .link target) (asked : found.slashed = true → entry = .directory) :
    (files.place directory name entry).locate path = .ok (name :: directory, entry) := by
  have placed : FileSystem.entry? (files.place directory name entry) (name :: directory) =
      some entry := by
    rw [entry_place possible, if_pos rfl]
  have filled : found.FilledIn (files.place directory name entry) := by
    cases found with
    | present => trivial
    | absent above missing slashed =>
      cases ends
      exact ⟨entry, placed, plain⟩
  have walkedAfter := walk_of_grown grown follows filled walked
  rw [ends] at walkedAfter
  exact locate_eq_ok_iff.mpr ⟨way, found.slashed, routed, walkedAfter, placed, asked⟩

theorem canPlace_iff {files : FileSystem} {directory : Location} {name : Name} :
    files.canPlace directory name = true ↔
      files.entry? directory = some .directory ∧
        files.entry? (name :: directory) ≠ some .directory := by
  simp [canPlace]

/-- Whatever has an entry stands in a directory. -/
theorem entry_above {files : FileSystem} {directory : Location} {name : Name} {entry : Entry}
    (found : files.entry? (name :: directory) = some entry) :
    files.entry? directory = some .directory := by
  have held : (files.entries.lookup (name :: directory)).isSome = true :=
    Option.isSome_iff_exists.mpr ⟨entry, found⟩
  rcases files.nested name directory held with rfl | inDirectory
  · rfl
  · cases directory with
    | nil => rfl
    | cons first above => exact inDirectory

theorem confined_place_file {files : FileSystem} {path : Path} {directory : Location} {name : Name}
    {content : ByteArray} (possible : files.canPlace directory name = true)
    (grown : Grown files (files.place directory name (.file content)))
    (leads : (files.place directory name (.file content)).locate path =
      .ok (name :: directory, .file content)) :
    Confined [path] [] files (files.place directory name (.file content)) where
  grown := grown
  changes := by
    intro location differs
    rw [entry_place possible] at differs
    split at differs
    · rename_i here
      exact .inl ⟨path, List.mem_singleton_self path, content, here ▸ leads⟩
    · exact absurd rfl differs

/-- A successful write leaves the content where the path leads and changes nothing else. -/
theorem writeBytes_spec {files after : FileSystem} {path : Path} {content : ByteArray}
    (done : files.writeBytes path content = .ok after) :
    Confined [path] [] files after ∧ ∃ location, after.locate path = .ok (location, .file content) := by
  obtain ⟨way, routed, done⟩ := bind_eq_ok.mp done
  obtain ⟨found, walked, done⟩ := bind_eq_ok.mp done
  have fits := walk_fits walked
  cases found with
  | absent directory name slashed =>
    dsimp only at done
    split at done
    · cases done
    · rename_i plain
      cases done
      obtain ⟨inDirectory, missing⟩ := fits.1
      have possible : files.canPlace directory name = true :=
        canPlace_iff.mpr ⟨inDirectory, by simp [missing]⟩
      have grown := @grown_place files directory name possible (.file content)
        (fun old found => by simp [missing] at found)
      have leads := @locate_place files path way _ _ directory name (.file content) routed walked
        (.inr (by simp)) rfl possible grown (by simp) (fun asked => absurd asked plain)
      exact ⟨confined_place_file possible grown leads, _, leads⟩
  | present location slashed =>
    dsimp only at done
    split at done
    · cases done
    · rename_i plain
      split at done
      · rename_i name directory old here
        cases done
        have possible : files.canPlace directory name = true :=
          canPlace_iff.mpr ⟨entry_above here, by simp [here]⟩
        have grown := @grown_place files directory name possible (.file content)
          (fun other found => by
            rw [here] at found
            cases found
            exact .contents old content)
        have follows : way.slashed = false := by
          cases asked : way.slashed with
          | false => rfl
          | true => exact absurd (fits.2 asked) plain
        have leads := @locate_place files path way _ _ directory name (.file content) routed walked
          (.inl (by simp [follows])) rfl possible grown (by simp)
          (fun asked => absurd asked plain)
        exact ⟨confined_place_file possible grown leads, _, leads⟩
      · cases done

/-- A directory is made where there was nothing, and the path leads to it. -/
theorem makeDirectory_spec {files after : FileSystem} {path : Path}
    (done : files.makeDirectory path = .ok after) : Confined [] [path] files after := by
  obtain ⟨way, routed, done⟩ := bind_eq_ok.mp done
  obtain ⟨found, walked, done⟩ := bind_eq_ok.mp done
  cases found with
  | present location slashed => cases done
  | absent directory name slashed =>
    cases done
    obtain ⟨inDirectory, missing⟩ := (walk_fits walked).1
    have possible : files.canPlace directory name = true :=
      canPlace_iff.mpr ⟨inDirectory, by simp [missing]⟩
    have grown := @grown_place files directory name possible .directory
      (fun old found => by simp [missing] at found)
    have leads := @locate_place files path way _ _ directory name .directory routed walked
      (.inr (by simp)) rfl possible grown (by simp) (fun _ => rfl)
    refine ⟨grown, ?_⟩
    intro location differs
    rw [entry_place possible] at differs
    split at differs
    · rename_i here
      subst here
      exact .inr ⟨missing, path, List.mem_singleton_self path, leads⟩
    · exact absurd rfl differs

/-- Files made entry by entry, each at its path; what cannot be made is left out. -/
def ofTree (tree : List (Path × Entry)) : FileSystem :=
  tree.foldl (fun files entry =>
    match files.make entry.1 entry.2 with
    | .ok made => made
    | .error _ => files) empty

theorem ensureDirectory_confined (files : FileSystem) (path : Path) :
    Confined [] [path] files (files.ensureDirectory path).1 := by
  unfold ensureDirectory
  split
  · rename_i made done
    exact makeDirectory_spec done
  · exact Confined.refl files

theorem makeDirectoriesBelow_confined (files : FileSystem) (path : Path) (above : List Path) :
    Confined [] (path :: above) files (files.makeDirectoriesBelow path above).1 := by
  induction above generalizing path with
  | nil =>
    rw [makeDirectoriesBelow]
    split
    · exact Confined.refl files
    · exact files.ensureDirectory_confined path
  | cons nearest others ih =>
    rw [makeDirectoriesBelow]
    split
    · exact Confined.refl files
    · split
      · have reached : Confined [] (path :: nearest :: others) files
            (files.makeDirectoriesBelow nearest others).1 :=
          (ih nearest).mono (List.Subset.refl _) (List.subset_cons_self _ _)
        dsimp only
        split
        · exact reached.trans
            ((ensureDirectory_confined _ path).mono (List.Subset.refl _) (by simp))
        · exact reached
      · exact (files.ensureDirectory_confined path).mono (List.Subset.refl _) (by simp)

end FileSystem

end TreeMigration
