import TreeMigration.Proofs.FileSystem.Canonical
import TreeMigration.Proofs.FileSystem.Lines
import TreeMigration.Proofs.Generation.Preparing
import TreeMigration.Proofs.Path.Joining
import TreeMigration.Proofs.Path.Locations

/-!
Where outputs go. The output of a source has the names that lead to the source from the source root,
put below the destination root, with the last one renamed if it ends in the source extension.

`Below` relates a source to the names that lead to it, by its absolute path, and `Mirrors` the names
of a source to those of its output. A target extension may hold slashes, so the new name of a file
may be several names; `components_renamed` puts the pieces in place of the last one.
`components_mirrored` is then the output as a path, and `destination_mirrors` says that it is where
the second pass puts it.

These statements are about a source that has a destination. Whether it has one is another question,
as its absolute path can be missing or lie outside the source root.
-/
namespace TreeMigration

/-- What the names of a source become in its output. The target extension stands in place of the
source extension and is divided again if it has slashes. -/
inductive Mirrors (extension target : Text) : List Text → List Text → Prop where
  | kept {directories : List Text} {name : Text} (plain : ¬ extension <:+ name) :
    Mirrors extension target (directories ++ [name]) (directories ++ [name])
  | renamed {directories : List Text} {stem : Text}
    (ends : ∀ front last, Text.splitOn '/' (stem ++ target) = front ++ [last] →
      PathParts.isVoid last = false) :
    Mirrors extension target (directories ++ [stem ++ extension])
      (directories ++ Path.namesIn (stem ++ target))

/-- Names as they stand in a file system. -/
def Ordinary (names : List Text) : Prop :=
  ∀ segment ∈ names, PathParts.isVoid segment = false ∧ segment ≠ ['.', '.'] ∧ '/' ∉ segment

theorem namesIn_path_of_ordinary {names : List Text} (ordinary : Ordinary names) :
    Path.namesIn (PathParts.path ⟨.bare, names⟩).text = names := by
  rw [PathParts.names_path fun segment member => (ordinary segment member).2.2]
  exact List.filter_eq_self.mpr fun segment member => by simp [(ordinary segment member).1]

theorem isAbsolute_of_ordinary {names : List Text} (ordinary : Ordinary names) :
    (PathParts.path ⟨.bare, names⟩).isAbsolute = false := by
  cases names with
  | nil => rfl
  | cons first rest =>
    obtain ⟨counts, -, unmarked⟩ := ordinary first List.mem_cons_self
    cases first with
    | nil => cases counts
    | cons c later =>
      have begins : (PathParts.path ⟨.bare, (c :: later) :: rest⟩).text.head? = some c := by
        cases rest with
        | nil => rfl
        | cons second others => rfl
      rw [Path.isAbsolute, begins, beq_eq_false_iff_ne]
      intro same
      cases same
      exact unmarked List.mem_cons_self

/-- A normalised extension is empty or begins with a dot. -/
theorem withDot_begins (extension : Text) :
    withDot extension = [] ∨ ∃ rest, withDot extension = '.' :: rest := by
  unfold withDot
  split
  · rename_i normal
    cases extension with
    | nil => exact .inl rfl
    | cons c rest =>
      have dot : c = '.' := by simpa using normal
      exact .inr ⟨rest, by rw [dot]⟩
  · exact .inr ⟨extension, rfl⟩

theorem isAbsolute_stem_append {stem : Text} (unmarked : '/' ∉ stem) (extension : Text) :
    (Path.mk (stem ++ withDot extension)).isAbsolute = false := by
  rw [Path.isAbsolute, beq_eq_false_iff_ne]
  cases stem with
  | nil =>
    rcases withDot_begins extension with empty | ⟨rest, dotted⟩
    · simp [empty]
    · simp [dotted]
  | cons c rest =>
    intro same
    cases same
    exact unmarked List.mem_cons_self

/-- Below a destination root, before any renaming, the names of a source follow those of the root. -/
theorem components_join_of_ordinary {root : Path} {names : List Text} (ordinary : Ordinary names)
    (spelled : root.text ≠ []) :
    (root.join (PathParts.path ⟨.bare, names⟩)).components =
      (root.parts.lead, root.parts.names ++ names) := by
  have joined := Path.components_join (isAbsolute_of_ordinary ordinary) spelled
  rwa [namesIn_path_of_ordinary ordinary] at joined

/-- Renaming below a destination root puts the pieces of the new name in place of the last name,
and the new name ends the path. -/
theorem components_renamed {root : Path} {directories : List Text} {name stem : Text}
    (ordinary : Ordinary (directories ++ [name])) (spelled : root.text ≠ [])
    (unmarked : '/' ∉ stem) (extension : Text) :
    ((root.join (PathParts.path ⟨.bare, directories ++ [name]⟩)).withFileName
        (stem ++ withDot extension)).components =
      (root.parts.lead,
        root.parts.names ++ (directories ++ Path.namesIn (stem ++ withDot extension))) ∧
    ∃ front, ((root.join (PathParts.path ⟨.bare, directories ++ [name]⟩)).withFileName
        (stem ++ withDot extension)).text = front ++ '/' :: (stem ++ withDot extension) := by
  have joined := components_join_of_ordinary ordinary spelled
  have lead := congrArg Prod.fst joined
  have named := congrArg Prod.snd joined
  have split : (root.join (PathParts.path ⟨.bare, directories ++ [name]⟩)).parts.names =
      (root.parts.names ++ directories) ++ [name] := by
    rw [List.append_assoc]
    exact named
  have upper : (root.join (PathParts.path ⟨.bare, directories ++ [name]⟩)).parts.lead = .bare →
      root.parts.names ++ directories ≠ [] := by
    intro bare empty
    exact Path.names_ne_nil_of_bare (lead.symm.trans bare) spelled
      (List.append_eq_nil_iff.mp empty).1
  obtain ⟨renamed, front, whole⟩ := Path.components_withFileName split
    (ordinary name (by simp)).2.1 upper (isAbsolute_stem_append unmarked extension)
  refine ⟨?_, front, whole⟩
  rw [renamed, ← List.append_assoc]
  exact congrArg (·, _) lead

namespace Preparation

open FileSystem

/-- The names that lead from the source root to a source file. -/
def Below (preparation : Preparation) (files : FileSystem) (source : SourceFile)
    (names : List Text) : Prop :=
  ∃ root location, preparation.sourceRoot = Location.path root ∧
    files.canonical source.path = .ok (Location.path location) ∧
    location.names = root.names ++ names

theorem Below.ordinary {preparation : Preparation} {files : FileSystem} {source : SourceFile}
    {names : List Text} (below : preparation.Below files source names) : Ordinary names := by
  obtain ⟨root, location, -, -, split⟩ := below
  intro segment member
  exact Location.ordinary_of_mem_names (split ▸ List.mem_append_right _ member)

/-- Two sources are one file exactly if the same names lead to them. -/
theorem Below.canonical_eq_iff {preparation : Preparation} {files : FileSystem}
    {source other : SourceFile} {names others : List Text}
    (below : preparation.Below files source names)
    (below' : preparation.Below files other others) :
    files.canonical source.path = files.canonical other.path ↔ names = others := by
  obtain ⟨root, location, same, canonical, split⟩ := below
  obtain ⟨root', location', same', canonical', split'⟩ := below'
  obtain rfl := Location.path_injective (same.symm.trans same')
  rw [canonical, canonical', Except.ok.injEq]
  constructor
  · intro equal
    rw [Location.path_injective equal, split'] at split
    exact (List.append_cancel_left split).symm
  · rintro rfl
    rw [Location.names_injective (split.trans split'.symm)]

/-- The output of a source, as a path: the names of the destination root and then those that mirror
the names of the source. -/
theorem components_mirrored {preparation : Preparation} {source : SourceFile} {names : List Text}
    {after : FileSystem} {location : Location} {content : ByteArray}
    (ordinary : Ordinary names) (filled : names ≠ [])
    (spelled : preparation.settings.destinationRoot.text ≠ [])
    (leads : after.locate (preparation.mirrored source (PathParts.path ⟨.bare, names⟩)) =
      .ok (location, .file content)) :
    ∃ output, Mirrors source.extension (withDot preparation.settings.targetExtension) names output ∧
      (preparation.mirrored source (PathParts.path ⟨.bare, names⟩)).components =
        (preparation.settings.destinationRoot.parts.lead,
          preparation.settings.destinationRoot.parts.names ++ output) := by
  obtain ⟨directories, name, rfl⟩ := List.eq_nil_or_concat' names |>.resolve_left filled
  obtain ⟨-, notUp, undivided⟩ := ordinary name (by simp)
  have fileName : (PathParts.path ⟨.bare, directories ++ [name]⟩).fileName? = some name := by
    rw [Path.fileName?, Path.names_eq, namesIn_path_of_ordinary ordinary]
    simp [notUp]
  unfold mirrored at leads ⊢
  simp only [fileName, Option.bind_some] at leads ⊢
  cases suffix : source.extension.isSuffixOf? name with
  | none =>
    simp only [suffix] at leads ⊢
    have plain : ¬ source.extension <:+ name := by
      intro ends
      have found := List.isSome_isSuffixOf?_eq_isSuffixOf source.extension name
      rw [suffix, List.isSuffixOf_iff_suffix.mpr ends] at found
      cases found
    exact ⟨_, .kept plain, components_join_of_ordinary ordinary spelled⟩
  | some stem =>
    simp only [suffix] at leads ⊢
    obtain rfl := List.isSuffixOf?_eq_some_iff_append_eq.mp suffix
    have unmarked : '/' ∉ stem := fun marked => undivided (List.mem_append_left _ marked)
    obtain ⟨renamed, front, whole⟩ := components_renamed ordinary spelled unmarked
      preparation.settings.targetExtension
    refine ⟨_, .renamed ?_, renamed⟩
    intro before ending divided
    have pieces := Text.splitOn_append '/' front
      (stem ++ withDot preparation.settings.targetExtension)
    rw [← whole, divided, ← List.append_assoc] at pieces
    exact last_counts_of_locate leads pieces

/-- Sound settings have a source root that is a directory and name a destination root. -/
theorem roots_of_check {settings : Settings} {files : FileSystem}
    (sound : settings.check files = .ok ()) :
    files.isDirectory settings.sourceRoot = true ∧ settings.destinationRoot.text ≠ [] := by
  obtain ⟨sourceRoot, -, destinationRoot, -⟩ := Settings.check_eq_ok_iff.mp sound
  obtain ⟨location, located⟩ := isDirectory_iff.mp destinationRoot
  exact ⟨sourceRoot, text_ne_nil_of_locate located⟩

/-- Where the output of a source goes mirrors where the source is. -/
theorem destination_mirrors {preparation : Preparation} {files after : FileSystem}
    {settings : Settings} {source : SourceFile} {destination : Path} {location place : Location}
    {content written : ByteArray} (made : MadeFrom files settings preparation)
    (found : files.locate source.path = .ok (location, .file content))
    (goal : preparation.destination files source = .ok destination)
    (leads : after.locate destination = .ok (place, .file written)) :
    ∃ names output, preparation.Below files source names ∧
      Mirrors source.extension (withDot settings.targetExtension) names output ∧
      destination.components = (settings.destinationRoot.parts.lead,
        settings.destinationRoot.parts.names ++ output) := by
  obtain ⟨isRoot, spelled⟩ := roots_of_check made.sound
  obtain ⟨root, rootFound⟩ := isDirectory_iff.mp isRoot
  have sourceRoot := eq_path_of_canonical rootFound made.sourceRoot
  have here := entry_of_locate found
  have filled : location.names ≠ [] := by
    intro empty
    have top : location = [] := Location.names_injective empty
    rw [top] at here
    cases here
  obtain ⟨absolute, canonical, goal⟩ := bind_eq_ok.mp goal
  rw [onPath_eq_ok_iff] at canonical
  obtain rfl := eq_path_of_canonical found canonical
  split at goal
  · cases goal
  · rename_i relative stripped
    cases goal
    rw [sourceRoot] at stripped
    obtain ⟨names, split, rfl⟩ := Location.stripPrefix?_eq_some stripped filled
    have below : preparation.Below files source names :=
      ⟨root, location, sourceRoot, canonical, split⟩
    have beyond : names ≠ [] := by
      rintro rfl
      rw [List.append_nil] at split
      rw [Location.names_injective split, entry_of_locate rootFound] at here
      cases here
    rw [← made.kept] at spelled ⊢
    obtain ⟨output, mirrors, same⟩ := components_mirrored below.ordinary beyond spelled leads
    exact ⟨names, output, below, mirrors, same⟩

end Preparation

end TreeMigration
