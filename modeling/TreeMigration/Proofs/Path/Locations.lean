import TreeMigration.FileSystem.Operations
import TreeMigration.Proofs.Path.Parts

/-!
Paths of locations. Such a path is absolute and all its segments count, so it can be told from its
names, and what one has beyond another is just the names it has more.

The names of a location, from the root on, are the reverse of the list that it is. As every name is
an ordinary segment, dividing the path of a location gives them back (`parts_path`), and with them
the location (`path_injective`). `Location.stripPrefix?_eq_some` is the case of stripping in which
both paths are absolute and without void segments, which is how a source is placed below the source
root.
-/
namespace TreeMigration

theorem Name.counts (name : Name) : PathParts.isVoid name.text = false := by
  simp [PathParts.isVoid, name.ordinary.1, name.ordinary.2.1]

/-- A segment that can be a name is one. -/
theorem Name.exists_text_eq {segment : Text}
    (ordinary : PathParts.isVoid segment = false ∧ segment ≠ ['.', '.'] ∧ '/' ∉ segment) :
    ∃ name : Name, name.text = segment := by
  obtain ⟨counts, noDots, unmarked⟩ := ordinary
  obtain ⟨filled, noDot⟩ : segment ≠ [] ∧ segment ≠ ['.'] := by
    simpa [PathParts.isVoid] using counts
  exact ⟨⟨segment, filled, noDot, noDots, unmarked⟩, rfl⟩

namespace Location

/-- The names on the way to a location from the root. -/
def names (location : Location) : List Text := location.reverse.map Name.text

theorem ordinary_of_mem_names {location : Location} {segment : Text}
    (member : segment ∈ location.names) :
    PathParts.isVoid segment = false ∧ segment ≠ ['.', '.'] ∧ '/' ∉ segment := by
  obtain ⟨name, -, rfl⟩ := List.mem_map.mp member
  exact ⟨name.counts, name.ordinary.2.2.1, name.ordinary.2.2.2⟩

theorem names_injective {location other : Location} (same : location.names = other.names) :
    location = other := by
  have texts : Function.Injective Name.text := by
    rintro ⟨text, ordinary⟩ ⟨other, -⟩ rfl
    rfl
  exact List.reverse_injective (List.map_injective_iff.mpr texts same)

theorem path_eq (location : Location) :
    Location.path location = PathParts.path ⟨.root, location.names⟩ := rfl

/-- The segments of the path are the names; at the root there is an empty one. -/
theorem parts_path (location : Location) :
    (Location.path location).parts =
      ⟨.root, if location.names = [] then [[]] else location.names⟩ := by
  by_cases root : location.names = []
  · rw [path_eq, root]
    rfl
  · rw [path_eq, if_neg root]
    refine PathParts.parts_path ⟨?_, by simp⟩ (fun _ => root)
    exact fun segment member => (ordinary_of_mem_names member).2.2

theorem names_parts_path (location : Location) :
    (Location.path location).parts.names = location.names := by
  rw [parts_path, PathParts.names]
  split
  · rename_i root
    rw [root]
    rfl
  · exact List.filter_eq_self.mpr fun segment member => by
      simp [(ordinary_of_mem_names member).1]

theorem path_injective {location other : Location}
    (same : Location.path location = Location.path other) : location = other := by
  apply names_injective
  rw [← names_parts_path, ← names_parts_path, same]

end Location

theorem PathParts.dropWhile_isVoid {segments : List Text}
    (counts : ∀ segment ∈ segments, isVoid segment = false) :
    segments.dropWhile isVoid = segments := by
  cases segments with
  | nil => rfl
  | cons first rest =>
    have filled := counts first List.mem_cons_self
    rw [List.dropWhile_cons_of_neg (by simp [filled])]

/-- Where no segment is void, names are stripped as they stand. -/
theorem PathParts.stripNames_eq_some {names segments rest : List Text}
    (counts : ∀ segment ∈ segments, isVoid segment = false)
    (stripped : stripNames names segments = some rest) : segments = names ++ rest := by
  induction names generalizing segments with
  | nil =>
    cases stripped
    rfl
  | cons name names ih =>
    cases segments with
    | nil => cases stripped
    | cons segment later =>
      rw [stripNames, dropWhile_isVoid counts] at stripped
      dsimp only at stripped
      split at stripped
      · rename_i same
        rw [same, ih (fun other member => counts other (List.mem_cons_of_mem _ member)) stripped]
        rfl
      · cases stripped

/-- The path of a location seen from the path of another is spelled by the names beyond it. -/
theorem Location.stripPrefix?_eq_some {base location : Location} {relative : Path}
    (stripped : Path.stripPrefix? (Location.path base) (Location.path location) = some relative)
    (filled : location.names ≠ []) :
    ∃ rest, location.names = base.names ++ rest ∧ relative = PathParts.path ⟨.bare, rest⟩ := by
  have counts : ∀ segment ∈ location.names, PathParts.isVoid segment = false :=
    fun segment member => (ordinary_of_mem_names member).1
  unfold Path.stripPrefix? at stripped
  rw [Path.components, names_parts_path, parts_path, parts_path, if_neg filled] at stripped
  simp only [Prod.mk.injEq, reduceCtorEq, false_and, if_false, if_true, Option.map_eq_some_iff]
    at stripped
  obtain ⟨rest, found, rfl⟩ := stripped
  have whole := PathParts.stripNames_eq_some counts found
  have restCounts : ∀ segment ∈ rest, PathParts.isVoid segment = false :=
    fun segment member => counts segment (whole ▸ List.mem_append_right _ member)
  refine ⟨rest, whole, ?_⟩
  rw [PathParts.dropWhile_isVoid restCounts, PathParts.withoutVoidEnd,
    PathParts.dropWhile_isVoid (by simpa using restCounts), List.reverse_reverse]

end TreeMigration
