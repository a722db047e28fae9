import TreeMigration.Proofs.FileSystem.Writing
import TreeMigration.Proofs.Path.Ancestors

/-!
What a path leads through. The steps to a path above another begin the steps to the other, so where
the longer walk ends anywhere the shorter one ends at a directory; no directory is missing above a
file that can be found.

The paths above a path are spelled by fewer of its segments (`Path.steps_of_mem_ancestors`), and a
walk can be cut before any of its steps, so `locate_of_mem_ancestors` is an application of that to
the steps that are left: there is at least one, and a walk with a step left stands in a directory.
Links on the way do not matter, as both walks meet the same ones.

What it is for comes last. Directories made above an output that can already be found were there
before, so writing has changed nothing exactly if each written path leads to what it led to before
(`Confined.eq_iff`).
-/
namespace TreeMigration

/-- The steps that what a path starts with asks for. -/
def PathLead.steps : PathLead → List Step
  | .current => [.stay]
  | _ => []

/-- The steps to a path are those of its parts, one after the other. -/
theorem PathParts.steps_path {parts : PathParts}
    (unmarked : ∀ segment ∈ parts.segments, '/' ∉ segment) :
    (Route.ofText parts.path.text).steps =
      parts.lead.steps ++ parts.segments.filterMap Step.ofSegment := by
  have divided := splitOn_path unmarked
  have empty : Step.ofSegment [] = none := by decide
  have dot : Step.ofSegment ['.'] = some .stay := by decide
  rw [Route.ofText, divided, pieces]
  obtain ⟨lead, segments⟩ := parts
  cases lead with
  | root =>
    cases segments with
    | nil => simp [empty, PathLead.steps]
    | cons first rest => simp [empty, PathLead.steps]
  | current => simp [dot, PathLead.steps]
  | bare =>
    cases segments with
    | nil => simp [empty, PathLead.steps]
    | cons first rest => simp [PathLead.steps]

theorem Step.ofSegment_of_counts {segment : Text} (unmarked : '/' ∉ segment)
    (counts : PathParts.isVoid segment = false) : ∃ step, ofSegment segment = some step := by
  have filled : segment ≠ [] := by
    rintro rfl
    cases counts
  have noDot : segment ≠ ['.'] := by
    rintro rfl
    cases counts
  unfold ofSegment
  rw [dif_neg noDot]
  split
  · exact ⟨_, rfl⟩
  · rw [dif_pos ⟨filled, unmarked⟩]
    exact ⟨_, rfl⟩

/-- On the way to a path there are at least the steps to every path above it, and one more. -/
theorem Path.steps_of_mem_ancestors {path above : Path} (member : above ∈ path.ancestors)
    (spelled : above.text ≠ []) :
    ∃ step more, (Route.ofText path.text).steps =
      (Route.ofText above.text).steps ++ step :: more := by
  rcases mem_ancestors member with rfl | ⟨before, segment, after, divided, counts, rfl⟩
  · exact absurd rfl spelled
  · have unmarked := path.parts_spelled.unmarked
    have whole := PathParts.steps_path unmarked
    rw [path.path_parts] at whole
    have begins := PathParts.withoutVoidEnd_begins before
    have front : ∀ name ∈ PathParts.withoutVoidEnd before, '/' ∉ name := by
      intro name inFront
      apply unmarked
      rw [divided]
      exact List.mem_append_left _ (begins.subset inFront)
    have upper := @PathParts.steps_path ⟨path.parts.lead, PathParts.withoutVoidEnd before⟩ front
    obtain ⟨step, asked⟩ := Step.ofSegment_of_counts
      (unmarked segment (by simp [divided])) counts
    obtain ⟨void, trimmed⟩ := begins
    rw [whole, upper, divided]
    have split : before.filterMap Step.ofSegment =
        (PathParts.withoutVoidEnd before).filterMap Step.ofSegment ++
          void.filterMap Step.ofSegment := by
      rw [← List.filterMap_append, trimmed]
    rw [List.filterMap_append, split, List.filterMap_cons_some asked]
    cases shape : void.filterMap Step.ofSegment with
    | nil => exact ⟨step, after.filterMap Step.ofSegment, by simp⟩
    | cons first rest => exact ⟨first, rest ++ step :: after.filterMap Step.ofSegment, by simp⟩

namespace FileSystem

/-- The route of a path that begins another is an allowed one if the other's is. -/
theorem route_of_prefix {path above : Path} {way : Route} (begins : above.text <+: path.text)
    (spelled : above.text ≠ []) (routed : route path = .ok way) :
    way = Route.ofText path.text ∧ route above = .ok (Route.ofText above.text) ∧
      (Route.ofText above.text).absolute = (Route.ofText path.text).absolute := by
  obtain ⟨more, whole⟩ := begins
  unfold route at routed ⊢
  rw [← whole] at routed ⊢
  split at routed
  · cases routed
  · split at routed
    · cases routed
    · rename_i clear
      split at routed
      · cases routed
      · rename_i short
        cases routed
        have clearAbove : ¬ above.text.contains '\x00' = true := by
          intro marked
          simp [List.contains_iff_mem.mp marked] at clear
        have shortAbove : ¬ pathLimit ≤ Text.byteSize above.text := by
          rw [Text.byteSize_append] at short
          omega
        rw [if_neg (by simpa using spelled), if_neg clearAbove, if_neg shortAbove]
        refine ⟨rfl, rfl, ?_⟩
        cases shape : above.text with
        | nil => exact absurd shape spelled
        | cons first rest => rfl

/-- Where a path leads anywhere, the paths above it lead to directories. -/
theorem locate_of_mem_ancestors {files : FileSystem} {path above : Path}
    {location : Location} {entry : Entry} (located : files.locate path = .ok (location, entry))
    (member : above ∈ path.ancestors) (spelled : above.text ≠ []) :
    ∃ reached, files.locate above = .ok (reached, .directory) := by
  obtain ⟨way, slashed, routed, walked, -, -⟩ := locate_eq_ok_iff.mp located
  obtain ⟨step, more, longer⟩ := Path.steps_of_mem_ancestors member spelled
  obtain ⟨rfl, routedAbove, absolute⟩ :=
    route_of_prefix (Path.text_prefix_of_mem_ancestors member) spelled routed
  unfold walk at walked
  rw [longer, ← absolute] at walked
  obtain ⟨reached, ending, _, _, before, after⟩ := (walkFrom_eq_ok_iff.mp walked).split
    (Route.ofText above.text).slashed rfl (by simp)
  exact ⟨reached, locate_eq_ok_iff.mpr
    ⟨_, ending, routedAbove, walkFrom_eq_ok_iff.mpr before, after.directory, fun _ => rfl⟩⟩

/-- Writing some files, with the directories above them, has changed nothing exactly if each of the
paths written leads to what it led to before. -/
theorem Confined.eq_iff {written : List Path} {files later : FileSystem}
    (confined : Confined written (written.flatMap Path.ancestors) files later)
    (leads : ∀ path ∈ written, ∃ location content,
      later.locate path = .ok (location, .file content)) :
    later = files ↔ ∀ path ∈ written, later.locate path = files.locate path := by
  constructor
  · rintro rfl path -
    rfl
  · intro same
    refine confined.grown.eq_of_entries fun location => Classical.byContradiction fun differs => ?_
    rcases confined.changes location differs with ⟨path, listed, content, there⟩ |
      ⟨missing, above, member, there⟩
    · have before : files.locate path = .ok (location, .file content) := same path listed ▸ there
      rw [entry_of_locate there, entry_of_locate before] at differs
      exact differs rfl
    -- the path below the new directory led somewhere before, so the directory was there
    · obtain ⟨path, listed, upper⟩ := List.mem_flatMap.mp member
      obtain ⟨_, _, found⟩ := leads path listed
      rw [same path listed] at found
      obtain ⟨reached, before⟩ := locate_of_mem_ancestors found upper (text_ne_nil_of_locate there)
      obtain ⟨entry, after, -⟩ := locate_of_grown confined.grown before
      rw [there] at after
      cases after
      rw [entry_of_locate before] at missing
      cases missing

end FileSystem

end TreeMigration
