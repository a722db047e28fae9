import TreeMigration.Proofs.Path.Parts

/-!
The paths above a path. Each is spelled by the segments before one that counts, so its text begins
the text of the path; those above the parent of a path are above the path as well.

The list is computed on the segments from the last one backwards, with void segments passed over,
and `mem_pathsAbove` describes its members without that recursion. The last one above a relative
path is the empty path, and the last one above an absolute path the root. `Path.ancestors_of_parent`
is what makes the list fit for an induction: it begins with the parent and goes on with what is
above the parent.
-/
namespace TreeMigration

namespace PathParts

theorem withoutVoidEnd_begins (segments : List Text) : withoutVoidEnd segments <+: segments := by
  have suffix := List.reverse_prefix.mpr (List.dropWhile_suffix (l := segments.reverse) isVoid)
  rwa [List.reverse_reverse] at suffix

/-- Void segments at the end do not count for what is above. -/
theorem pathsAbove_dropWhile (lead : PathLead) (reversed : List Text) :
    pathsAbove lead (reversed.dropWhile isVoid) = pathsAbove lead reversed := by
  induction reversed with
  | nil => rfl
  | cons segment before ih =>
    cases void : isVoid segment with
    | true => simpa [void, pathsAbove] using ih
    | false => simp [void]

/-- A path above another ends where a segment that counts begins; above a leading dot there is the
empty path. -/
theorem mem_pathsAbove {lead : PathLead} {reversed : List Text} {above : Path}
    (member : above ∈ pathsAbove lead reversed) :
    above = ⟨[]⟩ ∨ ∃ before segment after, reversed.reverse = before ++ segment :: after ∧
      isVoid segment = false ∧ above = path ⟨lead, withoutVoidEnd before⟩ := by
  induction reversed with
  | nil =>
    rw [pathsAbove] at member
    split at member
    · exact .inl (List.mem_singleton.mp member)
    · cases member
  | cons segment earlier ih =>
    have longer : (∃ before other after, earlier.reverse = before ++ other :: after ∧
        isVoid other = false ∧ above = path ⟨lead, withoutVoidEnd before⟩) →
        ∃ before other after, (segment :: earlier).reverse = before ++ other :: after ∧
          isVoid other = false ∧ above = path ⟨lead, withoutVoidEnd before⟩ := by
      rintro ⟨before, other, after, split, counts, same⟩
      refine ⟨before, other, after ++ [segment], ?_, counts, same⟩
      simp [split]
    rw [pathsAbove] at member
    split at member
    · exact (ih member).imp_right longer
    · rename_i counts
      rcases List.mem_cons.mp member with here | member
      · refine .inr ⟨earlier.reverse, segment, [], by simp, by simpa using counts, ?_⟩
        rw [here, withoutVoidEnd, List.reverse_reverse]
      · exact (ih member).imp_right longer

/-- Fewer segments make a beginning of the text. -/
theorem path_begins (lead : PathLead) (segments more : List Text) :
    (path ⟨lead, segments⟩).text <+: (path ⟨lead, segments ++ more⟩).text := by
  cases lead with
  | root => exact (List.prefix_cons_inj '/').mpr (Text.join_begins ['/'] segments more)
  | current =>
    refine (List.prefix_cons_inj '.').mpr ?_
    rw [List.flatMap_append]
    exact List.prefix_append _ _
  | bare => exact Text.join_begins ['/'] segments more

end PathParts

namespace Path

/-- The path made of the parts of a path is the path. -/
theorem path_parts (path : Path) : path.parts.path = path := by
  have divided := PathParts.splitOn_path path.parts_spelled.unmarked
  rw [← path.splitOn_text] at divided
  have same := congrArg (Text.join ['/']) divided
  simp only [Text.join_splitOn] at same
  cases path
  cases shape : PathParts.path (parts _)
  simp_all

/-- A path above another is empty or made of the segments before one that counts. -/
theorem mem_ancestors {path above : Path} (member : above ∈ path.ancestors) :
    above = ⟨[]⟩ ∨ ∃ before segment after, path.parts.segments = before ++ segment :: after ∧
      PathParts.isVoid segment = false ∧
      above = PathParts.path ⟨path.parts.lead, PathParts.withoutVoidEnd before⟩ := by
  have found := PathParts.mem_pathsAbove member
  rwa [List.reverse_reverse] at found

theorem text_prefix_of_mem_ancestors {path above : Path} (member : above ∈ path.ancestors) :
    above.text <+: path.text := by
  rcases mem_ancestors member with rfl | ⟨before, segment, after, divided, -, rfl⟩
  · exact List.nil_prefix
  · obtain ⟨void, trimmed⟩ := PathParts.withoutVoidEnd_begins before
    have whole : path.parts.segments =
        PathParts.withoutVoidEnd before ++ (void ++ segment :: after) := by
      rw [divided, ← List.append_assoc, trimmed]
    have begins := PathParts.path_begins path.parts.lead (PathParts.withoutVoidEnd before)
      (void ++ segment :: after)
    rw [← whole, path.path_parts] at begins
    exact begins

end Path

namespace PathParts

theorem Spelled.of_prefix {lead : PathLead} {segments whole : List Text}
    (spelled : Spelled ⟨lead, whole⟩) (begins : segments <+: whole) : Spelled ⟨lead, segments⟩ where
  unmarked := fun segment member => spelled.unmarked segment (begins.subset member)
  lead := by
    intro bare
    obtain ⟨noSlash, noDot⟩ := spelled.lead bare
    obtain ⟨more, rfl⟩ := begins
    cases segments with
    | nil => simp
    | cons first rest => exact ⟨noSlash, noDot⟩

theorem ancestors_path {parts : PathParts} (spelled : parts.Spelled) :
    parts.path.ancestors = pathsAbove parts.lead parts.segments.reverse := by
  by_cases above : parts.lead = .root → parts.segments ≠ []
  · rw [Path.ancestors, parts_path spelled above]
  · obtain ⟨lead, segments⟩ := parts
    simp only [Classical.not_imp, not_not] at above
    obtain ⟨rfl, rfl⟩ := above
    rfl

theorem pathsAbove_of_head {lead : PathLead} {reversed : List Text} {parent : Path}
    (spelled : Spelled ⟨lead, reversed.reverse⟩)
    (found : (pathsAbove lead reversed).head? = some parent) :
    pathsAbove lead reversed = parent :: parent.ancestors := by
  induction reversed with
  | nil =>
    rw [pathsAbove] at found ⊢
    split at found
    · rename_i current
      cases found
      rw [if_pos current]
      rfl
    · cases found
  | cons segment earlier ih =>
    have whole : (segment :: earlier).reverse = earlier.reverse ++ [segment] := List.reverse_cons
    have shorter : Spelled ⟨lead, earlier.reverse⟩ :=
      spelled.of_prefix (whole ▸ List.prefix_append _ _)
    rw [pathsAbove] at found ⊢
    split at found
    · rename_i void
      rw [if_pos void]
      exact ih shorter found
    · rename_i counts
      rw [if_neg counts]
      cases found
      have trimmed : Spelled ⟨lead, withoutVoidEnd earlier.reverse⟩ :=
        shorter.of_prefix (withoutVoidEnd_begins _)
      rw [withoutVoidEnd, List.reverse_reverse] at trimmed
      rw [ancestors_path trimmed, List.reverse_reverse, pathsAbove_dropWhile]

end PathParts

/-- The first path above another is its parent, and the rest are those above the parent. -/
theorem Path.ancestors_of_parent {path parent : Path} (found : path.parent? = some parent) :
    path.ancestors = parent :: parent.ancestors := by
  have spelled : PathParts.Spelled ⟨path.parts.lead, path.parts.segments.reverse.reverse⟩ := by
    rw [List.reverse_reverse]
    exact path.parts_spelled
  exact PathParts.pathsAbove_of_head spelled found

end TreeMigration
