import TreeMigration.Proofs.Path.Relative

/-!
Paths that continue others. A path without a lead adds its names to any path, the empty one
included, and stripping a path off one that continues it gives such a path back; so what is put
below one directory can be put below another in the same place.

The empty path is the case that needs care. It has no components and joining to it puts no slash in
between, so what is joined must not begin with a lead of its own; the statements ask for a path
whose parts begin with a name (`components_join_of_bare`). `referencePath_of_continues` is the use:
a generated file and its reference continue their roots by the same names.
-/
namespace TreeMigration

namespace PathParts

/-- Segments that end in names continue where names stop. -/
theorem stripNames_eq_some_of_prefix {names more segments : List Text}
    (counted : segments.filter (!isVoid ·) = names ++ more) :
    ∃ rest, stripNames names segments = some rest ∧ rest <:+ segments ∧
      rest.filter (!isVoid ·) = more := by
  have begins : names <+: segments.filter (!isVoid ·) := ⟨more, counted.symm⟩
  obtain ⟨rest, stripped⟩ := Option.isSome_iff_exists.mp (stripNames_isSome_iff.mpr begins)
  obtain ⟨ends, whole⟩ := suffix_of_stripNames stripped
  exact ⟨rest, stripped, ends, (List.append_cancel_left (counted.symm.trans whole)).symm⟩

end PathParts

namespace Path

theorem parts_of_text_nil {path : Path} (empty : path.text = []) : path.parts = ⟨.bare, []⟩ := by
  unfold parts
  rw [empty]
  rfl

theorem parts_of_name (name : Name) : (Path.mk name.text).parts = ⟨.bare, [name.text]⟩ := by
  obtain ⟨filled, noDot, -, unmarked⟩ := name.ordinary
  have spelled : PathParts.Spelled ⟨.bare, [name.text]⟩ :=
    ⟨by simp [unmarked], fun _ => by simp [filled, noDot]⟩
  have divided := PathParts.parts_path spelled (by simp)
  simpa [PathParts.path, Text.join] using divided

theorem isAbsolute_of_bare {path : Path} (bare : path.parts.lead = .bare) :
    path.isAbsolute = false := by
  rw [Bool.eq_false_iff, Ne, ← lead_eq_root_iff, bare]
  simp

/-- A path without a lead adds its names to any path. -/
theorem components_join_of_bare {path other : Path} (bare : other.parts.lead = .bare) :
    (path.join other).components =
      (path.parts.lead, path.parts.names ++ other.parts.names) := by
  by_cases empty : path.text = []
  · have alone : path.join other = other := by
      simp [join, isAbsolute_of_bare bare, empty]
    rw [alone, parts_of_text_nil empty, components, bare]
    rfl
  · rw [components_join (isAbsolute_of_bare bare) empty, ← names_eq]

/-- A path whose last name is replaced by another name keeps what stands before it. -/
theorem components_withFileName_of_name {path : Path} {names : List Text} {last : Text}
    (named : path.parts.names = names ++ [last]) (noDots : last ≠ ['.', '.']) (name : Name) :
    (path.withFileName name.text).components = (path.parts.lead, names ++ [name.text]) := by
  obtain ⟨parent, found, same⟩ := parent?_of_names named
  obtain ⟨lead, kept⟩ := Prod.mk.inj same
  have whole : path.withFileName name.text = parent.join ⟨name.text⟩ := by
    simp [withFileName, fileName?, named, noDots, found]
  have alone := parts_of_name name
  rw [whole, components_join_of_bare (by rw [alone]), lead, kept, alone]
  simp [PathParts.names, name.counts]

/-- A path that continues another is seen from there as a path without a lead, which has the names
beyond. -/
theorem stripPrefix?_of_continues {base path : Path} {more : List Text}
    (continues : path.components = (base.parts.lead, base.parts.names ++ more)) :
    ∃ relative, stripPrefix? base path = some relative ∧ relative.parts.lead = .bare ∧
      relative.parts.names = more := by
  obtain ⟨lead, named⟩ := Prod.mk.inj continues
  by_cases empty : base.components = (.bare, [])
  · obtain ⟨bare, none⟩ := Prod.mk.inj empty
    have begins := PathParts.withoutVoidEnd_begins path.parts.segments
    have spelled : path.parts.trimmed.Spelled := path.parts_spelled.of_prefix begins
    have divided := PathParts.parts_path spelled (by simp [PathParts.trimmed, lead, bare])
    refine ⟨path.parts.trimmed.path, by rw [stripPrefix?, if_pos empty], ?_, ?_⟩
    · rw [divided, PathParts.trimmed, lead, bare]
    · rw [divided, PathParts.names, PathParts.trimmed, PathParts.filter_withoutVoidEnd,
        ← PathParts.names, named, none, List.nil_append]
  · obtain ⟨rest, stripped, ends, left⟩ := PathParts.stripNames_eq_some_of_prefix named
    have unmarked : ∀ segment ∈ rest, '/' ∉ segment :=
      fun segment member => path.parts_spelled.unmarked segment (ends.subset member)
    have divided := PathParts.parts_path (PathParts.spelled_between unmarked) (by simp)
    refine ⟨_, by rw [stripPrefix?, if_neg empty, if_pos lead.symm, stripped]; rfl, ?_, ?_⟩
    · rw [divided]
    · rw [divided, PathParts.names, PathParts.filter_withoutVoidEnd, PathParts.filter_dropWhile,
        left]

end Path

namespace Comparison

/-- What continues the destination root has a reference, which continues the reference root by the
same names. -/
theorem referencePath_of_continues {destinationRoot produced : Path} {more : List Text}
    (continues : produced.components =
      (destinationRoot.parts.lead, destinationRoot.parts.names ++ more)) (referenceRoot : Path) :
    ∃ reference, referencePath destinationRoot referenceRoot produced = .ok reference ∧
      reference.components = (referenceRoot.parts.lead, referenceRoot.parts.names ++ more) := by
  obtain ⟨relative, stripped, bare, named⟩ := Path.stripPrefix?_of_continues continues
  refine ⟨referenceRoot.join relative, ?_, ?_⟩
  · simp [referencePath, stripped]
  · rw [Path.components_join_of_bare bare, named]

end Comparison

end TreeMigration
