import TreeMigration.Proofs.Path.Parts
import Mathlib.Data.List.Infix

/-!
When one path lies below another. A prefix can be stripped exactly where its components begin those
of the path; void segments on the way do not count.

This is the condition for a source to lie below the source root and for a generated file to lie
below the destination root, in terms of names and without the text that is left. `Path.Begins` lets
the empty path begin every path, absolute ones too, since there is nothing to strip.
-/
namespace TreeMigration

/-- The components of a path begin those of another; the empty path begins every path. -/
def Path.Begins (base path : Path) : Prop :=
  base.components = (.bare, []) ∨
    base.parts.lead = path.parts.lead ∧ base.parts.names <+: path.parts.names

namespace PathParts

theorem stripNames_isSome_iff {names segments : List Text} :
    (stripNames names segments).isSome = true ↔ names <+: segments.filter (!isVoid ·) := by
  induction names generalizing segments with
  | nil => simp [stripNames]
  | cons name names ih =>
    rw [stripNames, ← filter_dropWhile segments]
    have stop := List.head?_dropWhile_not isVoid segments
    cases shape : segments.dropWhile isVoid with
    | nil => simp
    | cons segment later =>
      have counts : isVoid segment = false := by simpa [shape] using stop
      rw [List.filter_cons_of_pos (by simp [counts]), List.cons_prefix_cons]
      dsimp only
      split
      · rename_i same
        simp only [same, true_and]
        exact ih
      · rename_i other
        simp [Ne.symm other]

end PathParts

/-- A prefix can be stripped exactly where its components begin those of the path. -/
theorem Path.stripPrefix?_isSome_iff {base path : Path} :
    (stripPrefix? base path).isSome = true ↔ base.Begins path := by
  unfold stripPrefix? Begins
  split
  · rename_i empty
    simp [empty]
  · rename_i filled
    simp only [filled, false_or]
    split
    · rename_i lead
      rw [Option.isSome_map, PathParts.stripNames_isSome_iff, PathParts.names]
      simp [lead, PathParts.names]
    · rename_i other
      simp [other]

end TreeMigration
