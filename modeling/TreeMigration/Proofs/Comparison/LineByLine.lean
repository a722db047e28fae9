import TreeMigration.Comparison
import Mathlib.Data.List.Basic

/-!
The lines that differ. Two files with equally many lines are compared one line after the other, and
what is found is enough to make one of the other.

`LineByLine` is the specification: there is one difference for each line that differs and no other,
their numbers ascend, and correcting the first list by all of them gives the second. Each part is an
induction along both lists with the number of the line at the front generalised.

The last part needs more than the others, since the corrections are made to the whole list. The
invariant of `foldl_correct_differingLines` is a list whose front is already in order, and every
difference found behind it leaves that front alone.
-/
namespace TreeMigration

namespace Difference

/-- The number of the line that differs; zero where no single line does. -/
def lineNumber : Difference → Nat
  | .line number _ _ => number
  | _ => 0

/-- The lines with the one that differs as the reference has it. -/
def correct (lines : List Text) : Difference → List Text
  | .line number _ reference => lines.set (number - 1) reference
  | _ => lines

end Difference

namespace Comparison

/-- Differences that tell two lists of lines apart, line by line: one for each line that differs and
no other, in ascending order, which together make the second list of the first. -/
structure LineByLine (ours theirs : List Text) (found : List Difference) : Prop where
  mem_iff : ∀ difference, difference ∈ found ↔ ∃ (i : Nat) (a b : Text), ours[i]? = some a ∧
    theirs[i]? = some b ∧ a ≠ b ∧ difference = .line (i + 1) a b
  ascending : found.Pairwise (·.lineNumber < ·.lineNumber)
  corrected : found.foldl Difference.correct ours = theirs

theorem mem_differingLines {start : Nat} {ours theirs : List Text} {difference : Difference} :
    difference ∈ differingLines start ours theirs ↔ ∃ (i : Nat) (a b : Text), ours[i]? = some a ∧
      theirs[i]? = some b ∧ a ≠ b ∧ difference = .line (start + i) a b := by
  fun_induction differingLines start ours theirs with
  | case1 start ours oursLater theirsLater rest ih =>
    rw [ih]
    constructor
    · rintro ⟨i, a, b, first, second, apart, rfl⟩
      exact ⟨i + 1, a, b, first, second, apart, by congr 1; omega⟩
    · rintro ⟨i, a, b, first, second, apart, rfl⟩
      cases i with
      | zero =>
        cases first
        cases second
        exact absurd rfl apart
      | succ i => exact ⟨i, a, b, first, second, apart, by congr 1; omega⟩
  | case2 start our oursLater their theirsLater rest differ ih =>
    rw [List.mem_cons, ih]
    constructor
    · rintro (rfl | ⟨i, a, b, first, second, apart, rfl⟩)
      · exact ⟨0, our, their, rfl, rfl, differ, rfl⟩
      · exact ⟨i + 1, a, b, first, second, apart, by congr 1; omega⟩
    · rintro ⟨i, a, b, first, second, apart, rfl⟩
      cases i with
      | zero =>
        cases first
        cases second
        exact .inl rfl
      | succ i => exact .inr ⟨i, a, b, first, second, apart, by congr 1; omega⟩
  | case3 ours start theirs short =>
    simp only [List.not_mem_nil, false_iff, not_exists, not_and]
    intro i a b first second
    cases ours with
    | nil => simp at first
    | cons our oursLater =>
      cases theirs with
      | nil => simp at second
      | cons their theirsLater => exact absurd rfl (short _ _ _ _ rfl)

theorem ascending_differingLines (start : Nat) (ours theirs : List Text) :
    (differingLines start ours theirs).Pairwise (·.lineNumber < ·.lineNumber) := by
  fun_induction differingLines start ours theirs with
  | case1 start ours oursLater theirsLater rest ih => exact ih
  | case2 start our oursLater their theirsLater rest differ ih =>
    refine List.pairwise_cons.mpr ⟨?_, ih⟩
    intro difference member
    obtain ⟨i, a, b, -, -, -, rfl⟩ := mem_differingLines.mp member
    simp only [Difference.lineNumber]
    omega
  | case3 => exact .nil

/-- What is found behind lines already in order puts the rest in order. -/
theorem foldl_correct_differingLines (settled : List Text) {ours theirs : List Text}
    (same : ours.length = theirs.length) :
    (differingLines (settled.length + 1) ours theirs).foldl Difference.correct (settled ++ ours) =
      settled ++ theirs := by
  induction ours generalizing settled theirs with
  | nil =>
    cases theirs with
    | nil => rfl
    | cons their later => cases same
  | cons our oursLater ih =>
    cases theirs with
    | nil => cases same
    | cons their later =>
      have rest := ih (settled ++ [their]) (Nat.succ.inj same)
      rw [List.length_append, List.length_singleton, List.append_assoc, List.append_assoc] at rest
      rw [differingLines]
      split
      · rename_i equal
        rw [equal]
        exact rest
      · rw [List.foldl_cons, Difference.correct, Nat.add_sub_cancel,
          List.set_append_right _ _ (Nat.le_refl _), Nat.sub_self]
        exact rest

theorem lineByLine_differingLines {ours theirs : List Text} (same : ours.length = theirs.length) :
    LineByLine ours theirs (differingLines 1 ours theirs) where
  mem_iff := by
    intro difference
    rw [mem_differingLines]
    simp only [Nat.add_comm 1]
  ascending := ascending_differingLines 1 ours theirs
  corrected := foldl_correct_differingLines [] same

end Comparison

end TreeMigration
