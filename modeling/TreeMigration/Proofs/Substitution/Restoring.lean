import TreeMigration.Substitution
import Mathlib.Data.List.Basic

/-!
What a cut keeps of its line. Putting the pattern back into every place it was taken from gives the
line again, so a substitution that replaces nothing changes nothing, and one that replaces something
brings in no character but those of the replacement.

`fillAll_ofRest` is the induction. It is stated for the rest of a line of which some first
characters still belong to the occurrence chosen last; these are passed over and do not come back,
which is why the equation holds with that many characters dropped.
-/
namespace TreeMigration

namespace Cut

/-- The rest of a line comes back without the characters of the occurrence chosen last. -/
theorem fillAll_ofRest {pattern : Text} (filled : pattern ≠ []) (matching : Matching)
    (before : Option Char) (inside : Nat) (t : Text) :
    (ofRest matching pattern before inside t).fillAll pattern = t.drop inside := by
  fun_induction ofRest matching pattern before inside t with
  | case1 => simp [fillAll]
  | case2 before inside c rest ih => rw [ih, List.drop_succ_cons]
  | case3 before c rest chosen next ih =>
    have begins : pattern <+: c :: rest :=
      List.isPrefixOf_iff_prefix.mp ((Bool.and_eq_true _ _).mp chosen).1
    have taken : pattern ++ next.fillAll pattern = c :: rest := by
      rw [ih]
      obtain ⟨behind, whole⟩ := begins
      obtain ⟨first, later, rfl⟩ := List.exists_cons_of_ne_nil filled
      obtain ⟨rfl, rfl⟩ := List.cons.inj whole
      simp
    simpa [fillAll] using taken
  | case4 before c rest passed next ih => simpa [fillAll] using ih

/-- A line comes back when the pattern is put into its places. -/
theorem fillAll_ofLine (matching : Matching) (pattern line : Text) :
    (ofLine matching pattern line).fillAll pattern = line := by
  unfold ofLine
  split
  · simp [fillAll]
  · rename_i filled
    exact fillAll_ofRest (by simpa using filled) matching none 0 line

theorem mem_fillAll_iff {cut : Cut} {filling : Text} {c : Char} :
    c ∈ cut.fillAll filling ↔
      c ∈ cut.start ∨ ∃ piece ∈ cut.later, c ∈ filling ∨ c ∈ piece := by
  simp [fillAll]

/-- The first place alone is filled with something else than the pattern. -/
theorem mem_of_mem_fillFirst {cut : Cut} {pattern filling : Text} {c : Char}
    (member : c ∈ cut.fillFirst pattern filling) :
    c ∈ cut.fillAll pattern ∨ c ∈ filling := by
  obtain ⟨start, later⟩ := cut
  cases later with
  | nil => exact .inl (mem_fillAll_iff.mpr (.inl member))
  | cons second others =>
    simp only [fillFirst, List.mem_append, mem_fillAll_iff] at member
    rw [mem_fillAll_iff]
    rcases member with (inStart | inFilling) | inSecond | ⟨piece, listed, inside⟩
    · exact .inl (.inl inStart)
    · exact .inr inFilling
    · exact .inl (.inr ⟨second, List.mem_cons_self, .inr inSecond⟩)
    · exact .inl (.inr ⟨piece, List.mem_cons_of_mem _ listed, inside⟩)

end Cut

/-- A substitution that replaces nothing leaves the line as it was. -/
theorem substitute_of_count_eq_zero {matching : Matching} {mode : Mode}
    {pattern replacement line : Text}
    (unchanged : (substitute matching mode pattern replacement line).count = 0) :
    (substitute matching mode pattern replacement line).text = line := by
  have back := Cut.fillAll_ofLine matching pattern line
  have empty : (Cut.ofLine matching pattern line).later = [] := by
    cases mode with
    | all => simpa [substitute, Cut.occurrences] using unchanged
    | first =>
      have counted : min 1 (Cut.ofLine matching pattern line).later.length = 0 := unchanged
      exact List.length_eq_zero_iff.mp (by omega)
  cases mode with
  | all => simpa [substitute, Cut.fillAll, empty] using back
  | first => simpa [substitute, Cut.fillFirst, Cut.fillAll, empty] using back

/-- A substitution brings in no character but those of the replacement. -/
theorem mem_of_mem_substitute {matching : Matching} {mode : Mode}
    {pattern replacement line : Text} {c : Char}
    (member : c ∈ (substitute matching mode pattern replacement line).text) :
    c ∈ line ∨ c ∈ replacement := by
  have back := Cut.fillAll_ofLine matching pattern line
  cases mode with
  | first =>
    refine (Cut.mem_of_mem_fillFirst member).imp_left fun inside => ?_
    rwa [back] at inside
  | all =>
    rcases Cut.mem_fillAll_iff.mp member with inStart | ⟨piece, listed, inFilling | inPiece⟩
    · exact .inl (back ▸ Cut.mem_fillAll_iff.mpr (.inl inStart))
    · exact .inr inFilling
    · exact .inl (back ▸ Cut.mem_fillAll_iff.mpr (.inr ⟨piece, listed, .inr inPiece⟩))

end TreeMigration
