import TreeMigration.Substitution
import Mathlib.Data.List.Basic

/-!
An admissible occurrence is never missed altogether. Cutting goes from left to right, so before it
reaches the given occurrence it has either chosen an earlier one or passed every character.

The claim is only that something is replaced, and not that this occurrence is: an earlier one may
overlap it. `Rule.count_apply_pos` says it for rules of either mode, since a rule for the first
occurrence counts one as soon as the cut has any.
-/
namespace TreeMigration

namespace Cut

/-- Where an admissible occurrence follows the characters passed, at least one is chosen. -/
theorem occurrences_pos {matching : Matching} {pattern : Text} (named : pattern ≠ [])
    (before : Option Char) (passed after : Text)
    (admitted : matching.admits (passed.getLast?.or before) after.head? = true) :
    0 < (ofRest matching pattern before 0 (passed ++ pattern ++ after)).occurrences := by
  induction passed generalizing before with
  | nil =>
    obtain ⟨c, rest, rfl⟩ := List.exists_cons_of_ne_nil named
    have front : (c :: rest).isPrefixOf (c :: (rest ++ after)) = true := by
      rw [List.isPrefixOf_iff_prefix]
      exact ⟨after, rfl⟩
    have here : matching.admits before after.head? = true := by simpa using admitted
    simp [ofRest, front, here, occurrences]
  | cons c passed ih =>
    rw [List.cons_append, List.cons_append, ofRest]
    split
    · simp [occurrences]
    · apply ih
      cases passed with
      | nil => simpa using admitted
      | cons d passed =>
        rw [List.getLast?_cons_cons] at admitted
        rw [Option.or_of_isSome (by simp [List.getLast?_isSome])] at admitted ⊢
        exact admitted

theorem occurrences_ofLine_pos {matching : Matching} {pattern : Text} (named : pattern ≠ [])
    (before after : Text) (admitted : matching.admits before.getLast? after.head? = true) :
    0 < (ofLine matching pattern (before ++ pattern ++ after)).occurrences := by
  have filled : pattern.isEmpty = false := by simpa using named
  simp only [ofLine, filled, Bool.false_eq_true, if_false]
  exact occurrences_pos named none before after (by simpa using admitted)

end Cut

/-- A rule of either mode replaces something on a line with an admissible occurrence. -/
theorem Rule.count_apply_pos {rule : Rule} {matching : Matching} (named : rule.pattern ≠ [])
    {line before after : Text} (found : line = before ++ rule.pattern ++ after)
    (admitted : matching.admits before.getLast? after.head? = true) :
    0 < (rule.apply matching line).count := by
  have chosen := Cut.occurrences_ofLine_pos named before after admitted
  rw [← found] at chosen
  cases mode : rule.mode with
  | all => simpa [Rule.apply, substitute, mode] using chosen
  | first =>
    simp only [Rule.apply, substitute, mode]
    omega

end TreeMigration
