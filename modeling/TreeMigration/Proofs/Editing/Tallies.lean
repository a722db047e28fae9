import TreeMigration.Editor
import Mathlib.Data.List.Basic

/-!
What an editor leaves of lines and what it counts. The lines depend on the plan alone; the counts of
a whole run are those of its lines, added up one line after the other.

`editLines_spec` and `afterFiles_spec` are the run lemmas of the editor, for the lines of one file
and for any number of files. They say at once that the index and the plan do not change, what each
line becomes, and what has been added to the tallies; nothing later looks at the editor's own
recursion.

Tallies only grow (`le_add`, `Tally.le_foldl_add`), and a line on which a rule replaces something is
still seen in the end (`Tally.foldl_add_pos`). For the first rule of a plan the lines counted are
those that were read, for any other those that the rules before it have left.
-/
namespace TreeMigration

def editedLines (plan : List PlannedRule) (lines : List Text) : List Text :=
  lines.map fun line => (editLine plan line).1

def Tally.addLines (plan : List PlannedRule) (tallies : List Tally) (lines : List Text) :
    List Tally :=
  lines.foldl (fun tallies line => tallies.zipWith Tally.add (editLine plan line).2) tallies

namespace Tally

/-- Counting never takes anything back. -/
theorem le_add (tally : Tally) (replaced : Nat) :
    tally.replacements ≤ (tally.add replaced).replacements ∧
      tally.applications ≤ (tally.add replaced).applications := by
  unfold add
  split
  · exact ⟨Nat.le_refl _, Nat.le_refl _⟩
  · exact ⟨Nat.le_add_right _ _, Nat.le_add_right _ _⟩

theorem add_pos (tally : Tally) {replaced : Nat} (changed : 0 < replaced) :
    0 < (tally.add replaced).replacements ∧ 0 < (tally.add replaced).applications := by
  have counted : replaced ≠ 0 := by omega
  simp only [add, if_neg counted]
  omega

end Tally

namespace Editor

/-- Editing lines keeps index and plan, makes of the lines what the plan makes of them and adds
their counts. -/
theorem editLines_spec (editor : Editor) (lines : List Text) :
    (editor.editLines lines).2 = editedLines editor.plan lines ∧
    (editor.editLines lines).1.index = editor.index ∧
    (editor.editLines lines).1.plan = editor.plan ∧
    (editor.editLines lines).1.tallies = Tally.addLines editor.plan editor.tallies lines := by
  induction lines generalizing editor with
  | nil => exact ⟨rfl, rfl, rfl, rfl⟩
  | cons line later ih =>
    obtain ⟨text, index, plan, tallies⟩ := ih (editor.editLine line).1
    refine ⟨?_, index, plan, tallies⟩
    rw [editLines, text]
    rfl

/-- The editor after any number of files. -/
def afterFiles (editor : Editor) (texts : List (List Text)) : Editor :=
  texts.foldl (fun editor lines => (editor.editLines lines).1) editor

theorem afterFiles_spec (editor : Editor) (texts : List (List Text)) :
    (editor.afterFiles texts).index = editor.index ∧
    (editor.afterFiles texts).plan = editor.plan ∧
    (editor.afterFiles texts).tallies =
      Tally.addLines editor.plan editor.tallies texts.flatten := by
  induction texts generalizing editor with
  | nil => exact ⟨rfl, rfl, rfl⟩
  | cons lines later ih =>
    obtain ⟨-, index, plan, tallies⟩ := editor.editLines_spec lines
    obtain ⟨laterIndex, laterPlan, laterTallies⟩ := ih (editor.editLines lines).1
    refine ⟨laterIndex.trans index, laterPlan.trans plan, ?_⟩
    rw [afterFiles, List.foldl_cons, ← afterFiles, laterTallies, plan, tallies]
    simp [Tally.addLines]

end Editor

/-- The first rule of a plan sees every line as it was read, so its tally grows by what it does to
the lines themselves. -/
theorem Tally.head_addLines (planned : PlannedRule) (later : List PlannedRule) (tally : Tally)
    (others : List Tally) (lines : List Text) :
    (addLines (planned :: later) (tally :: others) lines).head? =
      some (lines.foldl (fun tally line => tally.add (planned.apply line).count) tally) := by
  induction lines generalizing tally others with
  | nil => rfl
  | cons line rest ih => exact ih (tally.add (planned.apply line).count) _

/-- However many lines follow, what has been counted stays. -/
theorem Tally.le_foldl_add (count : Text → Nat) (lines : List Text) (tally : Tally) :
    tally.replacements ≤
        (lines.foldl (fun tally line => tally.add (count line)) tally).replacements ∧
      tally.applications ≤
        (lines.foldl (fun tally line => tally.add (count line)) tally).applications := by
  induction lines generalizing tally with
  | nil => exact ⟨Nat.le_refl _, Nat.le_refl _⟩
  | cons line later ih =>
    have step := tally.le_add (count line)
    have rest := ih (tally.add (count line))
    exact ⟨Nat.le_trans step.1 rest.1, Nat.le_trans step.2 rest.2⟩

/-- A count above zero on one of the lines shows in the end. -/
theorem Tally.foldl_add_pos {count : Text → Nat} {lines : List Text} {line : Text}
    (listed : line ∈ lines) (changed : 0 < count line) (tally : Tally) :
    0 < (lines.foldl (fun tally line => tally.add (count line)) tally).replacements ∧
      0 < (lines.foldl (fun tally line => tally.add (count line)) tally).applications := by
  obtain ⟨earlier, later, rfl⟩ := List.append_of_mem listed
  rw [List.foldl_append, List.foldl_cons]
  have here := (earlier.foldl (fun tally line => tally.add (count line)) tally).add_pos changed
  have rest := le_foldl_add count later
    ((earlier.foldl (fun tally line => tally.add (count line)) tally).add (count line))
  exact ⟨Nat.lt_of_lt_of_le here.1 rest.1, Nat.lt_of_lt_of_le here.2 rest.2⟩

end TreeMigration
