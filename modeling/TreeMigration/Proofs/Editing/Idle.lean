import TreeMigration.Proofs.Editing.Unused

/-!
Editors none of whose rules has changed anything. Counts only grow, so an editor that is idle in the
end has been idle throughout, and every line it edited came out as it went in.

`Editor.Idle` is a statement about the tallies and `editLine_of_silent` one about lines; the link
between them is that a tally which stays at zero has counted nothing on any line. The lemmas on the
rules that may be left out already say so for some of the rules, and here all of them are left out
(`keptAt_none`).

A run is recognised as idle by what it tells: all its rules are reported as unused
(`idle_of_statistics`).
-/
namespace TreeMigration

theorem keptAt_none {α : Type} (items : List α) : keptAt (fun _ => false) items = [] := by
  induction items with
  | nil => rfl
  | cons item later ih => exact ih

/-- A line on which no rule replaces anything stays as it is. -/
theorem editLine_of_silent {plan : List PlannedRule} {line : Text}
    (silent : Silent (fun _ => false) (editLine plan line).2) : (editLine plan line).1 = line := by
  have kept := editLine_keptAt silent
  rw [keptAt_none] at kept
  exact (congrArg Prod.fst kept).symm

namespace Editor

/-- No rule has changed a line so far. -/
def Idle (editor : Editor) : Prop := ∀ tally ∈ editor.tallies, tally.applications = 0

/-- An editor is idle if all its rules are told to be unused. -/
theorem idle_of_statistics {editor : Editor}
    (unused : ∀ statistics ∈ editor.statistics, statistics.isUnused = true) : editor.Idle := by
  intro tally listed
  obtain ⟨i, here⟩ := List.mem_iff_getElem?.mp listed
  obtain ⟨statistics, told, rfl⟩ := editor.exists_statistics here
  simpa [RuleStatistics.isUnused] using unused statistics (List.mem_of_getElem? told)

/-- An editor that is idle after some lines was so before them and has left them as they were. -/
theorem Idle.of_editLines {editor : Editor} {lines : List Text}
    (idle : (editor.editLines lines).1.Idle) :
    editor.Idle ∧ editedLines editor.plan lines = lines := by
  have counted := (editor.editLines_spec lines).2.2.2
  constructor
  · intro tally listed
    obtain ⟨i, here⟩ := List.mem_iff_getElem?.mp listed
    have inPlan : i < editor.plan.length := by
      rw [← editor.aligned]
      exact (List.getElem?_eq_some_iff.mp here).1
    have total := Tally.getElem?_addLines inPlan here lines
    rw [← counted] at total
    have none := idle _ (List.mem_of_getElem? total)
    have grown := (Tally.le_foldl_add
      (fun line => (TreeMigration.editLine editor.plan line).2[i]?.getD 0) lines tally).2
    omega
  · refine (List.map_congr_left fun line listed => ?_).trans (List.map_id lines)
    refine editLine_of_silent (Tally.silent_of_addLines editor.aligned ?_ line listed)
    intro i tally _ here
    rw [← counted] at here
    exact idle tally (List.mem_of_getElem? here)

end Editor

end TreeMigration
