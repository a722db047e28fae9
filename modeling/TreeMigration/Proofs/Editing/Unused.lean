import TreeMigration.Proofs.Editing.Order
import TreeMigration.Proofs.Substitution.Restoring

/-!
Rules that changed no line. Such a rule hands every line on as it got it, so the rules after it see
the same lines without it; leaving out any number of them changes neither the output nor what is
told of the others. The inductions are on the rules for one line and on the lines for the counts.

Which rules stay is given by a list of truth values, and `keptAt` picks the items at their positions
from any list, from the rules as from their counts and statistics. It commutes with everything that
is done position by position.

`Silent` is the condition on one line: the rules left out replace nothing there. That it holds on
every line follows from the tallies (`silent_of_addLines`), since a count above zero on some line
would show in the end. A rule can be silent because an earlier rule has taken away what it looks
for, so being unused is a fact about the list of rules and not about the rule.
-/
namespace TreeMigration

variable {α β γ : Type}

/-- The items at the positions that are kept. -/
def keptAt (keep : Nat → Bool) : List α → List α
  | [] => []
  | item :: later =>
    let rest := keptAt (fun i => keep (i + 1)) later
    if keep 0 then item :: rest else rest

theorem keptAt_map (keep : Nat → Bool) (f : α → β) (items : List α) :
    keptAt keep (items.map f) = (keptAt keep items).map f := by
  induction items generalizing keep with
  | nil => rfl
  | cons item later ih =>
    rw [List.map_cons, keptAt, keptAt, ih]
    split <;> rfl

theorem keptAt_zipWith (keep : Nat → Bool) (f : α → β → γ) (items : List α) (others : List β) :
    keptAt keep (items.zipWith f others) = (keptAt keep items).zipWith f (keptAt keep others) := by
  induction items generalizing keep others with
  | nil => rfl
  | cons item later ih =>
    cases others with
    | nil => simp [keptAt]
    | cons other rest =>
      rw [List.zipWith_cons_cons, keptAt, keptAt, keptAt, ih]
      split <;> rfl

/-- The rules left out replace nothing on the line. -/
def Silent (keep : Nat → Bool) (counts : List Nat) : Prop :=
  ∀ (i : Nat) count, keep i = false → counts[i]? = some count → count = 0

/-- Rules that replace nothing on a line can be left out for it. -/
theorem editLine_keptAt {keep : Nat → Bool} {plan : List PlannedRule} {line : Text}
    (silent : Silent keep (editLine plan line).2) :
    editLine (keptAt keep plan) line =
      ((editLine plan line).1, keptAt keep (editLine plan line).2) := by
  induction plan generalizing keep line with
  | nil => rfl
  | cons planned later ih =>
    have rest := @ih (fun i => keep (i + 1)) (planned.apply line).text
      fun i count dropped counted => silent (i + 1) count dropped counted
    rw [keptAt, editLine, keptAt]
    split
    · rw [editLine, rest]
    · rename_i dropped
      have nothing : (planned.apply line).count = 0 := silent 0 _ (by simpa using dropped) rfl
      have unchanged : (planned.apply line).text = line := substitute_of_count_eq_zero nothing
      rwa [unchanged] at rest ⊢

namespace Tally

/-- The tally at one position adds up what the rule there does on the lines. -/
theorem getElem?_addLines {plan : List PlannedRule} {tallies : List Tally} {tally : Tally} {i : Nat}
    (counted : i < plan.length) (here : tallies[i]? = some tally) (lines : List Text) :
    (addLines plan tallies lines)[i]? =
      some (lines.foldl (fun tally line => tally.add ((editLine plan line).2[i]?.getD 0)) tally) := by
  induction lines generalizing tallies tally with
  | nil => exact here
  | cons line later ih =>
    refine ih ?_
    have inCounts : i < (editLine plan line).2.length := by rwa [length_editLine_counts]
    simp [List.getElem?_zipWith, here, List.getElem?_eq_getElem inCounts]

/-- A rule whose tally says that it changed no line has replaced nothing on any of them. -/
theorem silent_of_addLines {keep : Nat → Bool} {plan : List PlannedRule} {tallies : List Tally}
    {lines : List Text} (aligned : tallies.length = plan.length)
    (unused : ∀ (i : Nat) tally, keep i = false → (addLines plan tallies lines)[i]? = some tally →
      tally.applications = 0) :
    ∀ line ∈ lines, Silent keep (editLine plan line).2 := by
  intro line listed i count dropped found
  have inCounts := (List.getElem?_eq_some_iff.mp found).1
  have inPlan : i < plan.length := by rwa [length_editLine_counts] at inCounts
  have total := getElem?_addLines inPlan
    (List.getElem?_eq_getElem (by omega : i < tallies.length)) lines
  have none := unused i _ dropped total
  apply Nat.eq_zero_of_not_pos
  intro changed
  have shown := (@foldl_add_pos (fun line => (editLine plan line).2[i]?.getD 0) lines line listed
    (by simpa [found] using changed) tallies[i]).2
  omega

/-- The other rules are counted as before. -/
theorem addLines_keptAt {keep : Nat → Bool} {plan : List PlannedRule} {lines : List Text}
    (silent : ∀ line ∈ lines, Silent keep (editLine plan line).2) (tallies : List Tally) :
    addLines (keptAt keep plan) (keptAt keep tallies) lines =
      keptAt keep (addLines plan tallies lines) := by
  induction lines generalizing tallies with
  | nil => rfl
  | cons line later ih =>
    have rest := ih (fun other listed => silent other (List.mem_cons_of_mem _ listed))
      (tallies.zipWith add (editLine plan line).2)
    rw [keptAt_zipWith] at rest
    rw [addLines, List.foldl_cons, editLine_keptAt (silent line List.mem_cons_self)]
    exact rest

end Tally

/-- Of every rule that is counted something is told. -/
theorem Editor.exists_statistics (editor : Editor) {i : Nat} {tally : Tally}
    (here : editor.tallies[i]? = some tally) :
    ∃ statistics, editor.statistics[i]? = some statistics ∧ statistics.tally = tally := by
  have inPlan : i < editor.plan.length := by
    have inTallies := (List.getElem?_eq_some_iff.mp here).1
    rwa [editor.aligned] at inTallies
  refine ⟨PlannedRule.told editor.plan[i] tally, ?_, rfl⟩
  rw [editor.statistics_eq, List.getElem?_zipWith, here, List.getElem?_eq_getElem inPlan]

/-- Rules reported as unused are dead: without any of them both passes give the same output, plan
the other rules alike and tell the same of them. -/
theorem editCorpus_keptAt {keep : Nat → Bool} {rules : List Rule} {aware : Bool}
    {corpus : List SourceText}
    (unused : ∀ (i : Nat) statistics, keep i = false →
      (editCorpus rules aware corpus).1.statistics[i]? = some statistics →
        statistics.isUnused = true) :
    (editCorpus (keptAt keep rules) aware corpus).2 = (editCorpus rules aware corpus).2 ∧
    (editCorpus (keptAt keep rules) aware corpus).1.statistics =
      keptAt keep (editCorpus rules aware corpus).1.statistics ∧
    (editCorpus (keptAt keep rules) aware corpus).1.plan =
      keptAt keep (editCorpus rules aware corpus).1.plan ∧
    (editCorpus (keptAt keep rules) aware corpus).1.index =
      (editCorpus rules aware corpus).1.index := by
  obtain ⟨index, plan, outputs, tallies⟩ := editCorpus_spec rules aware corpus
  obtain ⟨index', plan', outputs', tallies'⟩ := editCorpus_spec (keptAt keep rules) aware corpus
  rw [← keptAt_map] at plan' outputs' tallies'
  rw [← keptAt_map] at tallies'
  have silent : ∀ line ∈ corpus.flatMap Prod.snd, Silent keep
      (editLine (rules.map (PlannedRule.ofRule (Indexing.ofFiles corpus).index aware)) line).2 := by
    refine @Tally.silent_of_addLines keep _ (rules.map fun _ => .zero) _ (by simp) ?_
    intro i tally dropped here
    rw [← tallies] at here
    obtain ⟨statistics, told, same⟩ := (editCorpus rules aware corpus).1.exists_statistics here
    exact same ▸ by simpa [RuleStatistics.isUnused] using unused i statistics dropped told
  refine ⟨?_, ?_, ?_, index'.trans index.symm⟩
  · rw [outputs, outputs']
    refine List.map_congr_left fun file listed => List.map_congr_left fun line inside => ?_
    rw [editLine_keptAt (silent line (List.mem_flatMap.mpr ⟨file, listed, inside⟩))]
  · rw [Editor.statistics_eq, Editor.statistics_eq, plan, plan', tallies, tallies', keptAt_zipWith,
      Tally.addLines_keptAt silent]
  · rw [plan, plan']

namespace Shadowed

def corpus : List SourceText := [(⟨"x.kt"⟩, ["fun old() = a", "old(b)"])]

/-- The second rule would rename what the first one already has; it is planned like it. -/
def rules : List Rule := [⟨"old", "new", .all⟩, ⟨"old", "other", .all⟩, ⟨"b", "c", .first⟩]

def keep (i : Nat) : Bool := i != 1

end Shadowed

/-- The second rule finds nothing left to rename, so the other two do the same without it. -/
theorem editCorpus_keptAt_shadowed :
    (editCorpus Shadowed.rules true Shadowed.corpus).1.statistics =
      [⟨"old", .wholeIdentifier, ⟨2, 2⟩, some .function⟩, ⟨"old", .wholeIdentifier, ⟨0, 0⟩, none⟩,
        ⟨"b", .literal, ⟨1, 1⟩, none⟩] ∧
    keptAt Shadowed.keep Shadowed.rules = [⟨"old", "new", .all⟩, ⟨"b", "c", .first⟩] ∧
    (editCorpus [⟨"old", "new", .all⟩, ⟨"b", "c", .first⟩] true Shadowed.corpus).2 =
      (editCorpus Shadowed.rules true Shadowed.corpus).2 ∧
    (editCorpus [⟨"old", "new", .all⟩, ⟨"b", "c", .first⟩] true Shadowed.corpus).1.statistics =
      [⟨"old", .wholeIdentifier, ⟨2, 2⟩, some .function⟩, ⟨"b", .literal, ⟨1, 1⟩, none⟩] := by
  have told : (editCorpus Shadowed.rules true Shadowed.corpus).1.statistics =
      [⟨"old", .wholeIdentifier, ⟨2, 2⟩, some .function⟩, ⟨"old", .wholeIdentifier, ⟨0, 0⟩, none⟩,
        ⟨"b", .literal, ⟨1, 1⟩, none⟩] := by decide +kernel
  have dead := @editCorpus_keptAt Shadowed.keep Shadowed.rules true Shadowed.corpus (by
    intro i statistics dropped here
    obtain rfl : i = 1 := by simpa [Shadowed.keep] using dropped
    rw [told] at here
    cases here
    rfl)
  refine ⟨told, rfl, dead.1, dead.2.1.trans ?_⟩
  rw [told]
  rfl

end TreeMigration
