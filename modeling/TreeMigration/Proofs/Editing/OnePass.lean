import TreeMigration.Proofs.Declaration.Renaming
import TreeMigration.Proofs.Editing.Order

/-!
Editing as a pass that looks up and tells as it goes. Each rule asks the index for the declaration
it was planned to rename, is applied, and has its statistics brought up to date before the next rule
is tried; a declaration that is not there stops the pass. An editor whose rules were planned against
its own index does the same to a line, and is never stopped.

`editInOnePass` is the pass in its own words: it can fail, it mixes the looking up with the
replacing, and it changes the statistics in place. The editor does none of this, and
`editInOnePass_eq` says that the two agree, by induction over the rules.

What makes the lookup safe is `PlannedRule.Settled`: a planned rule renames what the index has under
its pattern, or nothing. It holds of every rule when the plan is made (`settled_ofRules`), and since
neither the plan nor the index changes afterwards it holds throughout.
-/
namespace TreeMigration

/-- A rule planned to rename a declaration that the index does not have. -/
structure MissingDeclaration where
  name : Text
  rule : Nat
  deriving DecidableEq, Repr

/-- The declaration in the index that a rule renames, if it was planned to rename one; the rule has
the given number. -/
def PlannedRule.lookUp (index : Index) (number : Nat) (planned : PlannedRule) :
    Except MissingDeclaration (Option Declaration) :=
  match planned.matching with
  | .literal => .ok none
  | .wholeIdentifier =>
    match index.find? planned.rule.pattern with
    | none => .error ⟨planned.rule.pattern, number⟩
    | some declaration => .ok (some declaration)

/-- Brings up to date what is told of a rule that has replaced so much on one more line. -/
def RuleStatistics.update (statistics : RuleStatistics) (renamed : Option Declaration)
    (replaced : Nat) : RuleStatistics :=
  if replaced = 0 then statistics
  else { statistics with
    tally := ⟨statistics.tally.applications + 1, statistics.tally.replacements + replaced⟩
    declaration := (renamed.map Declaration.kind).or statistics.declaration }

/-- Edits a line and tells of the rules in one pass over them, the first having the given number. -/
def editInOnePass (index : Index) :
    Nat → List PlannedRule → List RuleStatistics → Text →
      Except MissingDeclaration (Text × List RuleStatistics)
  | number, planned :: later, statistics :: others, line => do
    let renamed ← planned.lookUp index number
    let edit := planned.apply line
    let rest ← editInOnePass index (number + 1) later others edit.text
    .ok (rest.1, statistics.update renamed edit.count :: rest.2)
  | _, _, _, line => .ok (line, [])

namespace PlannedRule

/-- The rule renames what the index has under its pattern, if it renames anything. -/
def Settled (index : Index) (planned : PlannedRule) : Prop :=
  planned.matching = .wholeIdentifier → planned.declared = index.find? planned.rule.pattern

theorem matching_eq_iff {planned : PlannedRule} :
    planned.matching = .wholeIdentifier ↔ planned.declared.isSome = true := by
  unfold matching
  split <;> simp_all

theorem settled_ofRule (index : Index) (aware : Bool) (rule : Rule) :
    (ofRule index aware rule).Settled index :=
  declared_ofRule

/-- A settled rule finds what it renames. -/
theorem Settled.lookUp {index : Index} {planned : PlannedRule} (settled : planned.Settled index)
    (number : Nat) : planned.lookUp index number = .ok planned.declared := by
  unfold PlannedRule.lookUp
  cases matching : planned.matching with
  | literal =>
    have none : planned.declared.isSome = false := by
      rw [← Bool.not_eq_true, ← matching_eq_iff, matching]
      nofun
    rw [Option.isSome_eq_false_iff, Option.isNone_iff_eq_none] at none
    rw [none]
  | wholeIdentifier =>
    obtain ⟨declaration, found⟩ := Option.isSome_iff_exists.mp (matching_eq_iff.mp matching)
    rw [← settled matching, found]

/-- What is told of a rule is brought up to date by counting one more line. -/
theorem update_told (planned : PlannedRule) (tally : Tally) (replaced : Nat) :
    (planned.told tally).update planned.declared replaced =
      planned.told (tally.add replaced) := by
  by_cases none : replaced = 0
  · simp [RuleStatistics.update, Tally.add, none]
  · cases declared : planned.declared with
    | none => simp [RuleStatistics.update, told, Tally.add, none, declared]
    | some declaration => simp [RuleStatistics.update, told, Tally.add, none, declared]

end PlannedRule

/-- The pass over settled rules is never stopped. It makes of the line what the rules make of it and
tells of them what their counts on the line add. -/
theorem editInOnePass_eq {index : Index} {plan : List PlannedRule}
    (settled : ∀ planned ∈ plan, planned.Settled index) {tallies : List Tally}
    (aligned : tallies.length = plan.length) (number : Nat) (line : Text) :
    editInOnePass index number plan (plan.zipWith PlannedRule.told tallies) line =
      .ok ((editLine plan line).1,
        plan.zipWith PlannedRule.told (tallies.zipWith Tally.add (editLine plan line).2)) := by
  induction plan generalizing tallies number line with
  | nil => rfl
  | cons planned later ih =>
    cases tallies with
    | nil => cases aligned
    | cons tally others =>
      have rest := ih (fun other listed => settled other (List.mem_cons_of_mem _ listed))
        (Nat.succ.inj aligned) (number + 1) (planned.apply line).text
      have found := (settled planned List.mem_cons_self).lookUp number
      rw [List.zipWith_cons_cons, editInOnePass, found]
      simp only [bind, Except.bind, rest]
      rw [PlannedRule.update_told]
      rfl

/-- Every rule of the editor is settled by the editor's own index. -/
def Editor.Settled (editor : Editor) : Prop :=
  ∀ planned ∈ editor.plan, planned.Settled editor.index

namespace Editor

theorem settled_ofRules (index : Index) (rules : List Rule) (aware : Bool) :
    (ofRules index rules aware).Settled := by
  intro planned listed
  obtain ⟨rule, -, rfl⟩ := List.mem_map.mp listed
  exact PlannedRule.settled_ofRule index aware rule

theorem Settled.editInOnePass {editor : Editor} (settled : editor.Settled) (line : Text) :
    editInOnePass editor.index 1 editor.plan editor.statistics line =
      .ok ((editor.editLine line).2, (editor.editLine line).1.statistics) :=
  editInOnePass_eq settled editor.aligned 1 line

end Editor

/-- Without the declaration it was planned to rename, a rule stops the pass. -/
example : editInOnePass .empty 1 [⟨⟨"a", "b", .all⟩, some ⟨"a", .function, ⟨"x.kt"⟩, 1⟩⟩]
    [⟨"a", .wholeIdentifier, .zero, none⟩] "a" = .error ⟨"a", 1⟩ := rfl

end TreeMigration
