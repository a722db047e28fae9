import TreeMigration.Declaration.Index
import TreeMigration.Substitution

/-!
Applying a list of rules to lines. How a rule matches is settled once, against the finished index,
so that what a line becomes depends on the line alone; the editor only keeps count.

A `PlannedRule` is a rule with the declaration it renames, if there is one. `editLine` applies the
planned rules in order, each to the output of the one before, and gives with the line the number of
replacements each of them made. An `Editor` carries the plan and one `Tally` for each rule, and the
type says that there are as many of the one as of the other.

What a whole list of rules does to a line is `Rule.chain`, without any counting: `editLine_ofRules`
says that it is the text of the edited line, and `editLine_append` that a plan may be divided
anywhere. Most statements about editing are proved about the chain and carried over by these two.
-/
namespace TreeMigration

/-- A rule with the declaration it renames, if it renames one. -/
structure PlannedRule where
  rule : Rule
  declared : Option Declaration
  deriving DecidableEq, Repr

namespace PlannedRule

/-- A rule that renames a declaration matches whole identifiers, any other plain text. -/
def matching (planned : PlannedRule) : Matching :=
  if planned.declared.isSome then .wholeIdentifier else .literal

/-- Plans a rule. Only if asked to look at declarations does it rename one, and then only if its
pattern is a bare identifier that the index holds. -/
def ofRule (index : Index) (declarationAware : Bool) (rule : Rule) : PlannedRule :=
  ⟨rule, if declarationAware && rule.pattern.isIdentifier then index.find? rule.pattern else none⟩

def apply (planned : PlannedRule) (line : Text) : Edit := planned.rule.apply planned.matching line

end PlannedRule

/-- What a line becomes under some rules, with the number of replacements that each one made. -/
def editLine : List PlannedRule → Text → Text × List Nat
  | [], line => (line, [])
  | planned :: later, line =>
    let edit := planned.apply line
    let rest := editLine later edit.text
    (rest.1, edit.count :: rest.2)

theorem length_editLine_counts (plan : List PlannedRule) (line : Text) :
    (editLine plan line).2.length = plan.length := by
  induction plan generalizing line with
  | nil => rfl
  | cons planned later ih => simp [editLine, ih]

/-- A line after some rules, each applied to the output of the one before. -/
def Rule.chain (matching : Rule → Matching) (rules : List Rule) (line : Text) : Text :=
  rules.foldl (fun text rule => (rule.apply (matching rule) text).text) line

theorem editLine_ofRules (index : Index) (aware : Bool) (rules : List Rule) (line : Text) :
    (editLine (rules.map (PlannedRule.ofRule index aware)) line).1 =
      Rule.chain (fun rule => (PlannedRule.ofRule index aware rule).matching) rules line := by
  induction rules generalizing line with
  | nil => rfl
  | cons rule later ih =>
    rw [List.map_cons, editLine, ih]
    rfl

/-- The rules of a second plan get what the first plan left, and are counted behind those of it. -/
theorem editLine_append (plan others : List PlannedRule) (line : Text) :
    editLine (plan ++ others) line =
      ((editLine others (editLine plan line).1).1,
        (editLine plan line).2 ++ (editLine others (editLine plan line).1).2) := by
  induction plan generalizing line with
  | nil => rfl
  | cons planned later ih =>
    rw [List.cons_append, editLine, ih]
    rfl

/-- How much a rule has done: the lines it changed and the occurrences it replaced. -/
structure Tally where
  applications : Nat
  replacements : Nat
  deriving DecidableEq, Repr

namespace Tally

def zero : Tally := ⟨0, 0⟩

/-- Counts one more line, on which so many occurrences were replaced. -/
def add (tally : Tally) (replaced : Nat) : Tally :=
  if replaced = 0 then tally else ⟨tally.applications + 1, tally.replacements + replaced⟩

end Tally

/-- A finished index, the rules planned against it and what each of them has done so far. -/
structure Editor where
  index : Index
  plan : List PlannedRule
  tallies : List Tally
  aligned : tallies.length = plan.length

structure RuleStatistics where
  pattern : Text
  matching : Matching
  tally : Tally
  declaration : Option DeclarationKind
  deriving DecidableEq, Repr

def RuleStatistics.isUnused (statistics : RuleStatistics) : Bool :=
  statistics.tally.applications == 0

namespace Editor

def ofRules (index : Index) (rules : List Rule) (declarationAware : Bool) : Editor :=
  let plan := rules.map (PlannedRule.ofRule index declarationAware)
  ⟨index, plan, plan.map fun _ => .zero, by simp⟩

def editLine (editor : Editor) (line : Text) : Editor × Text :=
  let edited := TreeMigration.editLine editor.plan line
  ({ editor with
      tallies := editor.tallies.zipWith Tally.add edited.2
      aligned := by simp [edited, length_editLine_counts, editor.aligned] },
    edited.1)

def editLines (editor : Editor) : List Text → Editor × List Text
  | [] => (editor, [])
  | line :: later =>
    let edited := editor.editLine line
    let rest := edited.1.editLines later
    (rest.1, edited.2 :: rest.2)

/-- What each rule has done, in rule order. The declaration that a rule renames is told only once
the rule has renamed something. -/
def statistics (editor : Editor) : List RuleStatistics :=
  editor.plan.zipWith (fun planned tally =>
    ⟨planned.rule.pattern, planned.matching, tally,
      if tally.applications = 0 then none else planned.declared.map Declaration.kind⟩)
    editor.tallies

end Editor

end TreeMigration
