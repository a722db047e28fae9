import TreeMigration.Proofs.Declaration.FirstWins
import TreeMigration.Proofs.Editing.Tallies

/-!
The order of the files does not count. What becomes of a line depends on how the rules match, which
depends on the names known alone, and counts add up to the same in any order; only what is told of a
name declared more than once depends on where it was found first.

`editCorpus` is both passes over files that are given by their lines, without a file system: all are
indexed, then all are edited in the same order. `editCorpus_spec` takes it apart into the index, the
outputs and the counts, and each is compared for two orders by itself. Plans made against indexes
that know the same names are `Alike`, which is all that an edited line depends on
(`editLine_congr`). The counts are added up by an operation that commutes from line to line
(`zipWith_add_right_comm`), so a permutation of the lines leaves the sum (`addLines_perm`).

`RuleStatistics.SameUse` says what is left to differ: the kind of declaration told of a rule, where
the name has been declared several times.
-/
namespace TreeMigration

/-- A rule planned alike: it has the same text and matches in the same way. -/
def PlannedRule.Alike (planned other : PlannedRule) : Prop :=
  planned.rule = other.rule ∧ planned.matching = other.matching

theorem editLine_congr {plan others : List PlannedRule}
    (alike : List.Forall₂ PlannedRule.Alike plan others) (line : Text) :
    editLine plan line = editLine others line := by
  induction alike generalizing line with
  | nil => rfl
  | cons same _ ih =>
    rw [editLine, editLine, PlannedRule.apply, PlannedRule.apply, same.1, same.2, ih]

theorem editedLines_congr {plan others : List PlannedRule}
    (alike : List.Forall₂ PlannedRule.Alike plan others) (lines : List Text) :
    editedLines plan lines = editedLines others lines :=
  List.map_congr_left fun line _ => congrArg Prod.fst (editLine_congr alike line)

theorem Tally.addLines_congr {plan others : List PlannedRule}
    (alike : List.Forall₂ PlannedRule.Alike plan others) (tallies : List Tally)
    (lines : List Text) : addLines plan tallies lines = addLines others tallies lines := by
  unfold addLines
  simp only [editLine_congr alike]

/-- Rules planned against indexes that know the same names are planned alike. -/
theorem PlannedRule.alike_ofRule {index other : Index}
    (known : ∀ name, index.contains name = other.contains name) (aware : Bool) (rule : Rule) :
    Alike (ofRule index aware rule) (ofRule other aware rule) := by
  refine ⟨rfl, ?_⟩
  have same := known rule.pattern
  unfold Index.contains at same
  unfold matching ofRule
  dsimp only
  split
  · rw [same]
  · rfl

namespace Tally

/-- Which of two lines is counted first makes no difference. -/
theorem add_right_comm (tally : Tally) (replaced other : Nat) :
    (tally.add replaced).add other = (tally.add other).add replaced := by
  by_cases none : replaced = 0 <;> by_cases none' : other = 0 <;>
    simp [add, none, none', Nat.add_right_comm]

theorem zipWith_add_right_comm (tallies : List Tally) (counts others : List Nat) :
    (tallies.zipWith add counts).zipWith add others =
      (tallies.zipWith add others).zipWith add counts := by
  induction tallies generalizing counts others with
  | nil => rfl
  | cons tally later ih =>
    cases counts with
    | nil => cases others <;> rfl
    | cons replaced counts =>
      cases others with
      | nil => rfl
      | cons other others =>
        simp only [List.zipWith_cons_cons, add_right_comm tally replaced other, ih counts others]

theorem addLines_perm (plan : List PlannedRule) (tallies : List Tally) {lines others : List Text}
    (reordered : lines.Perm others) :
    addLines plan tallies lines = addLines plan tallies others :=
  reordered.foldl_eq' (fun _ _ _ _ _ => zipWith_add_right_comm _ _ _) tallies

end Tally

namespace Editor

/-- Edits files one after the other, each given by its lines. -/
def editFiles (editor : Editor) : List (List Text) → Editor × List (List Text)
  | [] => (editor, [])
  | lines :: later =>
    let edited := editor.editLines lines
    let rest := edited.1.editFiles later
    (rest.1, edited.2 :: rest.2)

/-- Editing files leaves the editor that has seen all of them, and makes of each what the plan makes
of its lines. -/
theorem editFiles_spec (editor : Editor) (texts : List (List Text)) :
    (editor.editFiles texts).1 = editor.afterFiles texts ∧
      (editor.editFiles texts).2 = texts.map (editedLines editor.plan) := by
  induction texts generalizing editor with
  | nil => exact ⟨rfl, rfl⟩
  | cons lines later ih =>
    obtain ⟨text, -, plan, -⟩ := editor.editLines_spec lines
    obtain ⟨after, rest⟩ := ih (editor.editLines lines).1
    refine ⟨after, ?_⟩
    rw [editFiles, rest, text, plan]
    rfl

end Editor

/-- Both passes over some files: all of them are indexed, and then edited in the same order with the
rules planned against that index. -/
def editCorpus (rules : List Rule) (aware : Bool) (corpus : List SourceText) :
    Editor × List (List Text) :=
  (Editor.ofRules (Indexing.ofFiles corpus).index rules aware).editFiles (corpus.map Prod.snd)

/-- The index that both passes work with, the output of every file and the counts in the end. -/
theorem editCorpus_spec (rules : List Rule) (aware : Bool) (corpus : List SourceText) :
    let plan := rules.map (PlannedRule.ofRule (Indexing.ofFiles corpus).index aware)
    (editCorpus rules aware corpus).1.index = (Indexing.ofFiles corpus).index ∧
    (editCorpus rules aware corpus).1.plan = plan ∧
    (editCorpus rules aware corpus).2 = corpus.map (fun file => editedLines plan file.2) ∧
    (editCorpus rules aware corpus).1.tallies =
      Tally.addLines plan (rules.map fun _ => .zero) (corpus.flatMap Prod.snd) := by
  obtain ⟨after, text⟩ := Editor.editFiles_spec
    (Editor.ofRules (Indexing.ofFiles corpus).index rules aware) (corpus.map Prod.snd)
  obtain ⟨index, plan, tallies⟩ := Editor.afterFiles_spec
    (Editor.ofRules (Indexing.ofFiles corpus).index rules aware) (corpus.map Prod.snd)
  rw [← after] at index plan tallies
  refine ⟨index, plan, ?_, ?_⟩
  · rw [editCorpus, text, List.map_map]
    rfl
  · rw [editCorpus, tallies, List.flatMap]
    simp [Editor.ofRules, Function.comp_def]

/-- What is told of a rule is the same, except perhaps the kind of a name declared repeatedly. -/
structure RuleStatistics.SameUse (declarations : List Declaration)
    (statistics other : RuleStatistics) : Prop where
  pattern : statistics.pattern = other.pattern
  matching : statistics.matching = other.matching
  tally : statistics.tally = other.tally
  declaration : ¬ statistics.pattern.RepeatedIn declarations →
    statistics.declaration = other.declaration

/-- What is told of a planned rule that has done so much. -/
def PlannedRule.told (planned : PlannedRule) (tally : Tally) : RuleStatistics :=
  ⟨planned.rule.pattern, planned.matching, tally,
    if tally.applications = 0 then none else planned.declared.map Declaration.kind⟩

theorem Editor.statistics_eq (editor : Editor) :
    editor.statistics = editor.plan.zipWith PlannedRule.told editor.tallies := rfl

theorem PlannedRule.sameUse_told {index other : Index} {declarations : List Declaration}
    (known : ∀ name, index.contains name = other.contains name)
    (found : ∀ name : Text, ¬ name.RepeatedIn declarations → index.find? name = other.find? name)
    (aware : Bool) (rules : List Rule) (tallies : List Tally) :
    List.Forall₂ (RuleStatistics.SameUse declarations)
      ((rules.map (ofRule index aware)).zipWith told tallies)
      ((rules.map (ofRule other aware)).zipWith told tallies) := by
  induction rules generalizing tallies with
  | nil => exact .nil
  | cons rule later ih =>
    cases tallies with
    | nil => exact .nil
    | cons tally tallies =>
      refine .cons ⟨rfl, (alike_ofRule known aware rule).2, rfl, ?_⟩ (ih tallies)
      intro once
      have same : (ofRule index aware rule).declared = (ofRule other aware rule).declared := by
        simp only [ofRule, found rule.pattern once]
      simp only [told, same]

/-- Neither the output of a file nor the use made of a rule depends on the order of the files, and
the index knows the same names and counts the same. -/
theorem editCorpus_perm {corpus other : List SourceText} (reordered : corpus.Perm other)
    (rules : List Rule) (aware : Bool) :
    (editCorpus rules aware corpus).2.length = corpus.length ∧
    (∀ i j : Nat, corpus[i]? = other[j]? →
      (editCorpus rules aware corpus).2[i]? = (editCorpus rules aware other).2[j]?) ∧
    List.Forall₂ (RuleStatistics.SameUse (Declaration.inFiles corpus))
      (editCorpus rules aware corpus).1.statistics (editCorpus rules aware other).1.statistics ∧
    (∀ name, (editCorpus rules aware corpus).1.index.contains name =
      (editCorpus rules aware other).1.index.contains name) ∧
    (editCorpus rules aware corpus).1.index.size = (editCorpus rules aware other).1.index.size ∧
    (editCorpus rules aware corpus).1.index.redeclarations =
      (editCorpus rules aware other).1.index.redeclarations ∧
    ∀ name : Text, ¬ name.RepeatedIn (Declaration.inFiles corpus) →
      (editCorpus rules aware corpus).1.index.find? name =
        (editCorpus rules aware other).1.index.find? name := by
  have declarations : (Declaration.inFiles corpus).Perm (Declaration.inFiles other) :=
    reordered.flatMap_right _
  obtain ⟨known, sizes, repeated, found⟩ := Index.ofDeclarations_perm declarations
  rw [← Indexing.index_ofFiles, ← Indexing.index_ofFiles] at known sizes repeated found
  have alike : List.Forall₂ PlannedRule.Alike
      (rules.map (PlannedRule.ofRule (Indexing.ofFiles corpus).index aware))
      (rules.map (PlannedRule.ofRule (Indexing.ofFiles other).index aware)) := by
    rw [List.forall₂_map_left_iff, List.forall₂_map_right_iff, List.forall₂_same]
    exact fun rule _ => PlannedRule.alike_ofRule known aware rule
  obtain ⟨index, plan, outputs, tallies⟩ := editCorpus_spec rules aware corpus
  obtain ⟨index', plan', outputs', tallies'⟩ := editCorpus_spec rules aware other
  rw [index, index']
  refine ⟨?_, ?_, ?_, known, sizes, repeated, found⟩
  · rw [outputs, List.length_map]
  · intro i j same
    simp only [outputs, outputs', editedLines_congr alike, List.getElem?_map, same]
  · have lines : (corpus.flatMap Prod.snd).Perm (other.flatMap Prod.snd) :=
      reordered.flatMap_right _
    rw [Editor.statistics_eq, Editor.statistics_eq, plan, plan', tallies, tallies',
      ← Tally.addLines_congr alike, ← Tally.addLines_perm _ _ lines]
    exact PlannedRule.sameUse_told known found aware rules _

namespace Redeclared

/-- Two files that declare one name, as a class and as a function. -/
def corpus : List SourceText :=
  [(⟨"a.kt"⟩, ["class Old", "Older(Old)"]), (⟨"b.kt"⟩, ["fun Old() = Old"])]

def rules : List Rule := [⟨"Old", "New", .first⟩]

end Redeclared

/-- The later file decides the kind when it comes first, and nothing else. -/
theorem editCorpus_perm_redeclared :
    Redeclared.corpus.Perm Redeclared.corpus.reverse ∧
    (editCorpus Redeclared.rules true Redeclared.corpus).2[0]? =
      (editCorpus Redeclared.rules true Redeclared.corpus.reverse).2[1]? ∧
    (editCorpus Redeclared.rules true Redeclared.corpus.reverse).2[1]? =
      some (["class New", "Older(New)"] : List Text) ∧
    (editCorpus Redeclared.rules true Redeclared.corpus).1.statistics =
      [⟨"Old", .wholeIdentifier, ⟨3, 3⟩, some .plainClass⟩] ∧
    (editCorpus Redeclared.rules true Redeclared.corpus.reverse).1.statistics =
      [⟨"Old", .wholeIdentifier, ⟨3, 3⟩, some .function⟩] := by
  have reordered : Redeclared.corpus.Perm Redeclared.corpus.reverse :=
    (List.reverse_perm _).symm
  have order := editCorpus_perm reordered Redeclared.rules true
  exact ⟨reordered, order.2.1 0 1 rfl, by decide +kernel, by decide +kernel, by decide +kernel⟩

end TreeMigration
