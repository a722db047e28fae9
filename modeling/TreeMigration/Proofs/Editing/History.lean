import TreeMigration.Proofs.Editing.OnePass
import TreeMigration.Proofs.Editing.Unused
import Mathlib.Algebra.GroupWithZero.Nat

/-!
An editor has no memory but its counts. Whatever it was asked for before, it answers like a new
editor, and what it tells of a rule adds up the replacements of that rule on the single lines; so
neither the order of the requests nor the way the lines were divided among them can be told from it.

A request is a line or the lines of a file. `answerAll_spec` is the run over any number of them: the
index and the plan stay, the tallies have added the counts of all lines, and every answer is what
the plan makes of the lines. From there on the requests are only a list of lines, and
`addLines_perm` makes the order of that list immaterial.

What is told of a rule is described without the editor. The rule at a position sees each line as the
rules before it have left it (`PlannedRule.countBehind`), and `RuleStatistics.AddsUp` says that
occurrences are the sum of these counts and applications the number of those above zero.
`Tally.Consistent` is the invariant between the two: neither is zero without the other, and there
are no fewer replacements than lines.
-/
namespace TreeMigration

/-- What an editor can be asked for: a single line, or the lines of a file. -/
inductive EditRequest where
  | line (t : Text)
  | file (lines : List Text)
  deriving DecidableEq, Repr

def EditRequest.lines : EditRequest → List Text
  | .line t => [t]
  | .file lines => lines

namespace Editor

def answer (editor : Editor) : EditRequest → Editor × List Text
  | .line t =>
    let edited := editor.editLine t
    (edited.1, [edited.2])
  | .file lines => editor.editLines lines

/-- Answers requests one after the other. -/
def answerAll (editor : Editor) : List EditRequest → Editor × List (List Text)
  | [] => (editor, [])
  | request :: later =>
    let answered := editor.answer request
    let rest := answered.1.answerAll later
    (rest.1, answered.2 :: rest.2)

/-- A request for a line is one for a file of that line. -/
theorem answer_eq (editor : Editor) (request : EditRequest) :
    editor.answer request = editor.editLines request.lines := by
  cases request with
  | line t => rfl
  | file lines => rfl

theorem answerAll_eq (editor : Editor) (requests : List EditRequest) :
    editor.answerAll requests = editor.editFiles (requests.map EditRequest.lines) := by
  induction requests generalizing editor with
  | nil => rfl
  | cons request later ih =>
    rw [answerAll, List.map_cons, editFiles, ih, answer_eq]

/-- After any requests an editor has its index and plan, and has added the counts of all lines;
each request was answered by what the plan makes of its lines. -/
theorem answerAll_spec (editor : Editor) (requests : List EditRequest) :
    (editor.answerAll requests).1.index = editor.index ∧
    (editor.answerAll requests).1.plan = editor.plan ∧
    (editor.answerAll requests).1.tallies =
      Tally.addLines editor.plan editor.tallies (requests.flatMap EditRequest.lines) ∧
    (editor.answerAll requests).2 =
      requests.map fun request => editedLines editor.plan request.lines := by
  obtain ⟨after, outputs⟩ := editor.editFiles_spec (requests.map EditRequest.lines)
  obtain ⟨index, plan, tallies⟩ := editor.afterFiles_spec (requests.map EditRequest.lines)
  rw [answerAll_eq, after]
  refine ⟨index, plan, tallies, ?_⟩
  rw [outputs, List.map_map]
  rfl

end Editor

namespace Tally

/-- A tally as it can come about: a line is counted only with something replaced on it. -/
structure Consistent (tally : Tally) : Prop where
  le : tally.applications ≤ tally.replacements
  pos : 0 < tally.replacements → 0 < tally.applications

theorem Consistent.zero_iff {tally : Tally} (consistent : tally.Consistent) :
    tally.applications = 0 ↔ tally.replacements = 0 := by
  have le := consistent.le
  have pos := consistent.pos
  omega

theorem consistent_zero : zero.Consistent := ⟨Nat.le_refl _, id⟩

theorem Consistent.add {tally : Tally} (consistent : tally.Consistent) (replaced : Nat) :
    (tally.add replaced).Consistent := by
  obtain ⟨le, pos⟩ := consistent
  unfold Tally.add
  split
  · exact ⟨le, pos⟩
  · constructor
    · simp only
      omega
    · simp only
      omega

/-- Adding counts keeps a tally consistent. -/
theorem Consistent.foldl {tally : Tally} (consistent : tally.Consistent) (counts : List Nat) :
    (counts.foldl Tally.add tally).Consistent := by
  induction counts generalizing tally with
  | nil => exact consistent
  | cons replaced later ih => exact ih (consistent.add replaced)

/-- Added up, the counts above zero are the lines changed and the sum is what was replaced. -/
theorem foldl_add (counts : List Nat) (tally : Tally) :
    counts.foldl add tally =
      ⟨tally.applications + counts.countP (· ≠ 0), tally.replacements + counts.sum⟩ := by
  induction counts generalizing tally with
  | nil => rfl
  | cons replaced later ih =>
    rw [List.foldl_cons, ih, List.countP_cons, List.sum_cons]
    by_cases none : replaced = 0
    · simp [add, none]
    · simp only [add, none, if_false, ne_eq, not_false_eq_true, decide_true, if_true]
      rw [Tally.mk.injEq]
      omega

theorem foldl_add_zero (counts : List Nat) :
    counts.foldl add zero = ⟨counts.countP (· ≠ 0), counts.sum⟩ := by
  rw [foldl_add]
  simp [zero]

/-- Counts that are one at most are lines as much as replacements. -/
theorem even_foldl_add {counts : List Nat} (single : ∀ replaced ∈ counts, replaced ≤ 1)
    {tally : Tally} (even : tally.applications = tally.replacements) :
    (counts.foldl add tally).applications = (counts.foldl add tally).replacements := by
  induction counts generalizing tally with
  | nil => exact even
  | cons replaced later ih =>
    refine ih (fun other listed => single other (List.mem_cons_of_mem _ listed)) ?_
    have atMost := single replaced List.mem_cons_self
    unfold add
    split
    · exact even
    · simp only
      omega

end Tally

/-- A rule for the first occurrence replaces one at most. -/
theorem Rule.count_apply_le_one {rule : Rule} (first : rule.mode = .first) (matching : Matching)
    (line : Text) : (rule.apply matching line).count ≤ 1 := by
  simp only [apply, substitute, first]
  omega

/-- How much a rule replaces on a line, in what the rules before it have left of it. -/
def PlannedRule.countBehind (before : List PlannedRule) (planned : PlannedRule) (line : Text) :
    Nat :=
  (planned.apply (editLine before line).1).count

theorem PlannedRule.counts_getElem? (before after : List PlannedRule) (planned : PlannedRule)
    (line : Text) :
    (editLine (before ++ planned :: after) line).2[before.length]? =
      some (planned.countBehind before line) := by
  rw [editLine_append, ← length_editLine_counts before line]
  simp only [editLine]
  rw [List.getElem?_append_right (Nat.le_refl _), Nat.sub_self]
  rfl

/-- What is told of a rule adds up the numbers of replacements that it made on single lines. -/
structure RuleStatistics.AddsUp (index : Index) (planned : PlannedRule) (counts : List Nat)
    (statistics : RuleStatistics) : Prop where
  pattern : statistics.pattern = planned.rule.pattern
  matching : statistics.matching = planned.matching
  replacements : statistics.tally.replacements = counts.sum
  applications : statistics.tally.applications = counts.countP (· ≠ 0)
  le : statistics.tally.applications ≤ statistics.tally.replacements
  zero_iff : statistics.tally.applications = 0 ↔ statistics.tally.replacements = 0
  of_first : planned.rule.mode = .first →
    statistics.tally.applications = statistics.tally.replacements
  declaration_iff : statistics.declaration.isSome = true ↔
    statistics.matching = .wholeIdentifier ∧ statistics.tally.applications ≠ 0
  declaration : ∀ kind, statistics.declaration = some kind →
    (index.find? planned.rule.pattern).map Declaration.kind = some kind

namespace PlannedRule

/-- The tally of a rule adds up what it replaced behind the rules before it. -/
theorem getElem?_addLines_behind (before after : List PlannedRule) (planned : PlannedRule)
    {tallies : List Tally} {tally : Tally} (here : tallies[before.length]? = some tally)
    (lines : List Text) :
    (Tally.addLines (before ++ planned :: after) tallies lines)[before.length]? =
      some ((lines.map (planned.countBehind before)).foldl Tally.add tally) := by
  have counted : before.length < (before ++ planned :: after).length := by
    rw [List.length_append, List.length_cons]
    omega
  rw [Tally.getElem?_addLines counted here, List.foldl_map]
  simp only [counts_getElem?, Option.getD_some]

/-- A declaration is told of a rule that renames one, once it has renamed something. -/
theorem isSome_declaration_told (planned : PlannedRule) (tally : Tally) :
    (planned.told tally).declaration.isSome = true ↔
      planned.matching = .wholeIdentifier ∧ tally.applications ≠ 0 := by
  rw [matching_eq_iff]
  by_cases unused : tally.applications = 0
  · simp [told, unused]
  · simp [told, unused]

/-- The kind told of a settled rule is the one that the index has under its pattern. -/
theorem Settled.declaration_told {index : Index} {planned : PlannedRule}
    (settled : planned.Settled index) {tally : Tally} {kind : DeclarationKind}
    (found : (planned.told tally).declaration = some kind) :
    (index.find? planned.rule.pattern).map Declaration.kind = some kind := by
  have whole : planned.matching = .wholeIdentifier := by
    apply ((isSome_declaration_told planned tally).mp ?_).1
    rw [found]
    rfl
  unfold told at found
  rw [← settled whole]
  split at found
  · cases found
  · exact found

/-- What is told of a settled rule adds up the counts of its tally. -/
theorem Settled.addsUp {index : Index} {planned : PlannedRule} (settled : planned.Settled index)
    {counts : List Nat}
    (single : planned.rule.mode = .first → ∀ replaced ∈ counts, replaced ≤ 1) :
    (planned.told (counts.foldl Tally.add .zero)).AddsUp index planned counts := by
  have consistent := Tally.consistent_zero.foldl counts
  have even : planned.rule.mode = .first → (counts.foldl Tally.add .zero).applications =
      (counts.foldl Tally.add .zero).replacements :=
    fun first => Tally.even_foldl_add (single first) rfl
  rw [Tally.foldl_add_zero] at consistent even ⊢
  exact {
    pattern := rfl
    matching := rfl
    replacements := rfl
    applications := rfl
    le := consistent.le
    zero_iff := consistent.zero_iff
    of_first := even
    declaration_iff := isSome_declaration_told planned _
    declaration := fun _ => settled.declaration_told }

end PlannedRule

/-- The statistics of a rule in a list of rules add up what it replaced behind those before it. -/
theorem Editor.exists_addsUp (index : Index) (aware : Bool) (before after : List Rule) (rule : Rule)
    (lines : List Text) :
    let fresh := ofRules index (before ++ rule :: after) aware
    ∃ statistics, (fresh.plan.zipWith PlannedRule.told
        (Tally.addLines fresh.plan fresh.tallies lines))[before.length]? = some statistics ∧
      statistics.AddsUp index (.ofRule index aware rule)
        (lines.map ((PlannedRule.ofRule index aware rule).countBehind
          (before.map (.ofRule index aware)))) := by
  intro fresh
  have plan : fresh.plan = before.map (PlannedRule.ofRule index aware) ++
      .ofRule index aware rule :: after.map (PlannedRule.ofRule index aware) := by
    simp [fresh, ofRules]
  have here : fresh.plan[before.length]? = some (.ofRule index aware rule) := by simp [plan]
  have nothing : fresh.tallies[(before.map (PlannedRule.ofRule index aware)).length]? =
      some .zero := by simp [fresh, ofRules]
  have total := PlannedRule.getElem?_addLines_behind _ (after.map (PlannedRule.ofRule index aware))
    (.ofRule index aware rule) nothing lines
  rw [← plan, List.length_map] at total
  have single : rule.mode = .first → ∀ replaced ∈ lines.map
      ((PlannedRule.ofRule index aware rule).countBehind
        (before.map (PlannedRule.ofRule index aware))), replaced ≤ 1 := by
    intro first replaced listed
    obtain ⟨line, -, rfl⟩ := List.mem_map.mp listed
    exact Rule.count_apply_le_one first _ _
  refine ⟨_, ?_, (PlannedRule.settled_ofRule index aware rule).addsUp single⟩
  rw [List.getElem?_zipWith, here, total]

/-- An editor has no memory, and what it tells adds up. After any requests to a new editor each of
them was answered as by a new one; the pass that looks up declarations does the same to a line and
is not stopped; the statistics of each rule add up what it replaced, behind the rules before it, on
the single lines; and any other requests for the same lines, in whichever order and division, lead
to the same statistics. -/
theorem Editor.history_adds_up (index : Index) (rules : List Rule) (aware : Bool)
    (requests : List EditRequest) :
    let fresh := ofRules index rules aware
    let editor := (fresh.answerAll requests).1
    let lines := requests.flatMap EditRequest.lines
    (fresh.answerAll requests).2 = requests.map (fun request => (fresh.answer request).2) ∧
    (∀ line, editInOnePass editor.index 1 editor.plan editor.statistics line =
      .ok ((editor.editLine line).2, (editor.editLine line).1.statistics)) ∧
    editor.statistics.length = rules.length ∧
    (∀ before rule after, rules = before ++ rule :: after →
      ∃ statistics, editor.statistics[before.length]? = some statistics ∧
        statistics.AddsUp index (.ofRule index aware rule)
          (lines.map ((PlannedRule.ofRule index aware rule).countBehind
            (before.map (.ofRule index aware))))) ∧
    ∀ others : List EditRequest, (others.flatMap EditRequest.lines).Perm lines →
      (fresh.answerAll others).1.statistics = editor.statistics := by
  intro fresh editor lines
  obtain ⟨sameIndex, plan, tallies, outputs⟩ := fresh.answerAll_spec requests
  have statistics : editor.statistics = fresh.plan.zipWith PlannedRule.told
      (Tally.addLines fresh.plan fresh.tallies lines) := by
    rw [statistics_eq, plan, tallies]
  refine ⟨?_, ?_, ?_, ?_, ?_⟩
  · rw [outputs]
    apply List.map_congr_left
    intro request _
    rw [answer_eq, (fresh.editLines_spec request.lines).1]
  · have settled : editor.Settled := by
      unfold Settled
      rw [sameIndex, plan]
      exact settled_ofRules index rules aware
    exact settled.editInOnePass
  · have aligned := editor.aligned
    rw [statistics_eq, List.length_zipWith, aligned, Nat.min_self, plan]
    simp [fresh, ofRules]
  · rintro before rule after rfl
    rw [statistics]
    exact exists_addsUp index aware before after rule lines
  · intro others reordered
    obtain ⟨-, plan', tallies', -⟩ := fresh.answerAll_spec others
    rw [statistics, statistics_eq, plan', tallies', Tally.addLines_perm _ _ reordered]

namespace Regrouped

def index : Index := ⟨[⟨"a", .function, ⟨"x.kt"⟩, 1⟩], 0⟩

/-- The first rule makes more occurrences for the second, and that one leaves some to the third. -/
def rules : List Rule := [⟨"x", "a", .all⟩, ⟨"a", "b", .first⟩, ⟨"a", "c", .all⟩]

def requests : List EditRequest := [.line "x.a", .file ["ab", "a-x-a"], .line "x.a"]

/-- The same lines in one file and in another order. -/
def others : List EditRequest := [.file ["x.a", "x.a", "a-x-a", "ab"]]

def answers : List (List Text) := [["b.c"], ["ab", "b-c-c"], ["b.c"]]

end Regrouped

/-- The third rule changes three lines, and two occurrences on one of them. -/
theorem Editor.history_adds_up_regrouped :
    ((ofRules Regrouped.index Regrouped.rules true).answerAll Regrouped.requests).2 =
      Regrouped.answers ∧
    ((ofRules Regrouped.index Regrouped.rules true).answerAll Regrouped.requests).1.statistics =
      [⟨"x", .literal, ⟨3, 3⟩, none⟩, ⟨"a", .wholeIdentifier, ⟨3, 3⟩, some .function⟩,
        ⟨"a", .wholeIdentifier, ⟨3, 4⟩, some .function⟩] ∧
    (∃ statistics, ((ofRules Regrouped.index Regrouped.rules true).answerAll
        Regrouped.requests).1.statistics[2]? = some statistics ∧
      statistics.AddsUp Regrouped.index (.ofRule Regrouped.index true ⟨"a", "c", .all⟩)
        [1, 0, 2, 1]) ∧
    ((ofRules Regrouped.index Regrouped.rules true).answerAll Regrouped.others).1.statistics =
      ((ofRules Regrouped.index Regrouped.rules true).answerAll
        Regrouped.requests).1.statistics := by
  obtain ⟨-, -, -, told, regrouped⟩ :=
    history_adds_up Regrouped.index Regrouped.rules true Regrouped.requests
  obtain ⟨statistics, here, addsUp⟩ := told [⟨"x", "a", .all⟩, ⟨"a", "b", .first⟩]
    ⟨"a", "c", .all⟩ [] rfl
  have counts : (Regrouped.requests.flatMap EditRequest.lines).map
      ((PlannedRule.ofRule Regrouped.index true ⟨"a", "c", .all⟩).countBehind
        (([⟨"x", "a", .all⟩, ⟨"a", "b", .first⟩] : List Rule).map
          (.ofRule Regrouped.index true))) = [1, 0, 2, 1] := by decide +kernel
  rw [counts] at addsUp
  exact ⟨by decide +kernel, by decide +kernel, ⟨statistics, here, addsUp⟩,
    regrouped Regrouped.others (by decide +kernel)⟩

end TreeMigration
