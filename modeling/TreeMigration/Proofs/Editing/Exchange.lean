import TreeMigration.Proofs.Declaration.Renaming
import TreeMigration.Proofs.Editing.Order
import TreeMigration.Proofs.Substitution.Piecewise

/-!
Independent rules may be exchanged. Where neither rule brings in what the other looks for, the
occurrences of both lie apart in the line and each rule finds its own before and after the other has
been applied. A rule for the first occurrence is no exception, since the first one stays the first.

`Rule.Independent` asks for two different names of which neither is a run of the other's
replacement. `apply_apply` is the statement for one line. Its induction is on the pieces of the
line: a piece of neither name is passed by both rules, and at a piece of one of the names that rule
acts and the other goes on behind it, where it may have replaced its first occurrence already
(`apply_resume`).

What is exchanged with the rules are their statistics. `ExchangedAt` says that two lists are the
same but for two neighbours, and is kept by everything that is done position by position, so that
the exchange of two counts on one line becomes that of two tallies in the end
(`Tally.exchangedAt_addLines`). The rules around the two are the same on both sides and need no
condition, since they see the same lines.
-/
namespace TreeMigration

open Identifier

namespace Rule

/-- Two rules that look for different names, of which neither puts in the other's. -/
structure Independent (rule other : Rule) : Prop where
  different : rule.pattern ≠ other.pattern
  absent : other.pattern ∉ runs rule.replacement
  absent' : rule.pattern ∉ runs other.replacement

variable {rule other : Rule}

theorem Independent.symm (independent : rule.Independent other) : other.Independent rule :=
  ⟨Ne.symm independent.different, independent.absent', independent.absent⟩

/-- What a rule does behind an occurrence commutes with another rule if the rule itself does. -/
theorem apply_resume {rest : Text}
    (commutes : other.apply .wholeIdentifier (rule.apply .wholeIdentifier rest).text =
      ⟨(rule.apply .wholeIdentifier (other.apply .wholeIdentifier rest).text).text,
        (other.apply .wholeIdentifier rest).count⟩) :
    other.apply .wholeIdentifier (rule.resume rest).text =
        ⟨(rule.resume (other.apply .wholeIdentifier rest).text).text,
          (other.apply .wholeIdentifier rest).count⟩ ∧
      other.resume (rule.apply .wholeIdentifier rest).text =
        ⟨(rule.apply .wholeIdentifier (other.resume rest).text).text, (other.resume rest).count⟩ := by
  constructor
  · cases mode : rule.mode with
    | all => simpa [resume, mode] using commutes
    | first => simp [resume, mode]
  · cases mode : other.mode with
    | all => simpa [resume, mode] using commutes
    | first => simp [resume, mode]

/-- A rule applied to what an independent one has left replaces as much as without it, and the text
is the one that the two rules make in the other order. -/
theorem apply_apply (bare : rule.pattern.isIdentifier = true)
    (bare' : other.pattern.isIdentifier = true) (independent : rule.Independent other) (t : Text) :
    other.apply .wholeIdentifier (rule.apply .wholeIdentifier t).text =
      ⟨(rule.apply .wholeIdentifier (other.apply .wholeIdentifier t).text).text,
        (other.apply .wholeIdentifier t).count⟩ := by
  induction t using induction_on_pieces with
  | nil => simp only [apply_nil]
  | step kind piece rest filled alike other' ih =>
    obtain ⟨behindRule, behindOther⟩ := apply_resume ih
    cases kind with
    | false =>
      simp only [apply_gap_append bare alike, apply_gap_append bare' alike, Edit.behind, ih]
    | true =>
      have plain : ∀ c ∈ rest.head?, isPart c = false :=
        fun c first => by simpa using other' c first
      have plainRule := head_apply bare plain
      have plainOther := head_apply bare' plain
      by_cases first : piece = rule.pattern
      · subst first
        rw [apply_pattern_append bare plain,
          apply_append_of_absent bare' independent.absent (head_resume bare plain), behindRule,
          apply_piece_append bare' independent.different filled alike other', Edit.text_behind,
          apply_pattern_append bare plainOther]
        rfl
      by_cases second : piece = other.pattern
      · subst second
        rw [apply_piece_append bare (Ne.symm independent.different) filled alike other',
          Edit.text_behind, apply_pattern_append bare' plainRule, behindOther,
          apply_pattern_append bare' plain,
          apply_append_of_absent bare independent.absent' (head_resume bare' plain)]
        rfl
      · have endedRule : ∀ c ∈ (rule.apply .wholeIdentifier rest).text.head?, isPart c ≠ true :=
          fun c begins => by simp [plainRule c begins]
        have endedOther : ∀ c ∈ (other.apply .wholeIdentifier rest).text.head?,
            isPart c ≠ true := fun c begins => by simp [plainOther c begins]
        rw [apply_piece_append bare first filled alike other', Edit.text_behind,
          apply_piece_append bare' second filled alike endedRule, ih,
          apply_piece_append bare' second filled alike other', Edit.text_behind,
          apply_piece_append bare first filled alike endedOther]
        rfl

end Rule

/-- Two lists that are the same but for the order of the item at a position and the one behind it. -/
def ExchangedAt {α : Type} (position : Nat) (items others : List α) : Prop :=
  ∃ ahead one two behind, ahead.length = position ∧
    items = ahead ++ one :: two :: behind ∧ others = ahead ++ two :: one :: behind

namespace ExchangedAt

variable {α β γ : Type} {position : Nat}

theorem map {items others : List α} (exchanged : ExchangedAt position items others) (f : α → β) :
    ExchangedAt position (items.map f) (others.map f) := by
  obtain ⟨ahead, one, two, behind, length, rfl, rfl⟩ := exchanged
  exact ⟨ahead.map f, f one, f two, behind.map f, by simpa using length, by simp, by simp⟩

theorem zipWith {items others : List α} {items' others' : List β}
    (exchanged : ExchangedAt position items others)
    (exchanged' : ExchangedAt position items' others') (f : α → β → γ) :
    ExchangedAt position (items.zipWith f items') (others.zipWith f others') := by
  obtain ⟨ahead, one, two, behind, length, rfl, rfl⟩ := exchanged
  obtain ⟨ahead', one', two', behind', length', rfl, rfl⟩ := exchanged'
  have aligned : ahead.length = ahead'.length := length.trans length'.symm
  refine ⟨ahead.zipWith f ahead', f one one', f two two', behind.zipWith f behind', ?_, ?_, ?_⟩
  · rw [List.length_zipWith]
    omega
  · rw [List.zipWith_append aligned]
    rfl
  · rw [List.zipWith_append aligned]
    rfl

end ExchangedAt

namespace PlannedRule

/-- Two rules planned to match whole identifiers that are independent of each other. -/
structure Independent (planned other : PlannedRule) : Prop where
  whole : planned.matching = .wholeIdentifier
  whole' : other.matching = .wholeIdentifier
  bare : planned.rule.pattern.isIdentifier = true
  bare' : other.rule.pattern.isIdentifier = true
  rules : planned.rule.Independent other.rule

theorem Independent.symm {planned other : PlannedRule} (independent : planned.Independent other) :
    other.Independent planned :=
  ⟨independent.whole', independent.whole, independent.bare', independent.bare,
    independent.rules.symm⟩

theorem Independent.apply_apply {planned other : PlannedRule}
    (independent : planned.Independent other) (t : Text) :
    other.apply (planned.apply t).text =
      ⟨(planned.apply (other.apply t).text).text, (other.apply t).count⟩ := by
  unfold apply
  rw [independent.whole, independent.whole']
  exact Rule.apply_apply independent.bare independent.bare' independent.rules t

/-- Independent rules next to each other make the same of a line in either order, and each of them
replaces as much. -/
theorem Independent.editLine_exchanged {planned other : PlannedRule}
    (independent : planned.Independent other) (before after : List PlannedRule) (line : Text) :
    (editLine (before ++ other :: planned :: after) line).1 =
        (editLine (before ++ planned :: other :: after) line).1 ∧
      ExchangedAt before.length (editLine (before ++ planned :: other :: after) line).2
        (editLine (before ++ other :: planned :: after) line).2 := by
  have there := independent.apply_apply (editLine before line).1
  have back := independent.symm.apply_apply (editLine before line).1
  rw [editLine_append, editLine_append]
  simp only [editLine]
  have same : (planned.apply (other.apply (editLine before line).1).text).text =
      (other.apply (planned.apply (editLine before line).1).text).text := by rw [there]
  rw [back, there, same]
  exact ⟨rfl, _, _, _, _, length_editLine_counts before line, rfl, rfl⟩

end PlannedRule

/-- The counts that two plans add up stay exchanged if those of every line are. -/
theorem Tally.exchangedAt_addLines {position : Nat} {plan others : List PlannedRule}
    (counted : ∀ line, ExchangedAt position (editLine plan line).2 (editLine others line).2)
    {tallies tallies' : List Tally} (exchanged : ExchangedAt position tallies tallies')
    (lines : List Text) :
    ExchangedAt position (addLines plan tallies lines) (addLines others tallies' lines) := by
  induction lines generalizing tallies tallies' with
  | nil => exact exchanged
  | cons line later ih => exact ih (exchanged.zipWith (counted line) add)

/-- Two rules next to each other that are planned to match whole identifiers and are independent may
be exchanged: no file becomes anything else, and what is told of the rules is exchanged with them,
all else of it being the same. -/
theorem independent_rules_commute {index : Index} {aware : Bool} {first second : Rule}
    (whole : (PlannedRule.ofRule index aware first).matching = .wholeIdentifier)
    (whole' : (PlannedRule.ofRule index aware second).matching = .wholeIdentifier)
    (independent : first.Independent second) (before after : List Rule) (texts : List (List Text)) :
    let editor := Editor.ofRules index (before ++ first :: second :: after) aware
    let other := Editor.ofRules index (before ++ second :: first :: after) aware
    (other.editFiles texts).2 = (editor.editFiles texts).2 ∧
      ExchangedAt before.length (editor.editFiles texts).1.statistics
        (other.editFiles texts).1.statistics := by
  intro editor other
  have planned : PlannedRule.Independent (.ofRule index aware first) (.ofRule index aware second) :=
    ⟨whole, whole', (PlannedRule.matching_ofRule_iff.mp whole).2.1,
      (PlannedRule.matching_ofRule_iff.mp whole').2.1, independent⟩
  have rules : ExchangedAt before.length (before ++ first :: second :: after)
      (before ++ second :: first :: after) := ⟨before, first, second, after, rfl, rfl, rfl⟩
  have plans : ExchangedAt before.length editor.plan other.plan := rules.map _
  have tallies : ExchangedAt before.length editor.tallies other.tallies := plans.map _
  have edited (line : Text) : (editLine other.plan line).1 = (editLine editor.plan line).1 ∧
      ExchangedAt before.length (editLine editor.plan line).2 (editLine other.plan line).2 := by
    have exchanged := planned.editLine_exchanged (before.map (PlannedRule.ofRule index aware))
      (after.map (PlannedRule.ofRule index aware)) line
    simpa [editor, other, Editor.ofRules] using exchanged
  obtain ⟨afterwards, outputs⟩ := editor.editFiles_spec texts
  obtain ⟨afterwards', outputs'⟩ := other.editFiles_spec texts
  constructor
  · rw [outputs, outputs']
    apply List.map_congr_left
    intro lines _
    apply List.map_congr_left
    intro line _
    exact (edited line).1
  · obtain ⟨-, plan, counted⟩ := editor.afterFiles_spec texts
    obtain ⟨-, plan', counted'⟩ := other.afterFiles_spec texts
    rw [afterwards, afterwards', Editor.statistics_eq, Editor.statistics_eq, plan, plan', counted, counted']
    have added := Tally.exchangedAt_addLines (fun line => (edited line).2) tallies texts.flatten
    exact plans.zipWith added PlannedRule.told

namespace Touching

def index : Index := ⟨[⟨"a", .function, ⟨"x.kt"⟩, 1⟩, ⟨"b", .property, ⟨"x.kt"⟩, 2⟩], 0⟩

/-- One rule takes its name out, the other puts its own in once more. -/
def taking : Rule := ⟨"a", "", .first⟩

def putting : Rule := ⟨"b", "a1(b)b2", .all⟩

/-- The rule before them makes another occurrence for them, the one behind them sees what is left
when a name was taken out. -/
def edited (first second : Rule) : Editor × List (List Text) :=
  (Editor.ofRules index [⟨"x", "b", .all⟩, first, second, ⟨"()", "!", .all⟩] true).editFiles
    [["b.a(a)x", "ab"], ["(a)b"]]

/-- What both orders make of the two files. -/
def made : List (List Text) := [["a1(b)b2.(a)a1(b)b2", "ab"], ["!a1(b)b2"]]

end Touching

theorem independent_rules_commute_touching :
    (Touching.edited Touching.taking Touching.putting).2 = Touching.made ∧
    (Touching.edited Touching.putting Touching.taking).2 = Touching.made ∧
    (Touching.edited Touching.taking Touching.putting).1.statistics =
      [⟨"x", .literal, ⟨1, 1⟩, none⟩, ⟨"a", .wholeIdentifier, ⟨2, 2⟩, some .function⟩,
        ⟨"b", .wholeIdentifier, ⟨2, 3⟩, some .property⟩, ⟨"()", .literal, ⟨1, 1⟩, none⟩] ∧
    ExchangedAt 1 (Touching.edited Touching.taking Touching.putting).1.statistics
      (Touching.edited Touching.putting Touching.taking).1.statistics := by
  have independent : Touching.taking.Independent Touching.putting :=
    ⟨by decide +kernel, by decide +kernel, by decide +kernel⟩
  have exchanged := @independent_rules_commute Touching.index true Touching.taking Touching.putting
    (by decide +kernel) (by decide +kernel) independent [⟨"x", "b", .all⟩] [⟨"()", "!", .all⟩]
    [["b.a(a)x", "ab"], ["(a)b"]]
  have made : (Touching.edited Touching.taking Touching.putting).2 = Touching.made := by
    decide +kernel
  exact ⟨made, exchanged.1.trans made, by decide +kernel, exchanged.2⟩

end TreeMigration
