import TreeMigration.Proofs.Substitution.Restoring
import TreeMigration.Proofs.Substitution.WholeRuns

/-!
Substituting a whole identifier goes through a text piece by piece. Each equation here says what the
substitution does to the front of a text, by what the front is; the text behind it is substituted as
if it stood alone. Together with the induction on pieces they replace every look at the cut itself.

There are four equations: for the empty text, for a piece that is not the pattern, for characters of
no identifier, and for the pattern itself (`apply_nil`, `apply_piece_append`, `apply_gap_append`,
`apply_pattern_append`). Only the last replaces something, and behind it a rule for the first
occurrence does nothing more, which is `resume`.

They apply because a substitution keeps the kind of the first character (`head_apply`): what follows
a piece of identifiers begins with no identifier character, before and after. The runs of the result
are therefore those of the text and of the replacement (`mem_runs_of_mem_apply`).
-/
namespace TreeMigration

open Identifier

/-- An edit seen with unchanged text in front of it. -/
def Edit.behind (passed : Text) (edit : Edit) : Edit := ⟨passed ++ edit.text, edit.count⟩

@[simp] theorem Edit.text_behind (passed : Text) (edit : Edit) :
    (edit.behind passed).text = passed ++ edit.text := rfl

/-- What stays in front of a cut stays in front of the edit made from it. -/
theorem substitute_of_passed {matching : Matching} {mode : Mode}
    {pattern replacement line passed rest : Text}
    (cut : Cut.ofLine matching pattern line =
      ⟨passed ++ (Cut.ofLine matching pattern rest).start,
        (Cut.ofLine matching pattern rest).later⟩) :
    substitute matching mode pattern replacement line =
      (substitute matching mode pattern replacement rest).behind passed := by
  cases mode with
  | all => simp [substitute, cut, Cut.fillAll, Cut.occurrences, Edit.behind]
  | first =>
    cases shape : (Cut.ofLine matching pattern rest).later with
    | nil => simp [substitute, cut, shape, Cut.fillFirst, Cut.occurrences, Edit.behind]
    | cons second others =>
      simp [substitute, cut, shape, Cut.fillFirst, Cut.occurrences, Edit.behind]

namespace Rule

/-- What a rule does behind an occurrence that it has replaced. -/
def resume (rule : Rule) (rest : Text) : Edit :=
  match rule.mode with
  | .all => rule.apply .wholeIdentifier rest
  | .first => ⟨rest, 0⟩

variable {rule : Rule} (bare : rule.pattern.isIdentifier = true)

theorem apply_nil (rule : Rule) (matching : Matching) : rule.apply matching [] = ⟨[], 0⟩ := by
  obtain ⟨pattern, replacement, mode⟩ := rule
  have cut : Cut.ofLine matching pattern [] = ⟨[], []⟩ := by
    unfold Cut.ofLine
    split
    · rfl
    · simp [Cut.ofRest]
  cases mode with
  | all => simp [apply, substitute, cut, Cut.fillAll, Cut.occurrences]
  | first => simp [apply, substitute, cut, Cut.fillFirst, Cut.occurrences]

include bare

/-- A piece that is not the pattern stays. -/
theorem apply_piece_append {kind : Bool} {piece rest : Text} (different : piece ≠ rule.pattern)
    (filled : piece ≠ []) (alike : ∀ c ∈ piece, isPart c = kind)
    (other : ∀ c ∈ rest.head?, isPart c ≠ kind) :
    rule.apply .wholeIdentifier (piece ++ rest) =
      (rule.apply .wholeIdentifier rest).behind piece := by
  apply substitute_of_passed
  rw [Cut.ofLine_eq_atPieces bare, Cut.ofLine_eq_atPieces bare, pieces_append filled alike other,
    Cut.atPieces, if_neg different]

/-- Characters of no identifier stay, whatever follows them. -/
theorem apply_gap_append {gap : Text} (plain : ∀ c ∈ gap, isPart c = false) (t : Text) :
    rule.apply .wholeIdentifier (gap ++ t) = (rule.apply .wholeIdentifier t).behind gap := by
  have named := (all_isPart_of_isIdentifier bare).2
  by_cases empty : gap = []
  · rw [empty]
    rfl
  have alone : ∀ rest : Text, (∀ c ∈ rest.head?, isPart c ≠ false) →
      rule.apply .wholeIdentifier (gap ++ rest) =
        (rule.apply .wholeIdentifier rest).behind gap :=
    fun rest other => apply_piece_append bare (Cut.ne_of_gap named empty plain) empty plain other
  induction t using induction_on_pieces with
  | nil => exact alone [] (by simp)
  | step kind piece rest filled alike other _ =>
    cases kind with
    | false =>
      -- the two stretches are one piece of the text
      have longer : ∀ c ∈ gap ++ piece, isPart c = false := by
        intro c inside
        exact (List.mem_append.mp inside).elim (plain c) (alike c)
      have joined : gap ++ piece ≠ [] := by simp [empty]
      rw [← List.append_assoc,
        apply_piece_append bare (Cut.ne_of_gap named joined longer) joined longer other,
        apply_piece_append bare (Cut.ne_of_gap named filled alike) filled alike other]
      simp [Edit.behind]
    | true =>
      apply alone
      intro c first
      obtain ⟨d, later, rfl⟩ := List.exists_cons_of_ne_nil filled
      have same : d = c := by simpa using first
      simp [← same, alike d List.mem_cons_self]

/-- An occurrence at the front is replaced, and the rule goes on behind it. -/
theorem apply_pattern_append {rest : Text} (plain : ∀ c ∈ rest.head?, isPart c = false) :
    rule.apply .wholeIdentifier (rule.pattern ++ rest) =
      ⟨rule.replacement ++ (rule.resume rest).text, (rule.resume rest).count + 1⟩ := by
  obtain ⟨filled, named⟩ := all_isPart_of_isIdentifier bare
  have divided : pieces (rule.pattern ++ rest) = rule.pattern :: pieces rest :=
    pieces_append filled named (by simpa using plain)
  have cut : Cut.ofLine .wholeIdentifier rule.pattern (rule.pattern ++ rest) =
      ⟨[], (Cut.ofLine .wholeIdentifier rule.pattern rest).start ::
        (Cut.ofLine .wholeIdentifier rule.pattern rest).later⟩ := by
    rw [Cut.ofLine_eq_atPieces bare, Cut.ofLine_eq_atPieces bare, divided, Cut.atPieces,
      if_pos rfl]
  cases mode : rule.mode with
  | all => simp [apply, resume, substitute, mode, cut, Cut.fillAll, Cut.occurrences]
  | first =>
    -- what was cut behind the occurrence is put together again
    have back := Cut.fillAll_ofLine .wholeIdentifier rule.pattern rest
    simp [apply, resume, substitute, mode, cut, Cut.fillFirst, Cut.occurrences, back]

/-- A text that begins with no identifier character does so after the substitution. -/
theorem head_apply {t : Text} (plain : ∀ c ∈ t.head?, isPart c = false) :
    ∀ c ∈ (rule.apply .wholeIdentifier t).text.head?, isPart c = false := by
  cases t with
  | nil => simp [apply_nil]
  | cons d later =>
    have gap : ∀ c ∈ [d], isPart c = false := by simpa using plain
    have front := apply_gap_append bare gap later
    rw [List.singleton_append] at front
    rw [front]
    simpa [Edit.behind] using plain

theorem head_resume {rest : Text} (plain : ∀ c ∈ rest.head?, isPart c = false) :
    ∀ c ∈ (rule.resume rest).text.head?, isPart c = false := by
  cases mode : rule.mode with
  | all => simpa [resume, mode] using head_apply bare plain
  | first => simpa [resume, mode] using plain

/-- Text without a run that is the pattern stays, if what follows does not go on with its last run. -/
theorem apply_append_of_absent {s t : Text} (absent : rule.pattern ∉ runs s)
    (plain : ∀ c ∈ t.head?, isPart c = false) :
    rule.apply .wholeIdentifier (s ++ t) = (rule.apply .wholeIdentifier t).behind s := by
  induction s using induction_on_pieces with
  | nil => rfl
  | step kind piece rest filled alike other ih =>
    rw [runs_append filled alike other] at absent
    rw [List.append_assoc]
    cases kind with
    | false =>
      rw [apply_gap_append bare alike, ih absent]
      simp [Edit.behind]
    | true =>
      have apart : rule.pattern ≠ piece ∧ rule.pattern ∉ runs rest := by simpa using absent
      have other' : ∀ c ∈ (rest ++ t).head?, isPart c ≠ true := by
        cases rest with
        | nil => simpa using plain
        | cons d later => simpa using other
      rw [apply_piece_append bare (Ne.symm apart.1) filled alike other', ih apart.2]
      simp [Edit.behind]

/-- A substitution brings in no run but those of the replacement. -/
theorem mem_runs_of_mem_apply {t run : Text}
    (member : run ∈ runs (rule.apply .wholeIdentifier t).text) :
    run ∈ runs t ∨ run ∈ runs rule.replacement := by
  induction t using induction_on_pieces with
  | nil =>
    rw [apply_nil] at member
    exact .inl member
  | step kind piece rest filled alike other ih =>
    rw [runs_append filled alike other]
    cases kind with
    | false =>
      rw [apply_gap_append bare alike, Edit.text_behind, runs_gap_append alike] at member
      exact ih member
    | true =>
      have plain : ∀ c ∈ rest.head?, isPart c = false := fun c first => by simpa using other c first
      have later : run ∈ runs rest ∨ run ∈ runs rule.replacement →
          run ∈ (if true then piece :: runs rest else runs rest) ∨ run ∈ runs rule.replacement :=
        fun found => found.imp_left (List.mem_cons_of_mem _)
      by_cases same : piece = rule.pattern
      · subst same
        rw [apply_pattern_append bare plain, runs_append_gap _ (head_resume bare plain)] at member
        rcases List.mem_append.mp member with brought | behind
        · exact .inr brought
        · apply later
          cases mode : rule.mode with
          | all => exact ih (by simpa [resume, mode] using behind)
          | first => exact .inl (by simpa [resume, mode] using behind)
      · have ended : ∀ c ∈ (rule.apply .wholeIdentifier rest).text.head?, isPart c ≠ true :=
          fun c first => by simp [head_apply bare plain c first]
        rw [apply_piece_append bare same filled alike other, Edit.text_behind,
          runs_append filled alike ended] at member
        rcases List.mem_cons.mp member with rfl | behind
        · exact .inl List.mem_cons_self
        · exact later (ih behind)

end Rule

end TreeMigration
