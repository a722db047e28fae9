import TreeMigration.Editor
import TreeMigration.Proofs.Substitution.Piecewise

/-!
Renaming and renaming back. A name that a text did not have before it was given marks exactly the
places where it was put, so the opposite rule finds these and no others; a plan of renamings is
undone from its last rule to its first, each rule by the one opposite to it.

For one renaming, `apply_inverse` is an induction on the pieces of the text: the runs that are the
old name become the new one and back, and no other run is the new name, because the text had no such
run.

For a plan the freshness has to survive the renamings before. A renaming brings in no run but its
own new name (`not_mem_runs_apply`), so distinct new names that the line does not have are fresh
when their turn comes. The induction is on the list of renamings, with the line generalised.
-/
namespace TreeMigration

open Identifier

/-- A name and the name it is given. -/
structure Renaming where
  old : Text
  new : Text
  deriving DecidableEq, Repr

namespace Renaming

def inverse (names : Renaming) : Renaming := ⟨names.new, names.old⟩

def rule (names : Renaming) : Rule := ⟨names.old, names.new, .all⟩

theorem resume_rule (names : Renaming) (rest : Text) :
    names.rule.resume rest = names.rule.apply .wholeIdentifier rest := rfl

/-- The rule as planned for a declared name, which makes it match whole identifiers. -/
def planned (declared : Text → Declaration) (names : Renaming) : PlannedRule :=
  ⟨names.rule, some (declared names.old)⟩

/-- Both names are bare identifiers. -/
structure Bare (names : Renaming) : Prop where
  old : names.old.isIdentifier = true
  new : names.new.isIdentifier = true

instance (names : Renaming) : Decidable names.Bare :=
  decidable_of_iff (names.old.isIdentifier = true ∧ names.new.isIdentifier = true)
    ⟨fun both => ⟨both.1, both.2⟩, fun bare => ⟨bare.old, bare.new⟩⟩

/-- Renaming back restores a text of which the new name was not a run. -/
theorem apply_inverse {names : Renaming} (bare : names.Bare) {t : Text}
    (absent : names.new ∉ runs t) :
    names.inverse.rule.apply .wholeIdentifier (names.rule.apply .wholeIdentifier t).text =
      ⟨t, (names.rule.apply .wholeIdentifier t).count⟩ := by
  have named : names.rule.pattern.isIdentifier = true := bare.old
  have named' : names.inverse.rule.pattern.isIdentifier = true := bare.new
  induction t using induction_on_pieces with
  | nil => rw [Rule.apply_nil, Rule.apply_nil]
  | step kind piece rest filled alike other ih =>
    rw [runs_append filled alike other] at absent
    cases kind with
    | false =>
      rw [Rule.apply_gap_append named alike, Edit.text_behind, Rule.apply_gap_append named' alike,
        ih absent]
      rfl
    | true =>
      have apart : names.new ≠ piece ∧ names.new ∉ runs rest := by simpa using absent
      have plain : ∀ c ∈ rest.head?, isPart c = false := fun c first => by simpa using other c first
      have plain' := Rule.head_apply named plain
      by_cases same : piece = names.rule.pattern
      · -- the new name is now at the front of what the opposite rule gets
        have back := Rule.apply_pattern_append named' plain'
        rw [resume_rule, ih apart.2] at back
        rw [same, Rule.apply_pattern_append named plain, resume_rule]
        exact back
      · have other' : ∀ c ∈ (names.rule.apply .wholeIdentifier rest).text.head?,
            isPart c ≠ true := fun c first => by simp [plain' c first]
        rw [Rule.apply_piece_append named same filled alike other, Edit.text_behind,
          Rule.apply_piece_append named' (Ne.symm apart.1) filled alike other', ih apart.2]
        rfl

/-- A rule brings in its own new name at most. -/
theorem not_mem_runs_apply {names : Renaming} (bare : names.Bare) {name t : Text}
    (different : name ≠ names.new) (absent : name ∉ runs t) :
    name ∉ runs (names.rule.apply .wholeIdentifier t).text := by
  intro found
  have named : names.rule.pattern.isIdentifier = true := bare.old
  have alone : runs names.rule.replacement = [names.new] := runs_of_isIdentifier bare.new
  have origin := Rule.mem_runs_of_mem_apply named found
  rw [alone, List.mem_singleton] at origin
  exact origin.elim absent different

end Renaming

/-- Renamings are undone by the opposite renamings in the opposite order, and each of these replaces
as much as the one it undoes. The new names must be distinct and none of them a run of the line; the
old names need not be distinct, nor differ from the new ones. -/
theorem editLine_inverse (declared : Text → Declaration) {renamings : List Renaming} {line : Text}
    (bare : ∀ names ∈ renamings, names.Bare) (distinct : (renamings.map Renaming.new).Nodup)
    (absent : ∀ names ∈ renamings, names.new ∉ runs line) :
    let renamed := editLine (renamings.map (Renaming.planned declared)) line
    editLine (renamings.reverse.map fun names => names.inverse.planned declared) renamed.1 =
      (line, renamed.2.reverse) := by
  induction renamings generalizing line with
  | nil => rfl
  | cons names later ih =>
    have known : names.Bare := bare names List.mem_cons_self
    have fresh : names.new ∉ later.map Renaming.new := (List.nodup_cons.mp distinct).1
    have absent' : ∀ other ∈ later,
        other.new ∉ runs (names.rule.apply .wholeIdentifier line).text := by
      intro other listed
      apply Renaming.not_mem_runs_apply known
      · intro same
        exact fresh (same ▸ List.mem_map_of_mem listed)
      · exact absent other (List.mem_cons_of_mem _ listed)
    have rest := ih (fun other listed => bare other (List.mem_cons_of_mem _ listed))
      (List.nodup_cons.mp distinct).2 absent'
    have first : (names.planned declared).apply line = names.rule.apply .wholeIdentifier line := rfl
    have last : (names.inverse.planned declared).apply (names.rule.apply .wholeIdentifier line).text =
        ⟨line, (names.rule.apply .wholeIdentifier line).count⟩ :=
      Renaming.apply_inverse known (absent names List.mem_cons_self)
    simp only [List.map_cons, List.reverse_cons, List.map_append, List.map_nil, editLine, first]
    rw [editLine_append, rest]
    simp only [editLine, last]

namespace Chained

/-- The second pair renames what the first one has renamed already, and the third has a name that
stands inside another one. -/
def renamings : List Renaming := [⟨"a", "b"⟩, ⟨"b", "c1"⟩, ⟨"ab", "x"⟩]

def declared (name : Text) : Declaration := ⟨name, .function, ⟨"x.kt"⟩, 1⟩

end Chained

/-- Both occurrences are renamed twice and get their name back in two steps. -/
theorem editLine_inverse_chained :
    editLine (Chained.renamings.map (Renaming.planned Chained.declared)) "a.ab(xa, a)" =
      ⟨"c1.x(xa, c1)", [2, 2, 1]⟩ ∧
    editLine (Chained.renamings.reverse.map fun names => names.inverse.planned Chained.declared)
      "c1.x(xa, c1)" = ⟨"a.ab(xa, a)", [1, 2, 2]⟩ := by
  have renamed : editLine (Chained.renamings.map (Renaming.planned Chained.declared))
      "a.ab(xa, a)" = ⟨"c1.x(xa, c1)", [2, 2, 1]⟩ := by decide +kernel
  have bare : ∀ names ∈ Chained.renamings, names.Bare := by decide +kernel
  have distinct : (Chained.renamings.map Renaming.new).Nodup := by decide +kernel
  have absent : ∀ names ∈ Chained.renamings, names.new ∉ runs "a.ab(xa, a)" := by decide +kernel
  have undone := editLine_inverse Chained.declared bare distinct absent
  rw [renamed] at undone
  exact ⟨renamed, undone⟩

end TreeMigration
