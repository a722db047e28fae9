import TreeMigration.Proofs.Substitution.Places
import TreeMigration.Proofs.Identifier.Runs

/-!
Whole identifiers are among the literal occurrences. A literal occurrence of an identifier that
began before one standing alone and reached into it would hold the character in front of it, which
is of no identifier; so choosing literal occurrences from left to right never jumps over it.

Without that the statement would fail: the places chosen do not overlap, so an occurrence that is
admitted in one kind of matching may be hidden by an earlier one in the other. For an identifier
that stands alone this cannot happen (`Matching.AdmissibleAt.end_le`).

The comparison is between the lists of places and not between the texts. `sublist_literal` follows
the choice of literal places from left to right and finds the whole identifiers among them, with the
position from which both go on generalised. That the numbers of replacements compare, and that equal
numbers make equal lines, are consequences for lists.
-/
namespace TreeMigration

open Identifier

/-- Whatever may be replaced as a whole identifier may be replaced as plain text. -/
theorem Matching.AdmissibleAt.literal {matching : Matching} {pattern line : Text} {place : Nat}
    (admissible : matching.AdmissibleAt pattern line place) :
    Matching.literal.AdmissibleAt pattern line place :=
  ⟨admissible.1, nofun⟩

/-- An identifier that stands alone does not begin inside an earlier occurrence of it. -/
theorem Matching.AdmissibleAt.end_le {pattern line : Text} (named : ∀ c ∈ pattern, isPart c = true)
    {place other : Nat} (stands : pattern <+: line.drop place)
    (alone : Matching.wholeIdentifier.AdmissibleAt pattern line other) (earlier : place < other) :
    place + pattern.length ≤ other := by
  apply Nat.le_of_not_lt
  intro overlaps
  have inside : other - 1 - place < pattern.length := by omega
  have front : (line.take other).getLast? = some pattern[other - 1 - place] := by
    obtain ⟨behind, divided⟩ := stands
    have here : (line.drop place)[other - 1 - place]? = some pattern[other - 1 - place] := by
      rw [← divided, List.getElem?_append_left inside, List.getElem?_eq_getElem inside]
    have position : place + (other - 1 - place) = other - 1 := by omega
    rw [List.getElem?_drop, position] at here
    have within : other - 1 < line.length := (List.getElem?_eq_some_iff.mp here).1
    rw [List.getLast?_eq_getElem?, List.length_take, Nat.min_eq_left (by omega),
      List.getElem?_take_of_lt (by omega)]
    exact here
  have plain := (alone.2 rfl).1 _ front
  rw [named _ (List.getElem_mem inside)] at plain
  cases plain

namespace LeftToRight

variable {matching : Matching} {pattern line : Text}

/-- Positions before the first place can be left out. -/
theorem of_later {start later : Nat} {places : List Nat} (reached : start ≤ later)
    (chosen : LeftToRight matching pattern line start places)
    (none : ∀ place ∈ places.head?, later ≤ place) :
    LeftToRight matching pattern line later places := by
  cases chosen with
  | done nowhere =>
    refine .done fun place behind => ?_
    exact nowhere place (by omega)
  | next first admissible leftmost rest =>
    refine .next (none _ rfl) admissible (fun other behind before => ?_) rest
    exact leftmost other (by omega) before

/-- The places chosen as whole identifiers are among those chosen as plain text, in their order. -/
theorem sublist_literal (named : ∀ c ∈ pattern, isPart c = true) {start : Nat}
    {literals wholes : List Nat} (chosen : LeftToRight .literal pattern line start literals)
    (chosen' : LeftToRight .wholeIdentifier pattern line start wholes) :
    wholes.Sublist literals := by
  induction chosen generalizing wholes with
  | done nowhere =>
    cases chosen' with
    | done => exact .slnil
    | next reached admissible => exact absurd admissible.literal (nowhere _ reached)
  | @next start place later reached stands leftmost rest ih =>
    cases chosen' with
    | done => exact List.nil_sublist _
    | @next _ whole others reached' alone leftmost' rest' =>
      have notBefore : place ≤ whole := by
        apply Nat.le_of_not_lt
        intro before
        exact leftmost whole reached' before alone.literal
      by_cases same : whole = place
      · subst same
        exact (ih rest').cons_cons whole
      · -- the whole identifier is behind all of the literal occurrence
        have behind := Matching.AdmissibleAt.end_le named stands.1 alone (by omega)
        have further : LeftToRight .wholeIdentifier pattern line (place + pattern.length)
            (whole :: others) := by
          refine of_later (by omega) (.next reached' alone leftmost' rest') ?_
          intro first same'
          cases same'
          exact behind
        exact (ih further).cons place

end LeftToRight

/-- What a rule for every occurrence makes of a line, told by the places it has chosen. -/
theorem Rule.exists_places {pattern : Text} (filled : pattern ≠ []) (matching : Matching)
    (replacement line : Text) :
    ∃ places, LeftToRight matching pattern line 0 places ∧
      (Rule.mk pattern replacement .all).apply matching line =
        ⟨replacedAt line pattern.length replacement 0 places, places.length⟩ := by
  have back : (Cut.ofLine matching pattern line).fillAll pattern = line.drop 0 :=
    Cut.fillAll_ofLine matching pattern line
  refine ⟨_, Cut.leftToRight_ofLine matching filled line, ?_⟩
  simp only [Rule.apply, substitute, Cut.fillAll_eq_replacedAt back, Cut.length_places,
    Cut.occurrences]

/-- Matching whole identifiers only narrows literal matching. Of the places in a line where an
identifier is replaced as plain text, those where it is replaced as a whole identifier are some, in
the same order; so they are no more, and if they are as many, the line becomes the same. -/
theorem wholeIdentifier_narrows_literal {pattern : Text} (bare : pattern.isIdentifier = true)
    (replacement line : Text) :
    let rule : Rule := ⟨pattern, replacement, .all⟩
    ∃ wholes literals,
      LeftToRight .wholeIdentifier pattern line 0 wholes ∧
      LeftToRight .literal pattern line 0 literals ∧
      rule.apply .wholeIdentifier line =
        ⟨replacedAt line pattern.length replacement 0 wholes, wholes.length⟩ ∧
      rule.apply .literal line =
        ⟨replacedAt line pattern.length replacement 0 literals, literals.length⟩ ∧
      wholes.Sublist literals ∧
      (rule.apply .wholeIdentifier line).count ≤ (rule.apply .literal line).count ∧
      ((rule.apply .wholeIdentifier line).count = (rule.apply .literal line).count →
        rule.apply .wholeIdentifier line = rule.apply .literal line) := by
  intro rule
  obtain ⟨filled, named⟩ := all_isPart_of_isIdentifier bare
  obtain ⟨wholes, chosenWhole, made⟩ :=
    Rule.exists_places filled .wholeIdentifier replacement line
  obtain ⟨literals, chosen, made'⟩ := Rule.exists_places filled .literal replacement line
  have among := LeftToRight.sublist_literal named chosen chosenWhole
  refine ⟨wholes, literals, chosenWhole, chosen, made, made', among, ?_, ?_⟩
  · rw [made, made']
    exact among.length_le
  · rw [made, made']
    intro asMany
    rw [among.eq_of_length asMany]

/-- Literal occurrences of a name that overlaps itself, inside longer runs and as a whole one. -/
theorem wholeIdentifier_narrows_literal_overlapping :
    Text.isIdentifier "aa" = true ∧
    (Rule.mk "aa" "b" .all).apply .wholeIdentifier "aaaaa aa.aa1" = ⟨"aaaaa b.aa1", 1⟩ ∧
    (Rule.mk "aa" "b" .all).apply .literal "aaaaa aa.aa1" = ⟨"bba b.b1", 4⟩ ∧
    (∃ wholes literals, LeftToRight .wholeIdentifier "aa" "aaaaa aa.aa1" 0 wholes ∧
      LeftToRight .literal "aa" "aaaaa aa.aa1" 0 literals ∧ wholes.Sublist literals ∧
      wholes.length = 1 ∧ literals.length = 4) ∧
    (Rule.mk "aa" "b" .all).apply .wholeIdentifier "aa(aa)" =
      (Rule.mk "aa" "b" .all).apply .literal "aa(aa)" := by
  have bare : Text.isIdentifier "aa" = true := by decide +kernel
  have whole : (Rule.mk "aa" "b" .all).apply .wholeIdentifier "aaaaa aa.aa1" =
      ⟨"aaaaa b.aa1", 1⟩ := by decide +kernel
  have plain : (Rule.mk "aa" "b" .all).apply .literal "aaaaa aa.aa1" = ⟨"bba b.b1", 4⟩ := by
    decide +kernel
  obtain ⟨wholes, literals, chosen, chosen', made, made', among, -, -⟩ :=
    wholeIdentifier_narrows_literal bare "b" "aaaaa aa.aa1"
  obtain ⟨-, -, -, -, -, -, -, -, same⟩ := wholeIdentifier_narrows_literal bare "b" "aa(aa)"
  have one : wholes.length = 1 := congrArg Edit.count (made.symm.trans whole)
  have four : literals.length = 4 := congrArg Edit.count (made'.symm.trans plain)
  exact ⟨bare, whole, plain, ⟨wholes, literals, chosen, chosen', among, one, four⟩,
    same (by decide +kernel)⟩

end TreeMigration
