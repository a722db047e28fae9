import TreeMigration.Proofs.Substitution.Restoring

/-!
Where a substitution replaces, told by positions in the line. The places are chosen from left to
right, each the leftmost admissible one at or after the end of the one before, so the line alone
decides them; the text of the line between them is copied, and nothing put in is looked at again.

`Matching.AdmissibleAt` is a statement about one position of the line, `LeftToRight` the choice as
an inductive relation, and `replacedAt` the line with some of its positions replaced. None of them
knows how a line is cut. `LeftToRight.unique` says that there is one choice only, so it is enough to
show that the places of a cut are such a choice (`leftToRight_ofLine`).

The cut looks at the rest of the line with the character before it, the relation at positions in the
whole line. `chosen_iff` translates between them, and the induction carries the beginning of the
line that has been passed. What is filled in then follows from the lengths of the stretches between
the places.
-/
namespace TreeMigration

/-- A pattern stands at a place of a line and may be replaced there. A whole identifier may be only
if the characters before and after it in the line, where there are any, are not of an identifier. -/
def Matching.AdmissibleAt (matching : Matching) (pattern line : Text) (place : Nat) : Prop :=
  pattern <+: line.drop place ∧
    (matching = .wholeIdentifier →
      (∀ c, (line.take place).getLast? = some c → Identifier.isPart c = false) ∧
      ∀ c, (line.drop (place + pattern.length)).head? = some c → Identifier.isPart c = false)

/-- The places chosen in a line from a position on: each is the leftmost admissible one at or after
the end of the occurrence before, and after the last there is none. -/
inductive LeftToRight (matching : Matching) (pattern line : Text) : Nat → List Nat → Prop where
  | done {start : Nat}
    (none : ∀ place, start ≤ place → ¬ matching.AdmissibleAt pattern line place) :
    LeftToRight matching pattern line start []
  | next {start place : Nat} {later : List Nat} (reached : start ≤ place)
    (admissible : matching.AdmissibleAt pattern line place)
    (leftmost : ∀ other, start ≤ other → other < place →
      ¬ matching.AdmissibleAt pattern line other)
    (rest : LeftToRight matching pattern line (place + pattern.length) later) :
    LeftToRight matching pattern line start (place :: later)

/-- The line from a position on, in which so many characters from each of the places on are
replaced. -/
def replacedAt (line : Text) (length : Nat) (replacement : Text) : Nat → List Nat → Text
  | copied, [] => line.drop copied
  | copied, place :: later =>
    (line.take place).drop copied ++ replacement ++
      replacedAt line length replacement (place + length) later

def Mode.used (mode : Mode) (places : List Nat) : List Nat :=
  match mode with
  | .first => places.take 1
  | .all => places

theorem Matching.admits_iff {matching : Matching} {before after : Option Char} :
    matching.admits before after = true ↔
      (matching = .wholeIdentifier → (∀ c, before = some c → Identifier.isPart c = false) ∧
        ∀ c, after = some c → Identifier.isPart c = false) := by
  cases matching with
  | literal => simp [admits]
  | wholeIdentifier => cases before <;> cases after <;> simp [admits]

namespace LeftToRight

variable {matching : Matching} {pattern line : Text}

/-- A line has one choice of places. -/
theorem unique {start : Nat} {places others : List Nat}
    (chosen : LeftToRight matching pattern line start places)
    (chosen' : LeftToRight matching pattern line start others) : places = others := by
  induction chosen generalizing others with
  | done none =>
    cases chosen' with
    | done => rfl
    | next reached admissible => exact absurd admissible (none _ reached)
  | @next start place later reached admissible leftmost rest ih =>
    cases chosen' with
    | done none => exact absurd admissible (none _ reached)
    | @next _ other _ reached' admissible' leftmost' rest' =>
      -- neither of the two first places can be to the left of the other
      have same : place = other := by
        apply Nat.le_antisymm
        · apply Nat.le_of_not_lt
          intro before
          exact leftmost other reached' before admissible'
        · apply Nat.le_of_not_lt
          intro before
          exact leftmost' place reached before admissible
      subst same
      rw [ih rest']

/-- A position that is not admissible itself can be passed. -/
theorem of_passed {start : Nat} {places : List Nat}
    (passed : ¬ matching.AdmissibleAt pattern line start)
    (chosen : LeftToRight matching pattern line (start + 1) places) :
    LeftToRight matching pattern line start places := by
  have none : ∀ other, start ≤ other → other < start + 1 →
      ¬ matching.AdmissibleAt pattern line other := by
    intro other reached before
    have here : other = start := by omega
    rwa [here]
  cases chosen with
  | done later =>
    refine .done fun place reached => ?_
    by_cases before : place < start + 1
    · exact none place reached before
    · exact later place (by omega)
  | next reached admissible leftmost rest =>
    refine .next (by omega) admissible (fun other reached' before => ?_) rest
    by_cases here : other < start + 1
    · exact none other reached' here
    · exact leftmost other (by omega) before

end LeftToRight

namespace Cut

/-- Where the occurrences were that a cut took out, if what it has cut begins at an offset. -/
def places (length : Nat) : Nat → Text → List Text → List Nat
  | _, _, [] => []
  | offset, start, piece :: later =>
    (offset + start.length) :: places length (offset + start.length + length) piece later

/-- A stretch of the rest of a line before an occurrence, and what is behind the occurrence. -/
theorem stretches_of_divided {line pattern start rest : Text} {offset : Nat}
    (divided : start ++ pattern ++ rest = line.drop offset) :
    (line.take (offset + start.length)).drop offset = start ∧
      line.drop (offset + start.length + pattern.length) = rest := by
  constructor
  · rw [List.drop_take, ← divided, Nat.add_sub_cancel_left, List.append_assoc, List.take_left]
  · rw [Nat.add_assoc, ← List.drop_drop, ← divided, ← List.length_append, List.drop_left]

/-- Filling every gap of a cut replaces the text at each of its places. -/
theorem fillAll_eq_replacedAt {line pattern : Text} {cut : Cut} {offset : Nat}
    (cuts : cut.fillAll pattern = line.drop offset) (replacement : Text) :
    cut.fillAll replacement =
      replacedAt line pattern.length replacement offset
        (places pattern.length offset cut.start cut.later) := by
  obtain ⟨start, later⟩ := cut
  induction later generalizing start offset with
  | nil => simpa [fillAll, replacedAt, places] using cuts
  | cons piece later ih =>
    have divided : start ++ pattern ++ fillAll ⟨piece, later⟩ pattern = line.drop offset := by
      simpa [fillAll] using cuts
    obtain ⟨front, back⟩ := stretches_of_divided divided
    rw [places, replacedAt, front, ← ih _ back.symm]
    simp [fillAll]

/-- Filling the first gap alone replaces the text at the first place. -/
theorem fillFirst_eq_replacedAt {line pattern : Text} {cut : Cut} {offset : Nat}
    (cuts : cut.fillAll pattern = line.drop offset) (replacement : Text) :
    cut.fillFirst pattern replacement =
      replacedAt line pattern.length replacement offset
        ((places pattern.length offset cut.start cut.later).take 1) := by
  obtain ⟨start, later⟩ := cut
  cases later with
  | nil => simpa [fillFirst, fillAll, replacedAt, places] using cuts
  | cons piece later =>
    have divided : start ++ pattern ++ fillAll ⟨piece, later⟩ pattern = line.drop offset := by
      simpa [fillAll] using cuts
    obtain ⟨front, back⟩ := stretches_of_divided divided
    simp only [fillFirst, places, List.take_succ_cons, List.take_zero, replacedAt, front, back]

theorem length_places (length offset : Nat) (start : Text) (later : List Text) :
    (places length offset start later).length = later.length := by
  induction later generalizing offset start with
  | nil => rfl
  | cons piece later ih => rw [places, List.length_cons, List.length_cons, ih]

/-- A place of a line is admissible if a cut that has come there would choose it. -/
theorem chosen_iff (matching : Matching) (pattern passed rest : Text) :
    (pattern.isPrefixOf rest &&
        matching.admits passed.getLast? (rest.drop pattern.length).head?) = true ↔
      matching.AdmissibleAt pattern (passed ++ rest) passed.length := by
  rw [Bool.and_eq_true, List.isPrefixOf_iff_prefix, Matching.admits_iff, Matching.AdmissibleAt,
    List.drop_left, List.take_left, ← List.drop_drop, List.drop_left]

/-- A cut takes out the occurrences at the places chosen from left to right. -/
theorem leftToRight_ofRest {matching : Matching} {pattern line : Text} (filled : pattern ≠ [])
    {before : Option Char} {inside : Nat} {rest : Text} (passed : Text)
    (whole : line = passed ++ rest) (last : before = passed.getLast?) :
    LeftToRight matching pattern line (passed.length + inside)
      (places pattern.length (passed.length + inside)
        (ofRest matching pattern before inside rest).start
        (ofRest matching pattern before inside rest).later) := by
  have positive : 0 < pattern.length := List.length_pos_iff.mpr filled
  have stepped : ∀ (passed : Text) (c : Char) (more : Nat),
      (passed ++ [c]).length + more = passed.length + 1 + more := by simp
  fun_induction ofRest matching pattern before inside rest generalizing passed with
  | case1 before inside =>
    apply LeftToRight.done
    intro place reached admissible
    -- behind the end of the line there is no room for the pattern
    have room := admissible.1.length_le
    simp only [whole, List.append_nil, List.length_drop] at room
    omega
  | case2 before inside c rest ih =>
    have further := ih (passed ++ [c]) (by simp [whole]) (by simp)
    rw [stepped, Nat.add_assoc, Nat.add_comm 1] at further
    exact further
  | case3 before c rest chosen next =>
    rename_i ih
    have further := ih (passed ++ [c]) (by simp [whole]) (by simp)
    have ends : passed.length + 1 + (pattern.length - 1) = passed.length + pattern.length := by
      omega
    rw [stepped, ends] at further
    rw [last, chosen_iff, ← whole] at chosen
    refine .next (Nat.le_refl _) chosen (fun other reached earlier => ?_) further
    simp only [List.length_nil, Nat.add_zero] at earlier
    omega
  | case4 before c rest passes next =>
    rename_i ih
    have further := ih (passed ++ [c]) (by simp [whole]) (by simp)
    rw [stepped] at further
    rw [last, chosen_iff, ← whole] at passes
    refine LeftToRight.of_passed passes ?_
    cases shape : next.later with
    | nil => simpa [next, shape, places] using further
    | cons piece later =>
      have offset : passed.length + (next.start.length + 1) =
          passed.length + 1 + next.start.length := by omega
      simp only [places, List.length_cons, Nat.add_zero, offset]
      simpa [next, shape, places] using further

theorem leftToRight_ofLine (matching : Matching) {pattern : Text} (filled : pattern ≠ [])
    (line : Text) :
    LeftToRight matching pattern line 0
      (places pattern.length 0 (ofLine matching pattern line).start
        (ofLine matching pattern line).later) := by
  have nonempty : pattern.isEmpty = false := by simpa using filled
  simp only [ofLine, nonempty, Bool.false_eq_true, if_false]
  simpa using leftToRight_ofRest filled [] (List.nil_append line).symm List.getLast?_nil.symm

end Cut

/-- A substitution agrees with its definition by positions: the line decides a list of places, each
the leftmost admissible one at or after the end of the occurrence before; at all of them, or the
first, the pattern is replaced, the text between them is that of the line, and as many replacements
are counted. An empty pattern is never replaced. -/
theorem apply_at_chosen_places (rule : Rule) (matching : Matching) (line : Text) :
    (rule.pattern = [] → rule.apply matching line = ⟨line, 0⟩) ∧
    (rule.pattern ≠ [] → ∃ places, LeftToRight matching rule.pattern line 0 places ∧
      (∀ others, LeftToRight matching rule.pattern line 0 others → others = places) ∧
      rule.apply matching line =
        ⟨replacedAt line rule.pattern.length rule.replacement 0 (rule.mode.used places),
          (rule.mode.used places).length⟩) := by
  obtain ⟨pattern, replacement, mode⟩ := rule
  constructor
  · rintro rfl
    cases mode with
    | all => simp [Rule.apply, substitute, Cut.ofLine, Cut.fillAll, Cut.occurrences]
    | first => simp [Rule.apply, substitute, Cut.ofLine, Cut.fillFirst, Cut.occurrences]
  · intro filled
    have chosen := Cut.leftToRight_ofLine matching filled line
    have back : (Cut.ofLine matching pattern line).fillAll pattern = line.drop 0 :=
      Cut.fillAll_ofLine matching pattern line
    refine ⟨_, chosen, fun others chosen' => chosen'.unique chosen, ?_⟩
    cases mode with
    | all =>
      have text := Cut.fillAll_eq_replacedAt back replacement
      simp only [Rule.apply, substitute, Mode.used, Cut.occurrences, Cut.length_places, text]
    | first =>
      have text := Cut.fillFirst_eq_replacedAt back replacement
      simp only [Rule.apply, substitute, Mode.used, Cut.occurrences, List.length_take,
        Cut.length_places, text]

/-- An occurrence that overlaps a refused one is chosen, one that overlaps a chosen one is not. -/
theorem apply_at_chosen_places_overlapping :
    ("a.a" : Text) ≠ [] ∧
    (∃ places, LeftToRight .wholeIdentifier "a.a" "ba.a.a.a a.a" 0 places ∧ places.length = 2) ∧
    (Rule.mk "a.a" "x" .all).apply .wholeIdentifier "ba.a.a.a a.a" = ⟨"ba.x.a x", 2⟩ ∧
    (Rule.mk [] "x" .all).apply .literal "ba" = ⟨"ba", 0⟩ := by
  have filled : ("a.a" : Text) ≠ [] := by decide +kernel
  have run : (Rule.mk "a.a" "x" .all).apply .wholeIdentifier "ba.a.a.a a.a" =
      ⟨"ba.x.a x", 2⟩ := by
    decide +kernel
  obtain ⟨places, chosen, -, replaced⟩ :=
    (apply_at_chosen_places ⟨"a.a", "x", .all⟩ .wholeIdentifier "ba.a.a.a a.a").2 filled
  rw [run] at replaced
  have counted : (2 : Nat) = places.length := congrArg Edit.count replaced
  refine ⟨filled, ⟨places, chosen, counted.symm⟩, run, ?_⟩
  exact (apply_at_chosen_places ⟨[], "x", .all⟩ .literal "ba").1 rfl

end TreeMigration
