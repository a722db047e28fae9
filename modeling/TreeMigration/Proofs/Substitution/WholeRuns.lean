import TreeMigration.Proofs.Identifier.Runs
import TreeMigration.Proofs.Substitution.Replacing
import Mathlib.Data.List.Count

/-!
Whole identifiers are the runs of a line. An occurrence of an identifier between characters of none
is a maximal run of identifier characters, so looking for the text and testing its neighbours finds
the runs equal to the pattern, and replacing them leaves all other runs as they are.

`Cut.atPieces` cuts a text at those of its pieces that are the pattern, without looking for
occurrences. `ofLine_eq_atPieces` says that this is the same cut, by induction on the pieces: within
a run nothing but the whole run can be chosen (`eq_of_admitted`), and between runs nothing at all
(`ne_of_gap`). The pattern has to be a bare identifier; any other text is never planned to be
matched as a whole.

What substitution does is then said in terms of runs. For `all`, `runs_renamed` gives the runs of
the result: every run that is the name gives way to those of the replacement, which need not be one
run, and every other run stays.
-/
namespace TreeMigration

open Identifier

namespace Cut

/-- A text cut at those of its pieces that are the pattern. -/
def atPieces (pattern : Text) : List Text → Cut
  | [] => ⟨[], []⟩
  | piece :: later =>
    let next := atPieces pattern later
    if piece = pattern then ⟨[], next.start :: next.later⟩
    else ⟨piece ++ next.start, next.later⟩

theorem fillAll_atPieces (pattern filling : Text) (pieces : List Text) :
    (atPieces pattern pieces).fillAll filling =
      pieces.flatMap fun piece => if piece = pattern then filling else piece := by
  induction pieces with
  | nil => rfl
  | cons piece later ih =>
    rw [List.flatMap_cons, ← ih, atPieces]
    split
    · simp [fillAll]
    · simp [fillAll]

theorem fillFirst_atPieces (pattern filling : Text) (pieces : List Text) :
    (atPieces pattern pieces).fillFirst pattern filling =
      (pieces.replace pattern filling).flatten := by
  induction pieces with
  | nil => rfl
  | cons piece later ih =>
    by_cases chosen : piece = pattern
    · have same : (atPieces pattern later).fillAll pattern = later.flatten := by
        rw [fillAll_atPieces, List.flatten_eq_flatMap]
        congr 1
        funext other
        split
        · rename_i equal
          exact equal.symm
        · rfl
      simpa [atPieces, chosen, fillFirst] using same
    · have other : (pattern == piece) = false := by simpa using Ne.symm chosen
      rw [atPieces, if_neg chosen, List.replace_cons, other, List.flatten_cons, ← ih]
      cases shape : (atPieces pattern later).later with
      | nil => simp [fillFirst, shape]
      | cons second others => simp [fillFirst, shape]

theorem occurrences_atPieces (pattern : Text) (pieces : List Text) :
    (atPieces pattern pieces).occurrences = pieces.count pattern := by
  induction pieces with
  | nil => rfl
  | cons piece later ih =>
    rw [atPieces, List.count_cons, ← ih]
    split
    · rename_i chosen
      simp [occurrences, chosen]
    · rename_i other
      simp [occurrences, other]

/-- Characters at none of which an occurrence is chosen stay in front of the rest of the cut. -/
theorem ofRest_passed {matching : Matching} {pattern : Text} {before : Option Char}
    {passed : Text} (rest : Text)
    (unchosen : ∀ front back, passed = front ++ back → back ≠ [] →
      pattern <+: back ++ rest →
        matching.admits (front.getLast?.or before) ((back ++ rest).drop pattern.length).head? =
          false) :
    ofRest matching pattern before 0 (passed ++ rest) =
      ⟨passed ++ (ofRest matching pattern (passed.getLast?.or before) 0 rest).start,
        (ofRest matching pattern (passed.getLast?.or before) 0 rest).later⟩ := by
  induction passed generalizing before with
  | nil => rfl
  | cons c later ih =>
    have here := unchosen [] (c :: later) rfl (List.cons_ne_nil c later)
    have further := @ih (some c) (fun front back whole filled begins => by
      have there := unchosen (c :: front) back (by rw [whole]; rfl) filled begins
      rw [List.getLast?_cons] at there
      cases shape : front.getLast? with
      | none => simpa [shape] using there
      | some last => simpa [shape] using there)
    have notChosen : ¬ (pattern.isPrefixOf (c :: (later ++ rest)) &&
        matching.admits before ((c :: (later ++ rest)).drop pattern.length).head?) = true := by
      rw [Bool.and_eq_true, List.isPrefixOf_iff_prefix]
      intro chosen
      have refused := here chosen.1
      simp only [List.getLast?_nil, Option.none_or, List.cons_append] at refused
      rw [refused] at chosen
      cases chosen.2
    have last : (later.getLast?.or (some c)) = (c :: later).getLast?.or before := by
      rw [List.getLast?_cons]
      cases later.getLast? <;> rfl
    rw [List.cons_append, ofRest, if_neg notChosen, further, last]
    rfl

/-- A run can be chosen only if it is the whole pattern: a pattern that begins it and ends before it
is followed by an identifier character, and one that goes on behind it has a character of none. -/
theorem eq_of_admitted {pattern run rest : Text} {before : Option Char}
    (named : ∀ c ∈ pattern, isPart c = true) (alike : ∀ c ∈ run, isPart c = true)
    (other : ∀ c ∈ rest.head?, isPart c ≠ true) (begins : pattern <+: run ++ rest)
    (admitted : Matching.wholeIdentifier.admits before
      ((run ++ rest).drop pattern.length).head? = true) : run = pattern := by
  obtain ⟨behind, whole⟩ := begins
  rw [← whole, List.drop_left] at admitted
  have plain := ((Bool.and_eq_true _ _).mp admitted).2
  rcases List.append_eq_append_iff.mp whole with ⟨more, longer, rfl⟩ | ⟨more, shorter, split⟩
  · cases more with
    | nil => simpa using longer
    | cons c later =>
      have inside := alike c (by simp [longer])
      simp [inside] at plain
  · cases more with
    | nil => simpa using shorter.symm
    | cons c later =>
      have first : c ∈ rest.head? := by simp [split]
      exact absurd (named c (by simp [shorter])) (other c first)

/-- Characters of no identifier are no name. -/
theorem ne_of_gap {pattern gap : Text} (named : ∀ c ∈ pattern, isPart c = true) (filled : gap ≠ [])
    (plain : ∀ c ∈ gap, isPart c = false) : gap ≠ pattern := by
  rintro rfl
  obtain ⟨c, inside⟩ := List.exists_mem_of_ne_nil gap filled
  cases (named c inside).symm.trans (plain c inside)

/-- Looking for an identifier that stands alone finds the pieces of a text that are the identifier,
if the text does not go on with an identifier that began before it. -/
theorem ofRest_eq_atPieces {pattern : Text} (filled : pattern ≠ [])
    (named : ∀ c ∈ pattern, isPart c = true) (t : Text) {before : Option Char}
    (apart : (∃ c ∈ t.head?, isPart c = true) → before.any isPart = false) :
    ofRest .wholeIdentifier pattern before 0 t = atPieces pattern (pieces t) := by
  induction t using induction_on_pieces generalizing before with
  | nil => rfl
  | step kind piece rest nonempty alike other ih =>
    rw [pieces_append nonempty alike other, atPieces]
    cases kind with
    | false =>
      have noPattern : ∀ back, back ≠ [] → back ⊆ piece → ¬ pattern <+: back ++ rest := by
        intro back some within begins
        obtain ⟨c, later, rfl⟩ := List.exists_cons_of_ne_nil filled
        obtain ⟨d, others, rfl⟩ := List.exists_cons_of_ne_nil some
        have same : c = d := (List.cons_prefix_cons.mp begins).1
        have inside := alike d (within List.mem_cons_self)
        rw [← same, named c List.mem_cons_self] at inside
        cases inside
      have apart' : (piece.getLast?.or before).any isPart = false := by
        rw [List.getLast?_eq_some_getLast nonempty]
        exact alike _ (List.getLast_mem nonempty)
      rw [if_neg (ne_of_gap named nonempty alike), ofRest_passed rest, ih fun _ => apart']
      intro front back whole some begins
      exact absurd begins (noPattern back some (whole ▸ List.subset_append_right _ _))
    | true =>
      have plain : before.any isPart = false := by
        obtain ⟨c, later, rfl⟩ := List.exists_cons_of_ne_nil nonempty
        exact apart ⟨c, rfl, alike c List.mem_cons_self⟩
      have ended : ∀ last : Option Char,
          (∃ c ∈ rest.head?, isPart c = true) → last.any isPart = false :=
        fun last ⟨c, first, inside⟩ => absurd inside (other c first)
      by_cases same : piece = pattern
      · subst same
        have admitted : Matching.wholeIdentifier.admits before rest.head? = true := by
          cases first : rest.head? with
          | none => simp [Matching.admits, plain]
          | some c => simpa [Matching.admits, plain] using other c first
        rw [ofRest_chosen filled admitted, if_pos rfl, ih (ended _)]
      · rw [if_neg same, ofRest_passed rest, ih (ended _)]
        intro front back whole some begins
        rw [← Bool.not_eq_true]
        intro admitted
        cases shape : front.getLast? with
        | none =>
          obtain rfl := List.getLast?_eq_none_iff.mp shape
          obtain rfl : piece = back := whole
          exact same (eq_of_admitted named alike other begins admitted)
        | some last =>
          -- the character before is one of the run
          have inside : isPart last = true :=
            alike last (whole ▸ List.mem_append_left _ (List.mem_of_mem_getLast? shape))
          simp [shape, Matching.admits, inside] at admitted

theorem ofLine_eq_atPieces {pattern : Text} (bare : pattern.isIdentifier = true) (line : Text) :
    ofLine .wholeIdentifier pattern line = atPieces pattern (pieces line) := by
  obtain ⟨filled, named⟩ := all_isPart_of_isIdentifier bare
  have nonempty : pattern.isEmpty = false := by simpa using filled
  simp only [ofLine, nonempty, Bool.false_eq_true, if_false]
  exact ofRest_eq_atPieces filled named line fun _ => rfl

end Cut

/-- A text with another one put in place of each of its runs that are a name. -/
def Identifier.renamed (name filling t : Text) : Text :=
  (pieces t).flatMap fun piece => if piece = name then filling else piece

section renamed

variable {name : Text} (named : ∀ c ∈ name, isPart c = true)
include named

/-- A text that begins with no identifier character does so after renaming. -/
theorem head_renamed {filling t : Text} (plain : ∀ c ∈ t.head?, isPart c = false) :
    ∀ c ∈ (renamed name filling t).head?, isPart c = false := by
  induction t using induction_on_pieces with
  | nil => exact plain
  | step kind piece rest filled alike other _ =>
    obtain ⟨d, later, shape⟩ := List.exists_cons_of_ne_nil filled
    have gap : isPart d = false := plain d (by simp [shape])
    have same : kind = false := (alike d (by simp [shape])).symm.trans gap
    subst same
    rw [renamed, pieces_append filled alike other, List.flatMap_cons,
      if_neg (Cut.ne_of_gap named filled alike)]
    intro c first
    have here : c = d := by simpa [shape] using first.symm
    rw [here]
    exact gap

/-- Renaming puts the runs of the filling in place of each run that is the name, and leaves every
other run as it was. -/
theorem runs_renamed (filling t : Text) :
    runs (renamed name filling t) =
      (runs t).flatMap fun run => if run = name then runs filling else [run] := by
  induction t using induction_on_pieces with
  | nil => rfl
  | step kind piece rest filled alike other ih =>
    have whole : renamed name filling (piece ++ rest) =
        (if piece = name then filling else piece) ++ renamed name filling rest := by
      rw [renamed, pieces_append filled alike other, List.flatMap_cons]
      rfl
    rw [whole, runs_append filled alike other]
    cases kind with
    | false =>
      rw [if_neg (Cut.ne_of_gap named filled alike), runs_gap_append alike, ih]
      rfl
    | true =>
      have plain : ∀ c ∈ rest.head?, isPart c = false :=
        fun c first => by simpa using other c first
      have alone : runs piece = [piece] := by
        have single := @runs_append true piece [] filled alike (by simp)
        rwa [List.append_nil] at single
      rw [runs_append_gap _ (head_renamed named plain), ih, if_pos rfl, List.flatMap_cons]
      split
      · rfl
      · rw [alone]

end renamed

/-- Whole-identifier substitution renames runs. With mode `all` every run of the line that is the
pattern is replaced, with mode `first` only the first, and the replacements are counted; the runs of
the result of `all` are those of the line, with the runs of the replacement for each one replaced. -/
theorem apply_wholeIdentifier (pattern replacement line : Text)
    (bare : pattern.isIdentifier = true) :
    (Rule.mk pattern replacement .all).apply .wholeIdentifier line =
      ⟨(pieces line).flatMap fun piece => if piece = pattern then replacement else piece,
        (runs line).count pattern⟩ ∧
    (Rule.mk pattern replacement .first).apply .wholeIdentifier line =
      ⟨((pieces line).replace pattern replacement).flatten, min 1 ((runs line).count pattern)⟩ ∧
    runs ((Rule.mk pattern replacement .all).apply .wholeIdentifier line).text =
      (runs line).flatMap fun run => if run = pattern then runs replacement else [run] := by
  have named := (all_isPart_of_isIdentifier bare).2
  have counted : (pieces line).count pattern = (runs line).count pattern := by
    have run : pattern.all isPart = true := List.all_eq_true.mpr named
    rw [runs, List.count_filter]
    exact run
  have all : (Rule.mk pattern replacement .all).apply .wholeIdentifier line =
      ⟨renamed pattern replacement line, (runs line).count pattern⟩ := by
    simp only [Rule.apply, substitute, Cut.ofLine_eq_atPieces bare, Cut.fillAll_atPieces,
      Cut.occurrences_atPieces, counted, renamed]
  refine ⟨all, ?_, ?_⟩
  · simp only [Rule.apply, substitute, Cut.ofLine_eq_atPieces bare, Cut.fillFirst_atPieces,
      Cut.occurrences_atPieces, counted]
  · rw [all]
    exact runs_renamed named replacement line

/-- Occurrences inside longer runs stay, also where a run begins with a digit. -/
theorem apply_wholeIdentifier_embedded :
    Text.isIdentifier "aa" = true ∧
    (Rule.mk "aa" "b-c" .all).apply .wholeIdentifier "aa.aaa 1aa-aa" = ⟨"b-c.aaa 1aa-b-c", 2⟩ ∧
    (Rule.mk "aa" "b-c" .first).apply .wholeIdentifier "aaa aa-aa" = ⟨"aaa b-c-aa", 1⟩ ∧
    runs "b-c.aaa 1aa-b-c" = ["b", "c", "aaa", "1aa", "b", "c"] := by
  have bare : Text.isIdentifier "aa" = true := by decide +kernel
  obtain ⟨all, -, ran⟩ := apply_wholeIdentifier "aa" "b-c" "aa.aaa 1aa-aa" bare
  obtain ⟨-, first, -⟩ := apply_wholeIdentifier "aa" "b-c" "aaa aa-aa" bare
  have whole : (Rule.mk "aa" "b-c" .all).apply .wholeIdentifier "aa.aaa 1aa-aa" =
      ⟨"b-c.aaa 1aa-b-c", 2⟩ := by
    rw [all]
    decide +kernel
  rw [whole] at ran
  refine ⟨bare, whole, ?_, ?_⟩
  · rw [first]
    decide +kernel
  · rw [ran]
    decide +kernel

end TreeMigration
