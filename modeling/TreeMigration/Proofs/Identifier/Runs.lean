import TreeMigration.Identifier
import Mathlib.Data.List.SplitBy
import Mathlib.Data.List.TakeWhile

/-!
Texts as sequences of identifiers. A text is cut wherever identifier characters and others meet; the
pieces of identifier characters are its runs. What stands next to characters of no identifier has no
part in its neighbour's runs.

`pieces` is a grouping of the characters by what they are, so nothing is lost: the pieces put
together are the text. `induction_on_pieces` goes through a text piece by piece and is the induction
behind all statements about whole identifiers; at each step the piece in front is of one kind, and
what follows it is empty or begins with the other kind.

A run need not be an identifier, since it may begin with a digit. A bare identifier is its own only
run (`runs_of_isIdentifier`).
-/
namespace TreeMigration.Identifier

/-- A text cut wherever identifier characters and other characters meet. -/
def pieces (t : Text) : List Text := t.splitBy fun c d => isPart c == isPart d

def runs (t : Text) : List Text := (pieces t).filter fun piece => piece.all isPart

/-- Characters of one kind, before characters of the other kind or the end, are a piece. -/
theorem pieces_append {kind : Bool} {piece rest : Text} (filled : piece ≠ [])
    (alike : ∀ c ∈ piece, isPart c = kind) (other : ∀ c ∈ rest.head?, isPart c ≠ kind) :
    pieces (piece ++ rest) = piece :: pieces rest := by
  have boundary : ∀ c ∈ piece.getLast?, ∀ d ∈ rest.head?, (isPart c == isPart d) = false := by
    intro c last d first
    rw [alike c (List.mem_of_mem_getLast? last), beq_eq_false_iff_ne]
    exact (other d first).symm
  have chain : piece.IsChain fun c d => (isPart c == isPart d) = true := by
    apply List.Pairwise.isChain
    apply List.pairwise_of_forall_mem_list
    intro c inside d inside'
    simp [alike c inside, alike d inside']
  rw [pieces, List.splitBy_append boundary, List.splitBy_of_isChain filled chain]
  rfl

/-- What holds of the empty text, and of a text if it holds of what follows its first piece, holds
of every text. -/
theorem induction_on_pieces {motive : Text → Prop} (nil : motive [])
    (step : ∀ (kind : Bool) (piece rest : Text), piece ≠ [] → (∀ c ∈ piece, isPart c = kind) →
      (∀ c ∈ rest.head?, isPart c ≠ kind) → motive rest → motive (piece ++ rest))
    (t : Text) : motive t := by
  match t with
  | [] => exact nil
  | c :: later =>
    have divided : c :: later.takeWhile (fun d => isPart d == isPart c) ++
        later.dropWhile (fun d => isPart d == isPart c) = c :: later := by
      rw [List.cons_append, List.takeWhile_append_dropWhile]
    have shorter : (later.dropWhile fun d => isPart d == isPart c).length < (c :: later).length := by
      rw [List.length_cons]
      exact Nat.lt_succ_of_le (List.dropWhile_sublist _).length_le
    rw [← divided]
    apply step (isPart c) _ _ (List.cons_ne_nil _ _)
    · intro d inside
      rcases List.mem_cons.mp inside with rfl | inside
      · rfl
      · simpa using List.mem_takeWhile_imp inside
    · intro d first
      have stop := List.head?_dropWhile_not (fun d => isPart d == isPart c) later
      rw [Option.mem_def.mp first] at stop
      simpa using stop
    · exact induction_on_pieces nil step _
termination_by t.length
decreasing_by exact shorter

/-- Only a piece of identifier characters is a run. -/
theorem runs_append {kind : Bool} {piece rest : Text} (filled : piece ≠ [])
    (alike : ∀ c ∈ piece, isPart c = kind) (other : ∀ c ∈ rest.head?, isPart c ≠ kind) :
    runs (piece ++ rest) = if kind then piece :: runs rest else runs rest := by
  rw [runs, pieces_append filled alike other]
  cases kind with
  | true =>
    have run : piece.all isPart = true := List.all_eq_true.mpr alike
    simp [runs, run]
  | false =>
    obtain ⟨c, later, rfl⟩ := List.exists_cons_of_ne_nil filled
    simp [runs, alike c List.mem_cons_self]

/-- Characters of no identifier in front of a text have no part in its runs. -/
theorem runs_gap_append {gap : Text} (plain : ∀ c ∈ gap, isPart c = false) (t : Text) :
    runs (gap ++ t) = runs t := by
  by_cases empty : gap = []
  · rw [empty, List.nil_append]
  induction t using induction_on_pieces with
  | nil => exact runs_append empty plain (by simp)
  | step kind piece rest filled alike other _ =>
    cases kind with
    | false =>
      have longer : ∀ c ∈ gap ++ piece, isPart c = false := by
        intro c inside
        exact (List.mem_append.mp inside).elim (plain c) (alike c)
      rw [← List.append_assoc, runs_append (by simp [empty]) longer other,
        runs_append filled alike other]
      simp
    | true =>
      apply runs_append empty plain
      intro c first
      obtain ⟨d, later, rfl⟩ := List.exists_cons_of_ne_nil filled
      have same : d = c := by simpa using first
      simp [← same, alike d List.mem_cons_self]

/-- Where a text does not begin with an identifier character, the runs before it end. -/
theorem runs_append_gap (s : Text) {t : Text} (plain : ∀ c ∈ t.head?, isPart c = false) :
    runs (s ++ t) = runs s ++ runs t := by
  induction s using induction_on_pieces with
  | nil => rfl
  | step kind piece rest filled alike other ih =>
    cases kind with
    | false =>
      rw [List.append_assoc, runs_gap_append alike, runs_gap_append alike, ih]
    | true =>
      have other' : ∀ c ∈ (rest ++ t).head?, isPart c ≠ true := by
        cases rest with
        | nil => simpa using plain
        | cons d later => simpa using other
      rw [List.append_assoc, runs_append filled alike other', runs_append filled alike other, ih]
      rfl

/-- A bare identifier is not empty and has identifier characters only. -/
theorem all_isPart_of_isIdentifier {t : Text} (bare : t.isIdentifier = true) :
    t ≠ [] ∧ ∀ c ∈ t, isPart c = true := by
  cases t with
  | nil => simp [Text.isIdentifier] at bare
  | cons c rest =>
    simp only [Text.isIdentifier, Bool.and_eq_true, List.all_eq_true] at bare
    refine ⟨List.cons_ne_nil c rest, fun d inside => ?_⟩
    rcases List.mem_cons.mp inside with rfl | inside
    · exact isPart_of_isStart bare.1
    · exact bare.2 d inside

/-- A bare identifier is its own only run. -/
theorem runs_of_isIdentifier {t : Text} (bare : t.isIdentifier = true) : runs t = [t] := by
  obtain ⟨filled, named⟩ := all_isPart_of_isIdentifier bare
  have single : runs (t ++ []) = [t] := runs_append filled named (by simp)
  rwa [List.append_nil] at single

end TreeMigration.Identifier
