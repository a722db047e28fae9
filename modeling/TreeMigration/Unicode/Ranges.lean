/-!
Sets of code points given as a table of closed ranges in ascending order. Membership stops at the
first range that ends at or above the code point, which ascending order justifies; every table in
this folder carries its order as a proved fact.

`Ranges.contains_iff` says that on an ascending table the early stop loses nothing: a code point is
found exactly if it lies in one of the ranges.
-/
namespace TreeMigration.Unicode

/-- Closed ranges of code points, first and last included. -/
abbrev Ranges := List (Nat × Nat)

/-- Looks at no range beyond the first one that could hold the code point. -/
def Ranges.contains : Ranges → Nat → Bool
  | [], _ => false
  | (low, high) :: later, code =>
    if code ≤ high then decide (low ≤ code) else Ranges.contains later code

/-- Every range is non-empty and starts above the end of the one before it. -/
def Ranges.ascendingFrom : Nat → Ranges → Bool
  | _, [] => true
  | start, (low, high) :: later =>
    decide (start ≤ low) && decide (low ≤ high) && Ranges.ascendingFrom (high + 1) later

/-- A code point below the start of an ascending table is in none of its ranges. -/
theorem Ranges.not_mem_of_lt {start code : Nat} {table : Ranges}
    (ordered : table.ascendingFrom start = true) (below : code < start) :
    ¬ ∃ range ∈ table, range.1 ≤ code ∧ code ≤ range.2 := by
  induction table generalizing start with
  | nil => simp
  | cons range later ih =>
    obtain ⟨low, high⟩ := range
    simp only [Ranges.ascendingFrom, Bool.and_eq_true, decide_eq_true_eq] at ordered
    have rest := ih ordered.2 (by omega)
    rintro ⟨found, member, inside⟩
    rcases List.mem_cons.mp member with rfl | member
    · have lower : low ≤ code := inside.1
      omega
    · exact rest ⟨found, member, inside⟩

/-- On an ascending table the early stop loses nothing. -/
theorem Ranges.contains_iff {start code : Nat} {table : Ranges}
    (ordered : table.ascendingFrom start = true) :
    table.contains code = true ↔ ∃ range ∈ table, range.1 ≤ code ∧ code ≤ range.2 := by
  induction table generalizing start with
  | nil => simp [Ranges.contains]
  | cons range later ih =>
    obtain ⟨low, high⟩ := range
    simp only [Ranges.ascendingFrom, Bool.and_eq_true, decide_eq_true_eq] at ordered
    by_cases within : code ≤ high
    · have rest := Ranges.not_mem_of_lt ordered.2 (by omega : code < high + 1)
      simp only [Ranges.contains, within, if_true, decide_eq_true_eq]
      constructor
      · intro lower
        exact ⟨(low, high), List.mem_cons_self, lower, within⟩
      · rintro ⟨found, member, inside⟩
        rcases List.mem_cons.mp member with rfl | member
        · exact inside.1
        · exact absurd ⟨found, member, inside⟩ rest
    · simp only [Ranges.contains, within, if_false, ih ordered.2]
      constructor
      · rintro ⟨found, member, inside⟩
        exact ⟨found, List.mem_cons_of_mem _ member, inside⟩
      · rintro ⟨found, member, inside⟩
        rcases List.mem_cons.mp member with rfl | member
        · exact absurd inside.2 within
        · exact ⟨found, member, inside⟩

end TreeMigration.Unicode
