import TreeMigration.Text.Basic
import Mathlib.Data.List.Basic

/-!
Angle brackets in a text. Where they are balanced, the first closing mark ends the outermost bracket
only if nothing is nested in it; otherwise what is left behind that mark closes more brackets than
it opens.

`Balanced` is the grammar: plain characters, and brackets around balanced text. Whatever a balanced
text begins with has opened at least as many brackets as it has closed (`Balanced.count_le`), and
counting is all that is needed. `Balanced.division` compares the first closing mark behind an opened
bracket with the mark that really ends it.

The last lemmas place a name in a divided text: a text without the mark lies wholly before or wholly
behind it.
-/
namespace TreeMigration.Text

/-- Texts whose angle brackets are balanced. -/
inductive Balanced : Text → Prop
  | nil : Balanced []
  | plain {c : Char} {rest : Text} (unopened : c ≠ '<') (unclosed : c ≠ '>')
      (behind : Balanced rest) : Balanced (c :: rest)
  | bracket {inside rest : Text} (nested : Balanced inside) (behind : Balanced rest) :
      Balanced ('<' :: (inside ++ '>' :: rest))

theorem Balanced.of_plain {t : Text} (unopened : '<' ∉ t) (unclosed : '>' ∉ t) : Balanced t := by
  induction t with
  | nil => exact .nil
  | cons c rest ih =>
    rw [List.mem_cons, not_or] at unopened unclosed
    exact .plain (Ne.symm unopened.1) (Ne.symm unclosed.1) (ih unopened.2 unclosed.2)

theorem Balanced.append {s t : Text} (first : Balanced s) (second : Balanced t) :
    Balanced (s ++ t) := by
  induction first with
  | nil => exact second
  | plain unopened unclosed _ ih => exact .plain unopened unclosed ih
  | bracket nested _ _ ih =>
    rw [List.cons_append, List.append_assoc, List.cons_append]
    exact .bracket nested ih

theorem Balanced.count_eq {t : Text} (balanced : Balanced t) : t.count '<' = t.count '>' := by
  induction balanced with
  | nil => rfl
  | plain unopened unclosed _ ih =>
    rw [List.count_cons_of_ne unopened, List.count_cons_of_ne unclosed, ih]
  | bracket _ _ ihInside ihRest =>
    simp only [List.count_cons, List.count_append, beq_self_eq_true, if_true,
      show ('<' == '>') = false by decide, show ('>' == '<') = false by decide,
      Bool.false_eq_true, if_false]
    omega

/-- A beginning of a balanced text closes no more brackets than it opens. -/
theorem Balanced.count_le {t front back : Text} (balanced : Balanced t)
    (whole : t = front ++ back) : front.count '>' ≤ front.count '<' := by
  induction balanced generalizing front back with
  | nil =>
    rw [(List.append_eq_nil_iff.mp whole.symm).1]
    exact Nat.le_refl _
  | plain unopened unclosed _ ih =>
    cases front with
    | nil => exact Nat.le_refl _
    | cons d front =>
      obtain ⟨rfl, later⟩ := List.cons.inj whole
      rw [List.count_cons_of_ne unopened, List.count_cons_of_ne unclosed]
      exact ih later
  | @bracket inside rest nested _ ihInside ihRest =>
    cases front with
    | nil => exact Nat.le_refl _
    | cons d front =>
      obtain ⟨rfl, later⟩ := List.cons.inj whole
      rw [List.count_cons_self, List.count_cons_of_ne (by decide)]
      rcases List.append_eq_append_iff.mp later with ⟨more, rfl, cut⟩ | ⟨more, within, -⟩
      · cases more with
        | nil =>
          have level := nested.count_eq
          simp only [List.append_nil]
          omega
        | cons e more =>
          obtain ⟨rfl, behind⟩ := List.cons.inj cut
          have level := nested.count_eq
          have further := ihRest behind
          rw [List.count_append, List.count_append, List.count_cons_self,
            List.count_cons_of_ne (by decide)]
          omega
      · exact Nat.le_succ_of_le (ihInside within)

/-- Two divisions of a text at the same mark are the same, or the one at the first such mark is in
front of the other. -/
theorem division_at_first {mark : Char} {front behind front' behind' : Text} (first : mark ∉ front)
    (same : front ++ mark :: behind = front' ++ mark :: behind') :
    (front' = front ∧ behind' = behind) ∨
      ∃ more, front' = front ++ mark :: more ∧ behind = more ++ mark :: behind' := by
  rcases List.append_eq_append_iff.mp same with ⟨more, longer, cut⟩ | ⟨more, longer, cut⟩
  · cases more with
    | nil =>
      rw [List.append_nil] at longer
      exact .inl ⟨longer, (List.cons.inj cut).2.symm⟩
    | cons c more =>
      obtain ⟨rfl, later⟩ := List.cons.inj cut
      exact .inr ⟨more, longer, later⟩
  · cases more with
    | nil =>
      rw [List.append_nil] at longer
      exact .inl ⟨longer.symm, (List.cons.inj cut).2⟩
    | cons c more =>
      obtain ⟨rfl, -⟩ := List.cons.inj cut
      exact absurd (longer ▸ List.mem_append_right _ List.mem_cons_self) first

/-- The first closing mark behind an opened bracket ends it, or brackets are nested in it and what
is cut off closes at least as many as it opens. -/
theorem Balanced.division {inside inner rest behind : Text} (balanced : Balanced inside)
    (unclosed : '>' ∉ inner) (same : inner ++ '>' :: behind = inside ++ '>' :: rest) :
    ('<' ∉ inside ∧ inner = inside ∧ behind = rest) ∨
      ∃ cut, behind = cut ++ '>' :: rest ∧ cut.count '<' ≤ cut.count '>' := by
  rcases division_at_first unclosed same with ⟨rfl, rfl⟩ | ⟨cut, rfl, rfl⟩
  · have level := balanced.count_eq
    rw [List.count_eq_zero.mpr unclosed] at level
    exact .inl ⟨List.count_eq_zero.mp level, rfl, rfl⟩
  · refine .inr ⟨cut, rfl, ?_⟩
    have level := balanced.count_eq
    have early := balanced.count_le (show inner ++ '>' :: cut = (inner ++ ['>']) ++ cut by simp)
    have outside : inner.count '>' = 0 := List.count_eq_zero.mpr unclosed
    simp only [List.count_append, List.count_cons_self, List.count_nil,
      List.count_cons_of_ne (show '>' ≠ '<' by decide)] at level early
    omega

/-- A name without the mark in it ends before the mark, or it stands behind it. -/
theorem ends_before_mark_or {mark : Char} {lead name rest front behind : Text}
    (unmarked : mark ∉ name) (same : lead ++ (name ++ rest) = front ++ mark :: behind) :
    (∃ more, front = lead ++ (name ++ more) ∧ rest = more ++ mark :: behind) ∨
      ∃ more, lead = front ++ mark :: more := by
  rcases List.append_eq_append_iff.mp same with ⟨more, rfl, cut⟩ | ⟨more, rfl, cut⟩
  · rcases List.append_eq_append_iff.mp cut with ⟨left, rfl, stop⟩ | ⟨left, rfl, stop⟩
    · exact .inl ⟨left, rfl, stop⟩
    · cases left with
      | nil => exact .inl ⟨[], by simp, stop.symm⟩
      | cons c left =>
        obtain ⟨rfl, -⟩ := List.cons.inj stop
        exact absurd (List.mem_append_right _ List.mem_cons_self) unmarked
  · cases more with
    | nil =>
      cases name with
      | nil => exact .inl ⟨[], by simp, cut.symm⟩
      | cons c name =>
        obtain ⟨rfl, -⟩ := List.cons.inj cut
        exact absurd List.mem_cons_self unmarked
    | cons c more =>
      obtain ⟨rfl, -⟩ := List.cons.inj cut
      exact .inr ⟨more, rfl⟩

end TreeMigration.Text
