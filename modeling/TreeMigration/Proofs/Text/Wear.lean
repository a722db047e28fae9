import TreeMigration.Proofs.Text.LineEnds
import Mathlib.Logic.Function.Iterate

/-!
Text read and written over and over. Each time every line loses one carriage return at its end, so
only text without any stays as it is; a source gives such text exactly if it has no carriage return
but the ones that belong to its line ends.

Writing and reading a list of lines once takes one carriage return from the end of each, so n times
take n of them (`iterate_plainEnded_ofLines`). A carriage return lost never comes back
(`iterate_withoutReturn_eq_self_iff`), hence a text that is the same after having been read and
written some times was the same after the first.

`exists_return_iff` turns the condition on the lines into one on the text they were read from: a
carriage return more than one before a line feed, or one at the very end.
-/
namespace TreeMigration.Text

theorem withoutReturn_begins (line : Text) : withoutReturn line <+: line := by
  unfold withoutReturn
  split
  · exact List.dropLast_prefix line
  · exact List.prefix_refl line

theorem newline_not_mem_withoutReturn {line : Text} (clear : '\n' ∉ line) :
    '\n' ∉ withoutReturn line :=
  fun inside => clear ((withoutReturn_begins line).subset inside)

/-- A carriage return lost never comes back. -/
theorem iterate_withoutReturn_eq_self_iff (n : Nat) {line : Text} :
    withoutReturn^[n + 1] line = line ↔ line.getLast? ≠ some '\r' := by
  rw [← withoutReturn_eq_self_iff]
  have begins : ∀ (n : Nat) (line : Text), withoutReturn^[n] line <+: line := by
    intro n
    induction n with
    | zero => exact List.prefix_refl
    | succ n ih => exact fun line => (ih (withoutReturn line)).trans (withoutReturn_begins line)
  constructor
  · intro same
    have longer := (begins n (withoutReturn line)).length_le
    rw [← Function.iterate_succ_apply, same] at longer
    exact (withoutReturn_begins line).eq_of_length_le longer
  · exact fun same => Function.iterate_fixed same _

/-- Lines written, read and written again have lost a carriage return each. -/
theorem plainEnded_ofLines {lines : List Text} (clear : ∀ line ∈ lines, '\n' ∉ line) :
    plainEnded (ofLines lines) = ofLines (lines.map withoutReturn) := by
  rw [← ofLines_lines, lines_ofLines clear]

theorem iterate_plainEnded_ofLines (n : Nat) {lines : List Text}
    (clear : ∀ line ∈ lines, '\n' ∉ line) :
    plainEnded^[n] (ofLines lines) = ofLines (lines.map withoutReturn^[n]) ∧
      ∀ line ∈ lines.map withoutReturn^[n], '\n' ∉ line := by
  induction n generalizing lines with
  | zero => exact ⟨by simp, by simpa using clear⟩
  | succ n ih =>
    rw [Function.iterate_succ_apply, plainEnded_ofLines clear, Function.iterate_succ,
      ← List.map_map]
    apply ih
    simpa using fun line listed => newline_not_mem_withoutReturn (clear line listed)

/-- Written lines stay as they are, however often they are read and written again, exactly if none
ends in a carriage return. -/
theorem iterate_plainEnded_eq_self_iff (n : Nat) {lines : List Text}
    (clear : ∀ line ∈ lines, '\n' ∉ line) :
    plainEnded^[n + 1] (ofLines lines) = ofLines lines ↔
      ∀ line ∈ lines, line.getLast? ≠ some '\r' := by
  obtain ⟨worn, clearToo⟩ := iterate_plainEnded_ofLines (n + 1) clear
  rw [worn, ofLines_inj clearToo clear, map_eq_self_iff]
  exact forall₂_congr fun line _ => iterate_withoutReturn_eq_self_iff n

/-- The first line of a text is empty exactly if the text begins with a line end. -/
theorem head?_lines_eq_nil_iff {t : Text} :
    (lines t).head? = some [] ↔ t.head? = some '\n' ∨ "\r\n".toList <+: t := by
  fun_induction lines t with
  | case1 => simp
  | case2 => simp
  | case3 c rest other ending ih =>
    obtain ⟨rfl, next⟩ := ending
    obtain ⟨rest, rfl⟩ := List.head?_eq_some_iff.mp next
    simp [lines]
  | case4 c rest other inside alone =>
    obtain rfl := lines_eq_nil_iff.mp alone
    simp [other]
  | case5 c rest other inside first later divided ih =>
    refine iff_of_false (by simp) ?_
    rintro (next | ⟨more, same⟩)
    · exact other (Option.some.inj next)
    · obtain ⟨rfl, rfl⟩ := List.cons.inj same
      exact inside ⟨rfl, rfl⟩

theorem double_return_prefix_iff {c : Char} {rest : Text} :
    "\r\r\n".toList <+: c :: rest ↔ c = '\r' ∧ "\r\n".toList <+: rest :=
  List.cons_prefix_cons.trans (and_congr_left' eq_comm)

/-- Some line of a text ends in a carriage return exactly if one more stands before a line end, or
if the text ends in one. -/
theorem exists_return_iff {t : Text} :
    (∃ line ∈ lines t, line.getLast? = some '\r') ↔
      "\r\r\n".toList <:+: t ∨ t.getLast? = some '\r' := by
  fun_induction lines t with
  | case1 => simp
  | case2 rest ih =>
    have last : ('\n' :: rest).getLast? = some '\r' ↔ rest.getLast? = some '\r' := by
      cases rest <;> simp
    rw [List.infix_cons_iff, double_return_prefix_iff, last, or_assoc, ← ih]
    simp
  | case3 c rest other ending ih =>
    obtain ⟨rfl, next⟩ := ending
    obtain ⟨rest, rfl⟩ := List.head?_eq_some_iff.mp next
    rw [ih, @List.infix_cons_iff _ _ '\r', double_return_prefix_iff]
    simp
  | case4 c rest other inside alone ih =>
    obtain rfl := lines_eq_nil_iff.mp alone
    simp [List.infix_cons_iff]
  | case5 c rest other inside first later divided ih =>
    have filled : rest ≠ [] := by
      rintro rfl
      cases divided
    have opens := @head?_lines_eq_nil_iff rest
    rw [divided, List.head?_cons, Option.some.injEq] at opens
    rw [divided] at ih
    rw [List.infix_cons_iff, double_return_prefix_iff, or_assoc,
      List.getLast?_cons_of_ne_nil filled, ← ih]
    -- only a line that is empty so far can get its last character from in front
    by_cases empty : first = []
    · have ending : c = '\r' ∧ "\r\n".toList <+: rest ↔ c = '\r' := by
        refine and_iff_left_of_imp fun isReturn => (opens.mp empty).resolve_left fun next => ?_
        exact inside ⟨isReturn, next⟩
      rw [ending]
      simp [empty]
    · have unopened : ¬ "\r\n".toList <+: rest := fun front => empty (opens.mpr (.inr front))
      simp only [unopened, and_false, false_or]
      simp [List.getLast?_cons_of_ne_nil empty]

end TreeMigration.Text
