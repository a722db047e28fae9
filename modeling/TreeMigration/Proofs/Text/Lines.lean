import TreeMigration.Text.Basic
import Mathlib.Data.List.Basic

/-!
Lines written and read back. Each written line comes back as one line, as none holds a line feed;
only a carriage return at its end is taken for a part of the end and lost.

`withoutReturn` is a line as it is read back, and `lines_ofLines` the statement for any list of
lines without line feeds, by induction on the list with `lines_append` for the line in front. That
lines read from a text hold no line feed (`not_mem_of_mem_lines`) is what lets edited lines be
written and read any number of times.
-/
namespace TreeMigration.Text

/-- A line without a carriage return at its end, as it is read back. -/
def withoutReturn (line : Text) : Text :=
  if line.getLast? = some '\r' then line.dropLast else line

theorem withoutReturn_cons {c : Char} {line : Text} (before : ¬ (c = '\r' ∧ line = [])) :
    withoutReturn (c :: line) = c :: withoutReturn line := by
  cases line with
  | nil => simpa [withoutReturn] using before
  | cons d rest =>
    unfold withoutReturn
    rw [List.getLast?_cons_cons, List.dropLast_cons_cons]
    split <;> rfl

/-- No line read holds a line feed. -/
theorem not_mem_of_mem_lines {t line : Text} (member : line ∈ lines t) : '\n' ∉ line := by
  fun_induction lines t generalizing line with
  | case1 => cases member
  | case2 rest ih =>
    rcases List.mem_cons.mp member with rfl | later
    · simp
    · exact ih later
  | case3 c rest other ending ih => exact ih member
  | case4 c rest other inside alone ih =>
    cases List.mem_singleton.mp member
    simpa using Ne.symm other
  | case5 c rest other inside first later divided ih =>
    rcases List.mem_cons.mp member with rfl | listed
    · have clear := ih (divided ▸ List.mem_cons_self)
      simpa using ⟨Ne.symm other, clear⟩
    · exact ih (divided ▸ List.mem_cons_of_mem _ listed)

/-- A line with its end is read as that line. -/
theorem lines_append {line : Text} (clear : '\n' ∉ line) (rest : Text) :
    lines (line ++ '\n' :: rest) = withoutReturn line :: lines rest := by
  induction line with
  | nil => rw [List.nil_append, lines, if_pos rfl]; rfl
  | cons c line ih =>
    rw [List.mem_cons, not_or] at clear
    have read := ih clear.2
    rw [List.cons_append, lines, if_neg (Ne.symm clear.1)]
    by_cases ending : c = '\r' ∧ line = []
    · obtain ⟨rfl, rfl⟩ := ending
      rw [if_pos ⟨rfl, rfl⟩, read]
      rfl
    · have inside : ¬ (c = '\r' ∧ (line ++ '\n' :: rest).head? = some '\n') := by
        rintro ⟨same, next⟩
        refine ending ⟨same, ?_⟩
        cases line with
        | nil => rfl
        | cons d later =>
          rw [List.cons_append, List.head?_cons, Option.some.injEq] at next
          exact absurd (next ▸ List.mem_cons_self) clear.2
      rw [if_neg inside, read, withoutReturn_cons ending]

theorem ofLines_cons (line : Text) (later : List Text) :
    ofLines (line :: later) = line ++ '\n' :: ofLines later := by simp [ofLines]

/-- Lines come back one for one, each without a carriage return at its end. -/
theorem lines_ofLines {written : List Text} (clear : ∀ line ∈ written, '\n' ∉ line) :
    lines (ofLines written) = written.map withoutReturn := by
  induction written with
  | nil => rfl
  | cons line later ih =>
    rw [ofLines_cons, lines_append (clear line List.mem_cons_self),
      ih fun other listed => clear other (List.mem_cons_of_mem _ listed), List.map_cons]

end TreeMigration.Text
