import TreeMigration.Proofs.Path.Parts
import TreeMigration.Proofs.Substitution.Replacing
import TreeMigration.Proofs.Text.Lines

/-!
What becomes of the ends of lines. Text read as lines and written again has each of its line ends
turned into a line feed alone; lines written and read again are the same ones exactly if none holds
a line feed or has a carriage return at its end.

`plainEnded` is the text after reading and writing, said without lines: one carriage return less
before each line feed, and a line feed at the end where there was none. `ofLines_lines` proves this
by induction on the text, with a case for each of the two characters and for their meeting.

The other direction starts from lines. What they are read back as has been settled, so the question
is only when that is the same list (`lines_ofLines_eq_self_iff`).
-/
namespace TreeMigration.Text

def missingEnd (t : Text) : Text := if t = [] ∨ t.getLast? = some '\n' then [] else ['\n']

/-- The text with one carriage return less before each line feed, and with an end of its last
line. -/
def plainEnded (t : Text) : Text := replaceAll "\r\n" "\n" t ++ missingEnd t

theorem lines_eq_nil_iff {t : Text} : lines t = [] ↔ t = [] := by
  fun_induction lines t with
  | case1 => simp
  | case2 => simp
  | case3 c rest _ ending ih =>
    have filled : rest ≠ [] := by
      rintro rfl
      cases ending.2
    simp [ih, filled]
  | case4 => simp
  | case5 => simp

theorem missingEnd_cons {c : Char} {rest : Text} (further : rest ≠ [] ∨ c = '\n') :
    missingEnd (c :: rest) = missingEnd rest := by
  cases rest with
  | nil =>
    rcases further with filled | rfl
    · exact absurd rfl filled
    · rfl
  | cons d rest => simp [missingEnd]

/-- A carriage return is kept unless it stands before a line feed. -/
theorem plainEnded_cons {c : Char} {rest : Text} (inside : ¬ (c = '\r' ∧ rest.head? = some '\n'))
    (further : rest ≠ [] ∨ c = '\n') : plainEnded (c :: rest) = c :: plainEnded rest := by
  have apart : ¬ ("\r\n".toList <+: c :: rest) := by
    rintro ⟨more, same⟩
    obtain ⟨rfl, rfl⟩ := List.cons.inj same
    exact inside ⟨rfl, rfl⟩
  rw [plainEnded, replaceAll_cons (by decide) _ apart, missingEnd_cons further]
  rfl

theorem plainEnded_return (rest : Text) :
    plainEnded ('\r' :: '\n' :: rest) = '\n' :: plainEnded rest := by
  have replaced := replaceAll_append (by decide : "\r\n".toList ≠ []) "\n" rest
  rw [plainEnded, missingEnd_cons (.inl (by simp)), missingEnd_cons (.inr rfl)]
  exact congrArg (· ++ missingEnd rest) replaced

/-- Text read as lines and written again has plain line ends. -/
theorem ofLines_lines (t : Text) : ofLines (lines t) = plainEnded t := by
  fun_induction lines t with
  | case1 => rfl
  | case2 rest ih =>
    rw [ofLines_cons, ih, plainEnded_cons (by simp) (.inr rfl)]
    rfl
  | case3 c rest _ ending ih =>
    obtain ⟨rfl, next⟩ := ending
    obtain ⟨rest, rfl⟩ := List.head?_eq_some_iff.mp next
    rw [ih, plainEnded_cons (by simp) (.inr rfl), plainEnded_return]
  | case4 c rest other inside alone ih =>
    obtain rfl := lines_eq_nil_iff.mp alone
    have apart : ¬ ("\r\n".toList <+: [c]) := by simp
    rw [plainEnded, replaceAll_cons (by decide) _ apart, replaceAll_nil]
    simp [missingEnd, other, ofLines]
  | case5 c rest other inside first later divided ih =>
    have filled : rest ≠ [] := by
      rintro rfl
      cases divided
    rw [plainEnded_cons inside (.inl filled), ← ih, divided]
    rfl

theorem withoutReturn_eq_self_iff {line : Text} :
    withoutReturn line = line ↔ line.getLast? ≠ some '\r' := by
  unfold withoutReturn
  split
  · rename_i ending
    have filled : line ≠ [] := by
      rintro rfl
      cases ending
    refine iff_of_false (fun same => ?_) (fun plain => plain ending)
    have longer := List.length_pos_iff.mpr filled
    have shorter := congrArg List.length same
    rw [List.length_dropLast] at shorter
    omega
  · rename_i plain
    exact iff_of_true rfl plain

theorem map_eq_self_iff {change : Text → Text} {lines : List Text} :
    lines.map change = lines ↔ ∀ line ∈ lines, change line = line := by
  conv_lhs => rhs; rw [← List.map_id lines]
  exact List.map_inj_left

/-- Lines come back as they were written exactly if each of them can be told from its end. -/
theorem lines_ofLines_eq_self_iff {written : List Text} :
    lines (ofLines written) = written ↔
      ∀ line ∈ written, '\n' ∉ line ∧ line.getLast? ≠ some '\r' := by
  constructor
  · intro same
    have clear : ∀ line ∈ written, '\n' ∉ line := by
      intro line listed
      rw [← same] at listed
      exact not_mem_of_mem_lines listed
    rw [lines_ofLines clear, map_eq_self_iff] at same
    exact fun line listed => ⟨clear line listed, withoutReturn_eq_self_iff.mp (same line listed)⟩
  · intro whole
    rw [lines_ofLines fun line listed => (whole line listed).1, map_eq_self_iff]
    exact fun line listed => withoutReturn_eq_self_iff.mpr (whole line listed).2

theorem splitOn_ofLines {lines : List Text} (clear : ∀ line ∈ lines, '\n' ∉ line) :
    splitOn '\n' (ofLines lines) = lines ++ [[]] := by
  induction lines with
  | nil => rfl
  | cons line later ih =>
    rw [ofLines_cons, splitOn_append, splitOn_of_not_mem (clear line List.mem_cons_self),
      ih fun other listed => clear other (List.mem_cons_of_mem _ listed)]
    rfl

/-- Different lines are written differently if no line feed stands inside of one. -/
theorem ofLines_inj {lines others : List Text} (clear : ∀ line ∈ lines, '\n' ∉ line)
    (clearToo : ∀ line ∈ others, '\n' ∉ line) :
    ofLines lines = ofLines others ↔ lines = others := by
  refine ⟨fun same => ?_, congrArg ofLines⟩
  have pieces := congrArg (splitOn '\n') same
  rw [splitOn_ofLines clear, splitOn_ofLines clearToo] at pieces
  exact List.append_cancel_right pieces

end TreeMigration.Text
