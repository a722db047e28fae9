import TreeMigration.Proofs.Json.Parts
import Mathlib.Data.List.TakeWhile

/-!
Counts in JSON texts. A number of digits alone is read as it is printed, as long as it fits into a
significand, up to the first character that cannot continue it.

`Stops` names the texts at which a number ends: those that begin with no digit, no point and no mark
of an exponent. The digits of a count have no leading zero, so they are taken whole; they stay
within the significand, so none is dropped (`absorb_of_le`); and the value is far below the largest
float (`isOutOfRange_of_le`), so the literal is not refused. Each part of the number reader has one
lemma, and `gives_value_ofNat` puts them together.

Only such numbers are printed in reports. What becomes of fractions and exponents is not asked here.
-/
namespace TreeMigration

/-- Only zero begins with a zero. -/
theorem Text.head?_ofNat {n : Nat} (positive : 0 < n) : (Text.ofNat n).head? ≠ some '0' := by
  unfold Text.ofNat
  induction n using Nat.strongRecOn with
  | ind n ih =>
    rcases Nat.lt_or_ge n 10 with small | large
    · rw [Nat.toDigits_of_lt_base small]
      simpa [Nat.digitChar_eq_zero] using Nat.ne_of_gt positive
    · obtain ⟨c, digits, shape⟩ := List.exists_cons_of_ne_nil (@Nat.toDigits_ne_nil (n / 10) 10)
      have front := ih (n / 10) (by omega) (by omega)
      rw [shape] at front
      rwa [Nat.toDigits_of_base_le (by decide) large, shape]

theorem Text.isDigit_of_mem_ofNat {n : Nat} {c : Char} (member : c ∈ Text.ofNat n) :
    c.isDigit = true :=
  Nat.isDigit_of_mem_toDigits (by decide) (by decide) member

theorem Text.exists_ofNat_eq_cons (n : Nat) : ∃ c digits, Text.ofNat n = c :: digits :=
  List.exists_cons_of_ne_nil Nat.toDigits_ne_nil

namespace Json

open Reader

namespace Number

/-- No number goes on with the text. -/
def Stops (rest : Text) : Prop :=
  ∀ c, rest.head? = some c → c.isDigit = false ∧ c ≠ '.' ∧ c ≠ 'e' ∧ c ≠ 'E'

theorem stops_cons {c : Char} (rest : Text)
    (mark : c.isDigit = false ∧ c ≠ '.' ∧ c ≠ 'e' ∧ c ≠ 'E') : Stops (c :: rest) := by
  intro d first
  cases first
  exact mark

theorem le_ofDigitChars (digits : Text) (n : Nat) : n ≤ Nat.ofDigitChars 10 digits n := by
  induction digits generalizing n with
  | nil => exact Nat.le_refl n
  | cons c digits ih =>
    rw [Nat.ofDigitChars_cons]
    exact Nat.le_trans (by omega) (ih _)

/-- Digits that stay within the limit are all taken. -/
theorem absorb_of_le {digits : Text} {n : Nat}
    (fits : Nat.ofDigitChars 10 digits n ≤ significandLimit) :
    absorb n digits = (Nat.ofDigitChars 10 digits n, 0) := by
  induction digits generalizing n with
  | nil => rfl
  | cons c digits ih =>
    rw [Nat.ofDigitChars_cons] at fits ⊢
    have grown : n * 10 + digitValue c = 10 * n + (c.toNat - '0'.toNat) := by
      rw [digitValue, Nat.mul_comm]
    rw [absorb, grown, if_pos (Nat.le_trans (le_ofDigitChars digits _) fits)]
    exact ih fits

theorem integerDigits_ofNat {n : Nat} {rest : Text} (stops : Stops rest) :
    integerDigits (Text.ofNat n ++ rest) = .ok (Text.ofNat n, rest) := by
  have ended : rest.takeWhile Char.isDigit = [] ∧ rest.dropWhile Char.isDigit = rest := by
    cases rest with
    | nil => exact ⟨rfl, rfl⟩
    | cons c rest => simp [(stops c rfl).1]
  rcases Nat.eq_zero_or_pos n with rfl | positive
  · have unfollowed : ¬ rest.head?.any Char.isDigit = true := by
      cases rest with
      | nil => decide
      | cons c rest => simp [(stops c rfl).1]
    change integerDigits ('0' :: rest) = _
    rw [integerDigits, if_pos rfl, if_neg unfollowed]
    rfl
  · obtain ⟨c, digits, shape⟩ := Text.exists_ofNat_eq_cons n
    have first := Text.head?_ofNat positive
    have all : ∀ d ∈ c :: digits, d.isDigit = true := by
      intro d member
      rw [← shape] at member
      exact Text.isDigit_of_mem_ofNat member
    rw [shape] at first ⊢
    have later := fun d member => all d (List.mem_cons_of_mem c member)
    rw [List.cons_append, integerDigits, if_neg (by simpa using first),
      if_pos (all c List.mem_cons_self), List.takeWhile_append_of_pos later,
      List.dropWhile_append_of_pos later, ended.1, ended.2, List.append_nil]

theorem roundToFloat_le (n : Nat) : roundToFloat n ≤ 2 * n := by
  unfold roundToFloat
  split
  · omega
  · rename_i large
    have filled : n ≠ 0 := by
      rintro rfl
      exact large (Nat.pow_pos (by decide))
    have unit : Nat.pow 2 (n.log2 - 52) ≤ n :=
      Nat.le_trans (Nat.pow_le_pow_right (by decide) (Nat.sub_le _ _)) (Nat.log2_self_le filled)
    have whole := Nat.div_mul_le_self n (Nat.pow 2 (n.log2 - 52))
    dsimp only
    split
    · omega
    · rw [Nat.succ_mul]
      omega

/-- A count is far below the largest float. -/
theorem isOutOfRange_of_le {n : Nat} (fits : n ≤ significandLimit) : isOutOfRange n 0 = false := by
  have one : roundToFloat (Nat.pow 10 (0 : Int).toNat) = 1 := by decide
  have rounded := roundToFloat_le n
  have far : 2 * significandLimit < Nat.pow 2 1024 - Nat.pow 2 970 := by decide +kernel
  have near : ¬ Nat.pow 2 1024 - Nat.pow 2 970 ≤ roundToFloat n := by omega
  rw [isOutOfRange, one, Nat.mul_one, decide_eq_false near]
  simp

theorem fractionDigits_of_stops {rest : Text} (stops : Stops rest) :
    fractionDigits rest = .ok ([], rest) := by
  unfold fractionDigits
  split
  · exact absurd rfl (stops '.' rfl).2.1
  · rfl

theorem exponent_of_stops {rest : Text} (stops : Stops rest) (significand : Nat) :
    exponent significand rest = .ok (0, rest) := by
  cases rest with
  | nil => rfl
  | cons c rest => exact if_neg (not_or.mpr (stops c rfl).2.2)

theorem afterUnsigned_ofNat {n : Nat} {rest : Text} (fits : n ≤ significandLimit)
    (stops : Stops rest) : afterUnsigned (Text.ofNat n ++ rest) = .ok rest := by
  have taken : absorb 0 (Text.ofNat n) = (n, 0) := by
    have value : Nat.ofDigitChars 10 (Text.ofNat n) 0 = n := Nat.ofDigitChars_ten_toDigits
    rw [absorb_of_le (value.symm ▸ fits), value]
  simp [afterUnsigned, integerDigits_ofNat stops, fractionDigits_of_stops stops,
    exponent_of_stops stops, taken, absorb, isOutOfRange_of_le fits, bind, Except.bind]

end Number

/-- A number without a sign is read up to where its reader stops. -/
theorem gives_number_append {c : Char} {digits rest : Text} (unsigned : c ≠ '-')
    (read : Number.afterUnsigned (c :: (digits ++ rest)) = .ok rest) :
    Gives number (c :: (digits ++ rest)) (.number (c :: digits)) rest := by
  have whole : (if (c :: (digits ++ rest)).head? = some '-' then (c :: (digits ++ rest)).tail
      else c :: (digits ++ rest)) = c :: (digits ++ rest) := if_neg (by simpa using unsigned)
  rw [← whole] at read
  unfold Gives number
  dsimp only
  split
  · rename_i fault failed
    cases read.symm.trans failed
  · rename_i after passed
    cases read.symm.trans passed
    have counted : (c :: (digits ++ rest)).length - rest.length = (c :: digits).length := by
      simp only [List.length_cons, List.length_append]
      omega
    refine ⟨_, rfl, congrArg Value.number ?_, rfl⟩
    rw [counted, ← List.cons_append]
    exact List.take_left

/-- A count is read as its digits. -/
theorem gives_value_ofNat {allowance n : Nat} {rest : Text} (fits : n ≤ Number.significandLimit)
    (stops : Number.Stops rest) :
    Gives (value allowance) (Text.ofNat n ++ rest) (.number (Text.ofNat n)) rest := by
  obtain ⟨c, digits, shape⟩ := Text.exists_ofNat_eq_cons n
  have digit : c.isDigit = true := Text.isDigit_of_mem_ofNat (shape ▸ List.mem_cons_self)
  have other : ∀ d : Char, d.isDigit = false → c ≠ d := by
    rintro d none rfl
    cases digit.symm.trans none
  have read := Number.afterUnsigned_ofNat fits stops
  rw [shape, List.cons_append] at read ⊢
  obtain ⟨r, found, isValue, isRest⟩ := gives_number_append (other '-' (by decide)) read
  refine ⟨r, ?_, isValue, isRest⟩
  unfold value
  dsimp only
  rw [if_neg (other 'n' (by decide)), if_neg (other 't' (by decide)),
    if_neg (other 'f' (by decide)), if_pos (.inr digit)]
  exact found

end Json

end TreeMigration
