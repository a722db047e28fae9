import TreeMigration.Json.Fault
import TreeMigration.Text.Reading

/-!
Number literals. A literal is refused when its value is too large for a 64-bit binary float; the
value is taken from the digits that fit into a 64-bit significand, later integer digits counting
only as powers of ten.

The value itself is of no use to the rules, so a number keeps its literal and only the question
whether it is too large is computed. `isOutOfRange` answers it with natural numbers: significand and
power of ten are each rounded to 53 bits, and their product is compared with the least number that
would be rounded beyond the largest float. Floating-point numbers appear nowhere.

The reader goes through the parts of a literal from left to right: the integer digits, which have no
leading zero, an optional fraction and an optional exponent. A part that is begun must have a digit.
An exponent that grows beyond its limit is refused at once, unless the significand is zero or the
exponent negative: then the number is small and the digits that are left are passed over.
-/
namespace TreeMigration.Json.Number

def digitValue (c : Char) : Nat := c.toNat - '0'.toNat

def significandLimit : Nat := Nat.pow 2 64 - 1

def exponentLimit : Nat := Nat.pow 2 31 - 1

/-- Takes digits into a significand while it stays within its limit; gives it with the number of
digits that no longer fitted. -/
def absorb : Nat → Text → Nat × Nat
  | significand, [] => (significand, 0)
  | significand, c :: digits =>
    let grown := significand * 10 + digitValue c
    if grown ≤ significandLimit then absorb grown digits else (significand, digits.length + 1)

/-- The nearest number with 53 significant bits, ties going to the even one. -/
def roundToFloat (n : Nat) : Nat :=
  if n < Nat.pow 2 53 then n
  else
    let unit := Nat.pow 2 (n.log2 - 52)
    let quotient := n / unit
    let twice := 2 * (n % unit)
    if twice < unit ∨ (twice = unit ∧ quotient % 2 = 0) then quotient * unit
    else (quotient + 1) * unit

/-- Whether `significand * 10 ^ exponent`, computed in floats, is beyond the largest float. -/
def isOutOfRange (significand : Nat) (exponent : Int) : Bool :=
  significand != 0 && decide (0 ≤ exponent) &&
    (decide (308 < exponent) ||
      decide (Nat.pow 2 1024 - Nat.pow 2 970 ≤
        roundToFloat significand * roundToFloat (Nat.pow 10 exponent.toNat)))

/-- The integer digits at the front: a zero, or digits that do not start with one. -/
def integerDigits : Text → Except Fault (Text × Text)
  | [] => .error (.before .endInValue [])
  | c :: rest =>
    if c = '0' then
      if rest.head?.any Char.isDigit then .error (.upon .invalidNumber rest) else .ok ([c], rest)
    else if c.isDigit then .ok (c :: rest.takeWhile Char.isDigit, rest.dropWhile Char.isDigit)
    else .error (.upon .invalidNumber (c :: rest))

/-- The digits after a decimal point; none when there is no point. -/
def fractionDigits (t : Text) : Except Fault (Text × Text) :=
  match t with
  | '.' :: rest =>
    let digits := rest.takeWhile Char.isDigit
    let after := rest.dropWhile Char.isDigit
    if digits.isEmpty then
      .error (.upon (if after.isEmpty then .endInValue else .invalidNumber) after)
    else .ok (digits, after)
  | _ => .ok ([], t)

/-- Reads the digits of an exponent into `value`. One beyond the limit is refused at once if
`growing`, and otherwise its further digits are passed over. -/
def exponentDigits (growing : Bool) : Nat → Text → Except Fault (Nat × Text)
  | value, [] => .ok (value, [])
  | value, c :: rest =>
    if c.isDigit then
      let grown := value * 10 + digitValue c
      if grown ≤ exponentLimit then exponentDigits growing grown rest
      else if growing then .error (.before .numberOutOfRange rest)
      else .ok (exponentLimit, rest.dropWhile Char.isDigit)
    else .ok (value, c :: rest)

/-- Whether a minus sign stands at the front, and the text after a sign of either kind. -/
def sign : Text → Bool × Text
  | '-' :: rest => (true, rest)
  | '+' :: rest => (false, rest)
  | t => (false, t)

def exponentValue (significand : Nat) (t : Text) : Except Fault (Int × Text) :=
  match sign t with
  | (_, []) => .error (.before .endInValue [])
  | (negative, c :: rest) =>
    if c.isDigit then do
      let (value, after) ← exponentDigits (significand != 0 && !negative) 0 (c :: rest)
      .ok (if negative then -(value : Int) else value, after)
    else .error (.upon .invalidNumber (c :: rest))

/-- The exponent after the digits; zero when there is none. -/
def exponent (significand : Nat) : Text → Except Fault (Int × Text)
  | [] => .ok (0, [])
  | mark :: rest =>
    if mark = 'e' ∨ mark = 'E' then exponentValue significand rest else .ok (0, mark :: rest)

def afterUnsigned (t : Text) : Except Fault Text := do
  let (integer, rest) ← integerDigits t
  let (whole, dropped) := absorb 0 integer
  let (fraction, rest) ← fractionDigits rest
  let (significand, ignored) := absorb whole fraction
  let (power, rest) ← exponent significand rest
  let scale : Int := dropped - (fraction.length - ignored : Nat) + power
  if isOutOfRange significand scale then .error (.before .numberOutOfRange rest) else .ok rest

theorem length_lt_of_integerDigits {t digits rest : Text}
    (read : integerDigits t = .ok (digits, rest)) : rest.length < t.length := by
  unfold integerDigits at read
  repeat' split at read
  all_goals simp only [Except.ok.injEq, Prod.mk.injEq, reduceCtorEq] at read
  · simp [← read.2]
  · rw [← read.2]
    exact Nat.lt_succ_of_le (List.dropWhile_sublist _).length_le

theorem length_le_of_fractionDigits {t digits rest : Text}
    (read : fractionDigits t = .ok (digits, rest)) : rest.length ≤ t.length := by
  unfold fractionDigits at read
  split at read
  · dsimp only at read
    split at read
    · simp at read
    · simp only [Except.ok.injEq, Prod.mk.injEq] at read
      rw [← read.2]
      exact Nat.le_succ_of_le (List.dropWhile_sublist _).length_le
  · simp only [Except.ok.injEq, Prod.mk.injEq] at read
    simp [read.2]

theorem length_le_of_exponentDigits {growing : Bool} {t rest : Text} {value result : Nat}
    (read : exponentDigits growing value t = .ok (result, rest)) : rest.length ≤ t.length := by
  fun_induction exponentDigits growing value t with
  | case1 => simp_all
  | case2 value c later digit grown small ih => exact Nat.le_succ_of_le (ih read)
  | case3 => simp at read
  | case4 =>
    simp only [Except.ok.injEq, Prod.mk.injEq] at read
    rw [← read.2]
    exact Nat.le_succ_of_le (List.dropWhile_sublist _).length_le
  | case5 => simp_all

theorem length_sign_le (t : Text) : (sign t).2.length ≤ t.length := by
  unfold sign
  split <;> simp

theorem length_le_of_exponent {significand : Nat} {t rest : Text} {power : Int}
    (read : exponent significand t = .ok (power, rest)) : rest.length ≤ t.length := by
  unfold exponent at read
  split at read
  · simp_all
  · rename_i mark after
    split at read
    · have signed := length_sign_le after
      unfold exponentValue at read
      split at read
      · simp at read
      · rename_i shape
        rw [shape] at signed
        split at read
        · obtain ⟨found, digits, result⟩ := bind_eq_ok.mp read
          have shorter := length_le_of_exponentDigits digits
          simp only [Except.ok.injEq, Prod.mk.injEq] at result
          rw [← result.2]
          exact Nat.le_succ_of_le (Nat.le_trans shorter signed)
        · simp at read
    · simp only [Except.ok.injEq, Prod.mk.injEq] at read
      exact Nat.le_of_eq (congrArg List.length read.2.symm)

theorem length_lt_of_afterUnsigned {t rest : Text} (read : afterUnsigned t = .ok rest) :
    rest.length < t.length := by
  unfold afterUnsigned at read
  obtain ⟨⟨integer, afterInteger⟩, first, read⟩ := bind_eq_ok.mp read
  obtain ⟨⟨fraction, afterFraction⟩, second, read⟩ := bind_eq_ok.mp read
  obtain ⟨⟨power, after⟩, third, read⟩ := bind_eq_ok.mp read
  have first := length_lt_of_integerDigits first
  have second := length_le_of_fractionDigits second
  have third := length_le_of_exponent third
  dsimp only at read
  split at read
  · simp at read
  · simp only [Except.ok.injEq] at read
    rw [← read]
    omega

end TreeMigration.Json.Number
