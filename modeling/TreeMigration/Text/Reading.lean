import TreeMigration.Text.Basic

/-!
Reading from the front of a text. A reading carries the value read, the text left over and the fact
that something was consumed; that fact is what lets a reader be repeated until it declines.

Readings are indexed by the text they read from. `Reading.within` and `Reading.andThen` move one
along a text without losing the proof, so that a reader put together from others never proves
termination again: `Reading.many` does it once. What is left after an optional part is only known to
be no longer, which is why it is not a reading.

`bind_eq_ok` stands here as well. It takes apart a chain of steps that may fail, of which the
operations on files and the preparation of a run consist.
-/
namespace TreeMigration

theorem bind_eq_ok {ε α β : Type} {step : Except ε α} {next : α → Except ε β} {result : β} :
    (step >>= next) = .ok result ↔ ∃ value, step = .ok value ∧ next value = .ok result := by
  cases step with
  | error fault => simp [bind, Except.bind]
  | ok value => simp [bind, Except.bind]

/-- A value read from the front of `t`, which consumed at least one character. -/
structure Reading (α : Type) (t : Text) where
  value : α
  rest : Text
  shorter : rest.length < t.length

namespace Reading

variable {α β : Type}

def map {t : Text} (f : α → β) (r : Reading α t) : Reading β t := ⟨f r.value, r.rest, r.shorter⟩

/-- A reading of an end part of `t` seen as one of `t` itself. -/
def within {s t : Text} (noLonger : s.length ≤ t.length) (r : Reading α s) : Reading α t :=
  ⟨r.value, r.rest, Nat.lt_of_lt_of_le r.shorter noLonger⟩

/-- A reading of what an earlier reading left, seen as one of the whole. -/
def andThen {t : Text} (first : Reading α t) (second : Reading β first.rest) : Reading β t :=
  ⟨second.value, second.rest, Nat.lt_trans second.shorter first.shorter⟩

/-- Repeats a reader until it declines, and gives the values with the text left over. -/
def many (step : (t : Text) → Option (Reading α t)) (t : Text) : List α × Text :=
  match step t with
  | none => ([], t)
  | some r =>
    have := r.shorter
    let later := many step r.rest
    (r.value :: later.1, later.2)
termination_by t.length

theorem many_rest_length_le (step : (t : Text) → Option (Reading α t)) (t : Text) :
    (many step t).2.length ≤ t.length := by
  fun_induction many step t with
  | case1 => exact Nat.le_refl _
  | case2 t r _ _ _ ih => exact Nat.le_trans ih (Nat.le_of_lt r.shorter)

end Reading

namespace Text

theorem length_le_cons (c : Char) (rest : Text) : rest.length ≤ (c :: rest).length :=
  Nat.le_succ _

end Text

end TreeMigration
