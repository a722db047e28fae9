import TreeMigration.Failure

/-!
Outcomes of steps that may fail. A joined step fails as its first part does, or as its second part
does on what the first gave; an operation on a path fails with that path and never for the
configuration.

With these a chain of steps is taken apart from the front, one `obtain` for each step, and the
function that the chain belongs to is unfolded once. Results with warnings have the same lemma
(`Noted.bind_result_eq_ok`), as whether they succeed does not depend on their warnings.
-/
namespace TreeMigration

theorem bind_eq_error {ε α β : Type} {step : Except ε α} {next : α → Except ε β} {fault : ε} :
    (step >>= next) = .error fault ↔
      step = .error fault ∨ ∃ value, step = .ok value ∧ next value = .error fault := by
  cases step with
  | error other => simp [bind, Except.bind]
  | ok value => simp [bind, Except.bind]

theorem map_eq_ok {ε α β : Type} {f : α → β} {step : Except ε α} {result : β} :
    step.map f = .ok result ↔ ∃ value, step = .ok value ∧ f value = result := by
  cases step with
  | error fault => simp [Except.map]
  | ok value => simp [Except.map]

theorem onPath_eq_ok_iff {α : Type} {path : Path} {result : Except FileError α} {value : α} :
    onPath path result = .ok value ↔ result = .ok value := by
  cases result with
  | error cause =>
    constructor
    · intro same
      cases same
    · intro same
      cases same
  | ok found =>
    change Except.ok found = .ok value ↔ _
    rw [Except.ok.injEq, Except.ok.injEq]

theorem onPath_ne_configuration {α : Type} (path : Path) (result : Except FileError α)
    (what : Misconfiguration) : onPath path result ≠ .error (.configuration what) := by
  intro same
  cases result with
  | error cause => cases same
  | ok value => cases same

theorem Noted.bind_result_eq_ok {α β : Type} {step : Noted α} {next : α → Noted β} {value : β} :
    (step >>= next).result = .ok value ↔
      ∃ first, step.result = .ok first ∧ (next first).result = .ok value := by
  change (step.andThen next).result = .ok value ↔ _
  unfold andThen
  cases step.result with
  | error failure => simp
  | ok first => simp

end TreeMigration
