import TreeMigration.FileSystem.Walk

/-!
Walks step by step. A walk that ends somewhere is a derivation with one rule for each thing a step
can do, and the other way round; facts about walks are inductions over these rules.

The rules of `Walks` carry the number of links that may still be followed, whether a last link is
followed, and what a slash has asked for. `walkFrom_eq_ok_iff` is the equivalence with the function,
which recurses on the steps inside of the recursion on the links; one direction is an induction over
both, the other over the derivation.

`Walks.split` cuts a walk before any of its steps. The part in front may use fewer links than the
whole, and the rest goes on with those that are left. Only walks that end somewhere have a
derivation: nothing here says how a walk fails.
-/
namespace TreeMigration

namespace FileSystem

/-- A walk that may follow so many more links takes the steps from a location on and ends as found. -/
inductive Walks (files : FileSystem) (followLast : Bool) :
    Nat → Bool → Location → List Step → Found → Prop where
  | done {links slashed location} :
    Walks files followLast links slashed location [] (.present location slashed)
  | stay {links slashed location later found}
    (directory : files.entry? location = some .directory)
    (rest : Walks files followLast links slashed location later found) :
    Walks files followLast links slashed location (.stay :: later) found
  | up {links slashed location later found}
    (directory : files.entry? location = some .directory)
    (rest : Walks files followLast links slashed location.tail later found) :
    Walks files followLast links slashed location (.up :: later) found
  | absent {links slashed location name} (directory : files.entry? location = some .directory)
    (short : ¬ nameLimit < Text.byteSize name.text)
    (missing : files.entry? (name :: location) = none) :
    Walks files followLast links slashed location [.into name] (.absent location name slashed)
  | passed {links slashed location name target}
    (directory : files.entry? location = some .directory)
    (short : ¬ nameLimit < Text.byteSize name.text)
    (link : files.entry? (name :: location) = some (.link target)) (pass : followLast = false) :
    Walks files followLast links slashed location [.into name] (.present (name :: location) slashed)
  | follow {links slashed location name target later found}
    (directory : files.entry? location = some .directory)
    (short : ¬ nameLimit < Text.byteSize name.text)
    (link : files.entry? (name :: location) = some (.link target))
    (follows : later = [] → followLast = true)
    (rest : Walks files followLast links
      (slashed || (later.isEmpty && (Route.ofText target).slashed))
      (if (Route.ofText target).absolute then [] else location)
      ((Route.ofText target).steps ++ later) found) :
    Walks files followLast (links + 1) slashed location (.into name :: later) found
  | into {links slashed location name later found entry}
    (directory : files.entry? location = some .directory)
    (short : ¬ nameLimit < Text.byteSize name.text)
    (held : files.entry? (name :: location) = some entry) (plain : ∀ target, entry ≠ .link target)
    (rest : Walks files followLast links slashed (name :: location) later found) :
    Walks files followLast links slashed location (.into name :: later) found

def jump (files : FileSystem) (followLast slashed : Bool) :
    Nat → Location → Text → List Step → Except FileError Found
  | 0, _, _, _ => .error .tooManyLinks
  | links + 1, directory, target, later =>
    files.walkFrom followLast links (slashed || (later.isEmpty && (Route.ofText target).slashed))
      (if (Route.ofText target).absolute then [] else directory)
      ((Route.ofText target).steps ++ later)

theorem walkFrom_eq (files : FileSystem) (followLast : Bool) (links : Nat) (slashed : Bool)
    (location : Location) (steps : List Step) :
    files.walkFrom followLast links slashed location steps =
      files.advance followLast slashed (files.jump followLast slashed links) location steps := by
  cases links with
  | zero => rfl
  | succ links => rfl

theorem walks_of_advance {files : FileSystem} {followLast slashed : Bool} {links : Nat}
    {found : Found}
    (jumps : ∀ {location name target later}, files.entry? location = some .directory →
      ¬ nameLimit < Text.byteSize name.text → files.entry? (name :: location) = some (.link target) →
      (later = [] → followLast = true) →
      files.jump followLast slashed links location target later = .ok found →
      Walks files followLast links slashed location (.into name :: later) found)
    {location : Location} {steps : List Step}
    (walked : files.advance followLast slashed (files.jump followLast slashed links) location
      steps = .ok found) : Walks files followLast links slashed location steps found := by
  induction steps generalizing location with
  | nil =>
    cases walked
    exact .done
  | cons step later ih =>
    unfold advance at walked
    split at walked
    · cases walked
    · rename_i directory
      cases step with
      | stay => exact .stay directory (ih walked)
      | up => exact .up directory (ih walked)
      | into name =>
        dsimp only at walked
        split at walked
        · cases walked
        · rename_i short
          split at walked
          · rename_i missing
            split at walked
            · rename_i last
              cases walked
              cases List.isEmpty_iff.mp last
              exact .absent directory short missing
            · cases walked
          · rename_i target link
            split at walked
            · rename_i passed
              cases walked
              simp only [Bool.and_eq_true, List.isEmpty_iff, Bool.not_eq_true'] at passed
              obtain ⟨rfl, pass⟩ := passed
              exact .passed directory short link pass
            · rename_i follows
              refine jumps directory short link ?_ walked
              rintro rfl
              simpa using follows
          · rename_i entry plain held
            exact .into directory short held plain (ih walked)
    · cases walked

theorem walks_of_walkFrom {files : FileSystem} {followLast : Bool} {links : Nat} {slashed : Bool}
    {location : Location} {steps : List Step} {found : Found}
    (walked : files.walkFrom followLast links slashed location steps = .ok found) :
    Walks files followLast links slashed location steps found := by
  induction links generalizing slashed location steps with
  | zero =>
    rw [walkFrom_eq] at walked
    exact walks_of_advance (fun _ _ _ _ reached => by cases reached) walked
  | succ links ih =>
    rw [walkFrom_eq] at walked
    exact walks_of_advance (fun directory short link follows reached =>
      .follow directory short link follows (ih reached)) walked

theorem walkFrom_of_walks {files : FileSystem} {followLast : Bool} {links : Nat} {slashed : Bool}
    {location : Location} {steps : List Step} {found : Found}
    (walks : Walks files followLast links slashed location steps found) :
    files.walkFrom followLast links slashed location steps = .ok found := by
  induction walks with
  | done =>
    rw [walkFrom_eq]
    rfl
  | stay directory rest ih =>
    rw [walkFrom_eq] at ih ⊢
    unfold advance
    simp only [directory]
    exact ih
  | up directory rest ih =>
    rw [walkFrom_eq] at ih ⊢
    unfold advance
    simp only [directory]
    exact ih
  | absent directory short missing =>
    rw [walkFrom_eq]
    unfold advance
    simp [directory, short, missing]
  | passed directory short link pass =>
    rw [walkFrom_eq]
    unfold advance
    simp [directory, short, link, pass]
  | @follow links slashed location name target later found directory short link follows rest ih =>
    have goes : ¬ (later.isEmpty && !followLast) = true := by
      simp only [Bool.and_eq_true, List.isEmpty_iff, Bool.not_eq_true', not_and,
        Bool.not_eq_false]
      exact follows
    rw [walkFrom_eq]
    unfold advance
    simp only [directory, short, if_false, link, if_neg goes]
    exact ih
  | @into links slashed location name later found entry directory short held plain rest ih =>
    rw [walkFrom_eq] at ih ⊢
    unfold advance
    simp only [directory, short, if_false, held]
    cases entry with
    | link target => exact absurd rfl (plain target)
    | directory => exact ih
    | file content => exact ih

/-- A walk ends as found exactly if the rules say so. -/
theorem walkFrom_eq_ok_iff {files : FileSystem} {followLast : Bool} {links : Nat} {slashed : Bool}
    {location : Location} {steps : List Step} {found : Found} :
    files.walkFrom followLast links slashed location steps = .ok found ↔
      Walks files followLast links slashed location steps found :=
  ⟨walks_of_walkFrom, walkFrom_of_walks⟩

/-- A walk with steps left stands in a directory. -/
theorem Walks.directory {files : FileSystem} {followLast : Bool} {links : Nat} {slashed : Bool}
    {location : Location} {step : Step} {later : List Step} {found : Found}
    (walks : Walks files followLast links slashed location (step :: later) found) :
    files.entry? location = some .directory := by
  cases walks <;> assumption

/-- A walk that follows every link can be cut before any of its steps: the part before ends
somewhere, whatever a slash may ask of it, and the rest goes on from there. -/
theorem Walks.split {files : FileSystem} {links : Nat} {slashed : Bool} {location : Location}
    {whole : List Step} {found : Found}
    (walks : Walks files true links slashed location whole found) :
    ∀ {steps more : List Step} (asked : Bool), whole = steps ++ more → more ≠ [] →
      ∃ reached ending left rest, Walks files true links asked location steps
          (.present reached ending) ∧
        Walks files true left rest reached more found := by
  induction walks with
  | done =>
    intro steps more asked shape further
    exact absurd (List.append_eq_nil_iff.mp shape.symm).2 further
  | stay directory rest ih =>
    intro steps more asked shape further
    cases steps with
    | nil =>
      obtain rfl : _ = more := shape
      exact ⟨_, asked, _, _, .done, .stay directory rest⟩
    | cons first others =>
      obtain ⟨rfl, remaining⟩ := List.cons.inj shape
      obtain ⟨reached, ending, left, rest, before, after⟩ := ih asked remaining further
      exact ⟨reached, ending, left, rest, .stay directory before, after⟩
  | up directory rest ih =>
    intro steps more asked shape further
    cases steps with
    | nil =>
      obtain rfl : _ = more := shape
      exact ⟨_, asked, _, _, .done, .up directory rest⟩
    | cons first others =>
      obtain ⟨rfl, remaining⟩ := List.cons.inj shape
      obtain ⟨reached, ending, left, rest, before, after⟩ := ih asked remaining further
      exact ⟨reached, ending, left, rest, .up directory before, after⟩
  | absent directory short missing =>
    intro steps more asked shape further
    cases steps with
    | nil =>
      obtain rfl : _ = more := shape
      exact ⟨_, asked, 0, _, .done, .absent directory short missing⟩
    | cons first others =>
      obtain ⟨-, remaining⟩ := List.cons.inj shape
      exact absurd (List.append_eq_nil_iff.mp remaining.symm).2 further
  | passed directory short link pass => cases pass
  | follow directory short link follows rest ih =>
    intro steps more asked shape further
    cases steps with
    | nil =>
      obtain rfl : _ = more := shape
      exact ⟨_, asked, _, _, .done, .follow directory short link follows rest⟩
    | cons first others =>
      obtain ⟨rfl, rfl⟩ := List.cons.inj shape
      obtain ⟨reached, ending, left, rest, before, after⟩ :=
        ih _ (List.append_assoc _ _ _).symm further
      exact ⟨reached, ending, left, rest, .follow directory short link (fun _ => rfl) before, after⟩
  | into directory short held plain rest ih =>
    intro steps more asked shape further
    cases steps with
    | nil =>
      obtain rfl : _ = more := shape
      exact ⟨_, asked, _, _, .done, .into directory short held plain rest⟩
    | cons first others =>
      obtain ⟨rfl, remaining⟩ := List.cons.inj shape
      obtain ⟨reached, ending, left, rest, before, after⟩ := ih asked remaining further
      exact ⟨reached, ending, left, rest, .into directory short held plain before, after⟩

end FileSystem

end TreeMigration
