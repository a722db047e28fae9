import TreeMigration.Proofs.FileSystem.Descent

/-!
When a path that leads somewhere has an absolute path.

A trace goes where a walk goes and differs from it in the lengths it looks at: those of the absolute
paths on the way. So a path that leads somewhere has the absolute path of the place, or has none
because one on the way is too long (`canonical_of_locate`), and later files do not change which
(`canonical_of_grown`). A path down from a directory without links below it, which itself has an
absolute path, has one exactly if the absolute path of the place is short enough
(`canonical_join_eq_ok_iff`).

`Leads` is what a walk says of the steps without the slash it ends with, and the induction of
`Leads.traceFrom` is over its rules: the trace takes the same step, or stops with `nameTooLong`. A
path from a directory is traced in two parts, the way to the directory and the way down
(`Leads.traceFrom_append`, `traceFrom_below`); on the way down the absolute paths only grow, so the
last one decides for all.

Nothing is said of paths that lead nowhere, nor of how a way that meets links below the directory is
told to be short enough by the place alone: such a way can go through deeper places than it ends at.
-/
namespace TreeMigration

theorem Location.text_path_cons (name : Name) (location : Location) :
    (Location.path (name :: location)).text =
      (if location = [] then [] else (Location.path location).text) ++ '/' :: name.text := by
  by_cases root : location = []
  · subst root
    simp [Location.path, Text.join]
  · have filled : location.reverse.map Name.text ≠ [] := by simpa using root
    have names : (name :: location).reverse.map Name.text =
        location.reverse.map Name.text ++ [name.text] := by simp
    rw [if_neg root, Location.path, names, Text.join_append _ filled (by simp)]
    simp [Location.path, Text.join]

/-- An absolute path is at least as long as those of the places above. -/
theorem Location.byteSize_path_le (inner outer : Location) :
    Text.byteSize (Location.path outer).text ≤
      Text.byteSize (Location.path (inner ++ outer)).text := by
  induction inner with
  | nil => exact Nat.le_refl _
  | cons name above ih =>
    refine Nat.le_trans ih ?_
    rw [List.cons_append, Location.text_path_cons, Text.byteSize_append]
    split
    · rename_i root
      rw [root]
      simp [Location.path, Text.join, Text.byteSize]
    · omega

theorem Route.steps_ne_nil {t : Text} (spelled : t ≠ [])
    (relative : (Route.ofText t).absolute = false) : (Route.ofText t).steps ≠ [] := by
  obtain ⟨first, others, divided⟩ := List.exists_cons_of_ne_nil (Text.splitOn_ne_nil '/' t)
  have unmarked : '/' ∉ first := Text.not_mem_of_mem_splitOn (t := t) (by simp [divided])
  have filled : first ≠ [] := by
    rintro rfl
    have whole := Text.join_splitOn '/' t
    rw [divided] at whole
    cases others with
    | nil => exact spelled whole.symm
    | cons second more => simp [Route.ofText, ← whole, Text.join] at relative
  obtain ⟨step, asked⟩ : ∃ step, Step.ofSegment first = some step := by
    by_cases dot : first = ['.']
    · exact ⟨.stay, dot ▸ Step.ofSegment_dot⟩
    · exact Step.ofSegment_of_counts unmarked (by simp [PathParts.isVoid, filled, dot])
  simp [Route.ofText, divided, asked]

/-- Steps that only go down, and end by going into something, ask for no directory beforehand. -/
theorem Step.askDirectory_of_down (slashed : Bool) {steps : List Step} (down : .up ∉ steps)
    (ends : steps.getLast? ≠ some .stay) (filled : slashed = true → steps ≠ []) :
    askDirectory slashed steps = false := by
  induction steps generalizing slashed with
  | nil =>
    cases slashed with
    | false => rfl
    | true => exact absurd rfl (filled rfl)
  | cons step later ih =>
    cases step with
    | into name => rfl
    | up => exact absurd List.mem_cons_self down
    | stay =>
      have more : later ≠ [] := by
        rintro rfl
        exact ends rfl
      obtain ⟨next, others, rfl⟩ := List.exists_cons_of_ne_nil more
      rw [List.getLast?_cons_cons] at ends
      exact ih _ (fun goesUp => down (List.mem_cons_of_mem _ goesUp)) ends (fun _ => more)

/-- Steps put behind others ask for nothing that those did not ask for. -/
theorem Step.askDirectory_append {asked slashed : Bool} {steps more : List Step}
    (modest : ∀ slashed, askDirectory slashed more = false)
    (asks : askDirectory slashed (steps ++ more) = true) : askDirectory asked steps = true := by
  induction steps generalizing asked slashed with
  | nil => exact absurd ((modest slashed).symm.trans asks) Bool.false_ne_true
  | cons step later ih =>
    cases step with
    | stay => exact ih asks
    | up => rfl
    | into name => exact asks

namespace FileSystem

/-- The steps lead from a location on to another, and where they ask for a directory there is one. -/
inductive Leads (files : FileSystem) :
    Nat → Bool → Location → List Step → Location → Prop where
  | done {links slashed location} : Leads files links slashed location [] location
  | stay {links slashed location later reached}
    (rest : Leads files links slashed location later reached) :
    Leads files links slashed location (.stay :: later) reached
  | up {links slashed location later reached}
    (rest : Leads files links slashed location.tail later reached) :
    Leads files links slashed location (.up :: later) reached
  | follow {links slashed location name target later reached}
    (directory : files.entry? location = some .directory)
    (short : ¬ nameLimit < Text.byteSize name.text)
    (link : files.entry? (name :: location) = some (.link target))
    (rest : Leads files links (slashed || (later.isEmpty && (Route.ofText target).slashed))
      (if (Route.ofText target).absolute then [] else location)
      ((Route.ofText target).steps ++ later) reached) :
    Leads files (links + 1) slashed location (.into name :: later) reached
  | into {links slashed location name later reached entry}
    (directory : files.entry? location = some .directory)
    (short : ¬ nameLimit < Text.byteSize name.text)
    (held : files.entry? (name :: location) = some entry) (plain : ∀ target, entry ≠ .link target)
    (asked : Step.askDirectory slashed later = true → entry = .directory)
    (rest : Leads files links slashed (name :: location) later reached) :
    Leads files links slashed location (.into name :: later) reached

/-- A walk that ends where it may end stands in a directory if one is asked for. -/
theorem Walks.directory_of_asked {files : FileSystem} {links : Nat} {slashed ending : Bool}
    {location reached : Location} {steps : List Step}
    (walks : Walks files true links slashed location steps (.present reached ending))
    (proper : ending = true → files.entry? reached = some .directory)
    (asked : Step.askDirectory slashed steps = true) :
    files.entry? location = some .directory := by
  cases steps with
  | nil =>
    cases walks
    exact proper asked
  | cons step later => exact walks.directory

theorem Walks.leads {files : FileSystem} {links : Nat} {slashed ending : Bool}
    {location reached : Location} {steps : List Step}
    (walks : Walks files true links slashed location steps (.present reached ending))
    (proper : ending = true → files.entry? reached = some .directory) :
    Leads files links slashed location steps reached := by
  generalize shape : Found.present reached ending = found at walks
  induction walks with
  | done =>
    cases shape
    exact .done
  | stay directory rest ih => exact .stay (ih shape)
  | up directory rest ih => exact .up (ih shape)
  | absent => cases shape
  | passed directory short link pass => cases pass
  | follow directory short link follows rest ih => exact .follow directory short link (ih shape)
  | into directory short held plain rest ih =>
    refine .into directory short held plain ?_ (ih shape)
    intro asked
    subst shape
    have here := rest.directory_of_asked proper asked
    exact Option.some.inj (held.symm.trans here)

def resume (files : FileSystem) (slashed : Bool) :
    Nat → Location → Text → List Step → Except FileError Location
  | 0, _, _, _ => .error .tooManyLinks
  | links + 1, directory, target, later =>
    files.traceFrom links (slashed || (later.isEmpty && (Route.ofText target).slashed))
      (if (Route.ofText target).absolute then [] else directory)
      ((Route.ofText target).steps ++ later)

section Trace

variable {files : FileSystem} {links : Nat} {slashed : Bool} {location : Location} {name : Name}
  {later : List Step}

theorem traceFrom_eq (steps : List Step) :
    files.traceFrom links slashed location steps =
      files.trace slashed (files.resume slashed links) location steps := by
  cases links with
  | zero => rfl
  | succ links => rfl

theorem traceFrom_nil : files.traceFrom links slashed location [] = .ok location := by
  rw [traceFrom_eq, trace]

theorem traceFrom_stay :
    files.traceFrom links slashed location (.stay :: later) =
      files.traceFrom links slashed location later := by
  rw [traceFrom_eq, trace, ← traceFrom_eq]

theorem traceFrom_up :
    files.traceFrom links slashed location (.up :: later) =
      files.traceFrom links slashed location.tail later := by
  rw [traceFrom_eq, trace, ← traceFrom_eq]

/-- A question about an entry that is there fails if it is too long. -/
theorem probe_eq {asked : Bool} {entry : Entry}
    (directory : files.entry? location = some .directory)
    (short : ¬ nameLimit < Text.byteSize name.text)
    (held : files.entry? (name :: location) = some entry)
    (proper : asked = true → entry = .directory) :
    files.probe location name asked =
      if pathLimit ≤ Text.byteSize (Location.path (name :: location)).text + asked.toNat then
        .error .nameTooLong
      else .ok entry := by
  have fine : ¬ (asked && decide (entry ≠ .directory)) = true := by
    simpa using proper
  simp only [probe, directory, if_neg short, held, if_neg fine]

theorem traceFrom_link {target : Text} (directory : files.entry? location = some .directory)
    (short : ¬ nameLimit < Text.byteSize name.text)
    (link : files.entry? (name :: location) = some (.link target)) :
    files.traceFrom (links + 1) slashed location (.into name :: later) =
      if pathLimit ≤ Text.byteSize (Location.path (name :: location)).text then
        .error .nameTooLong
      else
        files.traceFrom links (slashed || (later.isEmpty && (Route.ofText target).slashed))
          (if (Route.ofText target).absolute then [] else location)
          ((Route.ofText target).steps ++ later) := by
  rw [traceFrom_eq, trace, probe_eq directory short link (by simp)]
  by_cases long : pathLimit ≤ Text.byteSize (Location.path (name :: location)).text
  · have longer := Nat.le_add_right_of_le (k := (Step.askDirectory slashed later).toNat) long
    simp only [Bool.toNat_false, Nat.add_zero, if_pos long, probe, if_pos longer]
  · simp only [Bool.toNat_false, Nat.add_zero, if_neg long]
    rfl

theorem traceFrom_into {entry : Entry} (directory : files.entry? location = some .directory)
    (short : ¬ nameLimit < Text.byteSize name.text)
    (held : files.entry? (name :: location) = some entry) (plain : ∀ target, entry ≠ .link target)
    (asked : Step.askDirectory slashed later = true → entry = .directory) :
    files.traceFrom links slashed location (.into name :: later) =
      if pathLimit ≤ Text.byteSize (Location.path (name :: location)).text +
          (Step.askDirectory slashed later).toNat then
        .error .nameTooLong
      else files.traceFrom links slashed (name :: location) later := by
  rw [traceFrom_eq, trace, probe_eq directory short held (by simp),
    probe_eq directory short held asked, ← traceFrom_eq]
  split
  · rename_i target linked
    split at linked
    · cases linked
    · exact absurd (Except.ok.inj linked) (plain target)
  · by_cases long : pathLimit ≤ Text.byteSize (Location.path (name :: location)).text +
        (Step.askDirectory slashed later).toNat
    · simp only [if_pos long]
    · simp only [if_neg long]

end Trace

section Leads

variable {files : FileSystem} {links : Nat} {slashed : Bool} {location reached : Location}
  {steps : List Step}

/-- Where steps lead a trace gets, unless an absolute path on the way is too long. -/
theorem Leads.traceFrom (leads : Leads files links slashed location steps reached) :
    files.traceFrom links slashed location steps = .ok reached ∨
      files.traceFrom links slashed location steps = .error .nameTooLong := by
  induction leads with
  | done => exact .inl traceFrom_nil
  | stay rest ih => rwa [traceFrom_stay]
  | up rest ih => rwa [traceFrom_up]
  | follow directory short link rest ih =>
    rw [traceFrom_link directory short link]
    split
    · exact .inr rfl
    · exact ih
  | into directory short held plain asked rest ih =>
    rw [traceFrom_into directory short held plain asked]
    split
    · exact .inr rfl
    · exact ih

/-- Later files are traced alike. -/
theorem Leads.traceFrom_of_grown {later : FileSystem} (grown : Grown files later)
    (leads : Leads files links slashed location steps reached) :
    later.traceFrom links slashed location steps =
      files.traceFrom links slashed location steps := by
  induction leads with
  | done => rw [traceFrom_nil, traceFrom_nil]
  | stay rest ih => rw [traceFrom_stay, traceFrom_stay, ih]
  | up rest ih => rw [traceFrom_up, traceFrom_up, ih]
  | follow directory short link rest ih =>
    rw [traceFrom_link directory short link,
      traceFrom_link (grown.directory directory) short (grown.link link), ih]
  | @into _ slashed _ _ behind _ entry directory short held plain asked rest ih =>
    obtain ⟨other, kept, alike⟩ := grown.entries _ _ held
    have plainLater : ∀ target, other ≠ .link target := by
      cases alike with
      | same => exact plain
      | contents old new => exact fun target same => by cases same
    have askedLater : Step.askDirectory slashed behind = true → other = .directory := by
      intro asks
      cases asked asks
      cases alike
      rfl
    rw [traceFrom_into directory short held plain asked,
      traceFrom_into (grown.directory directory) short kept plainLater askedLater, ih]

/-- The absolute path of a location is shorter than the limit. -/
def Fits (location : Location) : Prop :=
  Text.byteSize (Location.path location).text < pathLimit

theorem Fits.of_append (inner : Location) {outer : Location} (fits : Fits (inner ++ outer)) :
    Fits outer :=
  Nat.lt_of_le_of_lt (Location.byteSize_path_le inner outer) fits

theorem Fits.tail (fits : Fits location) : Fits location.tail := by
  cases location with
  | nil => exact fits
  | cons name above => exact Fits.of_append [name] fits

/-- A trace that goes into something ends at a place with a short enough absolute path. -/
theorem Leads.fits (leads : Leads files links slashed location steps reached)
    (traced : files.traceFrom links slashed location steps = .ok reached)
    (goes : Fits location ∨ ∃ name, .into name ∈ steps) : Fits reached := by
  induction leads with
  | done => simpa using goes
  | stay rest ih =>
    rw [traceFrom_stay] at traced
    exact ih traced (by simpa using goes)
  | up rest ih =>
    rw [traceFrom_up] at traced
    exact ih traced (goes.imp Fits.tail (by simp))
  | @follow _ _ location name target _ _ directory short link rest ih =>
    rw [traceFrom_link directory short link] at traced
    split at traced
    · cases traced
    · rename_i brief
      have inside : Fits (name :: location) := Nat.lt_of_not_le brief
      refine ih traced (.inl ?_)
      split
      · exact Fits.of_append (name :: location) (by simpa using inside)
      · exact inside.tail
  | into directory short held plain asked rest ih =>
    rw [traceFrom_into directory short held plain asked] at traced
    split at traced
    · cases traced
    · exact ih traced (.inl (by unfold Fits; omega))

/-- A trace goes on behind its end, if the steps that are put there ask for nothing beforehand. -/
theorem Leads.traceFrom_append {asked : Bool} (slashed : Bool) {more : List Step}
    (leads : Leads files links asked location steps reached)
    (modest : ∀ slashed, Step.askDirectory slashed more = false)
    (traced : files.traceFrom links asked location steps = .ok reached) :
    ∃ left, files.traceFrom links slashed location (steps ++ more) =
      files.traceFrom left slashed reached more := by
  have further : more ≠ [] := by
    rintro rfl
    cases modest true
  induction leads with
  | done => exact ⟨_, rfl⟩
  | stay rest ih =>
    rw [traceFrom_stay] at traced
    rw [List.cons_append, traceFrom_stay]
    exact ih traced
  | up rest ih =>
    rw [traceFrom_up] at traced
    rw [List.cons_append, traceFrom_up]
    exact ih traced
  | @follow _ _ _ _ _ later _ directory short link rest ih =>
    have unfinished : (later ++ more).isEmpty = false := by simp [further]
    rw [traceFrom_link directory short link] at traced
    rw [List.cons_append, traceFrom_link directory short link, unfinished, Bool.false_and,
      Bool.or_false, ← List.append_assoc]
    split at traced
    · cases traced
    · rename_i brief
      rw [if_neg brief]
      exact ih traced
  | @into _ asked _ _ later _ _ directory short held plain proper rest ih =>
    have properBefore : Step.askDirectory slashed (later ++ more) = true → _ :=
      fun asks => proper (Step.askDirectory_append modest asks)
    rw [traceFrom_into directory short held plain proper] at traced
    rw [List.cons_append, traceFrom_into directory short held plain properBefore]
    split at traced
    · cases traced
    · rename_i brief
      have noMore : (Step.askDirectory slashed (later ++ more)).toNat ≤
          (Step.askDirectory asked later).toNat := by
        cases asks : Step.askDirectory slashed (later ++ more) with
        | false => exact Nat.zero_le _
        | true => rw [Step.askDirectory_append modest asks]
      rw [if_neg (by omega)]
      exact ih traced

end Leads

/-- Steps down where there are no links are traced, if the place they lead to has a short enough
absolute path. -/
theorem traceFrom_below {files : FileSystem} {top : Location} {links : Nat} {steps : List Step}
    (free : files.LinkFreeBelow top) (passable : files.Passable top steps) (down : .up ∉ steps)
    (ends : steps.getLast? ≠ some .stay) (fits : Fits (steps.foldl Step.after top)) :
    files.traceFrom links false top steps = .ok (steps.foldl Step.after top) := by
  induction steps generalizing top with
  | nil => exact traceFrom_nil
  | cons step later ih =>
    obtain ⟨directory, possible, rest⟩ := passable
    have downLater : .up ∉ later := fun goesUp => down (List.mem_cons_of_mem _ goesUp)
    have endsLater : later.getLast? ≠ some .stay := by
      intro last
      apply ends
      rw [List.getLast?_cons, last]
      rfl
    cases step with
    | up => exact absurd List.mem_cons_self down
    | stay =>
      rw [traceFrom_stay]
      exact ih free rest downLater endsLater fits
    | into name =>
      obtain ⟨short, entry, held⟩ := possible name rfl
      have plain : ∀ target, entry ≠ .link target := by
        rintro target rfl
        exact free.ne_link held
      have modest := Step.askDirectory_of_down false downLater endsLater (by simp)
      obtain ⟨inner, whole⟩ := suffix_foldl_after downLater (name :: top)
      have brief : Fits (name :: top) := by
        rw [List.foldl_cons, Step.after, ← whole] at fits
        exact fits.of_append inner
      rw [traceFrom_into directory short held plain (by simp [modest]), modest, Bool.toNat_false,
        Nat.add_zero, if_neg (Nat.not_le_of_lt brief)]
      exact ih free.down rest downLater endsLater fits

theorem directory_of_origin {files : FileSystem} {path : Path} {location : Location} {entry : Entry}
    (located : files.locate path = .ok (location, entry)) :
    files.entry? (files.origin (Route.ofText path.text).absolute) = some .directory := by
  obtain ⟨way, slashed, routed, walked, -⟩ := locate_eq_ok_iff.mp located
  obtain ⟨spelled, rfl⟩ := eq_ofText_of_route routed
  cases relative : (Route.ofText path.text).absolute with
  | true => rfl
  | false =>
    obtain ⟨first, later, steps⟩ :=
      List.exists_cons_of_ne_nil (Route.steps_ne_nil spelled relative)
    have walks := walkFrom_eq_ok_iff.mp walked
    rw [relative, steps] at walks
    exact walks.directory

/-- The absolute path of what a path leads to is the end of a trace. -/
theorem canonical_eq_trace {files : FileSystem} {path : Path} {location : Location} {entry : Entry}
    (located : files.locate path = .ok (location, entry)) :
    files.canonical path =
      (files.traceFrom linkLimit (Route.ofText path.text).slashed
        (files.origin (Route.ofText path.text).absolute)
        (Route.ofText path.text).steps).map Location.path := by
  obtain ⟨unmarked, -⟩ := possible_of_locate located
  have start := directory_of_origin located
  rw [origin] at start
  simp only [canonical, List.isEmpty_iff, text_ne_nil_of_locate located, List.contains_iff_mem,
    unmarked, if_false, start]
  rfl

theorem leads_of_locate {files : FileSystem} {path : Path} {location : Location} {entry : Entry}
    (located : files.locate path = .ok (location, entry)) :
    Leads files linkLimit (Route.ofText path.text).slashed
      (files.origin (Route.ofText path.text).absolute) (Route.ofText path.text).steps location := by
  obtain ⟨way, slashed, routed, walked, here, asked⟩ := locate_eq_ok_iff.mp located
  obtain ⟨-, rfl⟩ := eq_ofText_of_route routed
  exact (walkFrom_eq_ok_iff.mp walked).leads fun ends => asked ends ▸ here

/-- A path that leads somewhere has the absolute path of the place, unless an absolute path on the
way is too long. -/
theorem canonical_of_locate {files : FileSystem} {path : Path} {location : Location} {entry : Entry}
    (located : files.locate path = .ok (location, entry)) :
    files.canonical path = .ok (Location.path location) ∨
      files.canonical path = .error .nameTooLong := by
  rw [canonical_eq_trace located]
  rcases (leads_of_locate located).traceFrom with traced | failed
  · rw [traced]
    exact .inl rfl
  · rw [failed]
    exact .inr rfl

/-- The absolute path of what a path leads to is that of the place. -/
theorem eq_path_of_canonical {files : FileSystem} {path absolute : Path} {location : Location}
    {entry : Entry} (located : files.locate path = .ok (location, entry))
    (found : files.canonical path = .ok absolute) : absolute = Location.path location := by
  rcases canonical_of_locate located with same | failed
  · exact Except.ok.inj (found.symm.trans same)
  · cases found.symm.trans failed

/-- What a path that leads somewhere has for an absolute path does not change. -/
theorem canonical_of_grown {files later : FileSystem} (grown : Grown files later) {path : Path}
    {location : Location} {entry : Entry} (located : files.locate path = .ok (location, entry)) :
    later.canonical path = files.canonical path := by
  obtain ⟨other, locatedLater, -⟩ := locate_of_grown grown located
  have sameOrigin : later.origin = files.origin := by
    funext absolute
    rw [origin, origin, grown.workingDirectory]
  rw [canonical_eq_trace located, canonical_eq_trace locatedLater, sameOrigin,
    (leads_of_locate located).traceFrom_of_grown grown]

/-- What a trace finds is the place, if it finds one. -/
theorem traced_of_canonical {files : FileSystem} {path absolute : Path} {location : Location}
    {entry : Entry} (located : files.locate path = .ok (location, entry))
    (found : files.canonical path = .ok absolute) :
    files.traceFrom linkLimit (Route.ofText path.text).slashed
      (files.origin (Route.ofText path.text).absolute) (Route.ofText path.text).steps =
        .ok location := by
  rw [canonical_eq_trace located] at found
  rcases (leads_of_locate located).traceFrom with traced | failed
  · exact traced
  · rw [failed] at found
    cases found

/-- A path down from a directory that has an absolute path, and no links below it, has an absolute
path exactly if that of the place is short enough. -/
theorem canonical_join_eq_ok_iff {files : FileSystem} {top location : Location}
    {root relative absolute : Path} {content : ByteArray}
    (located : files.locate root = .ok (top, .directory))
    (found : files.canonical root = .ok absolute) (free : files.LinkFreeBelow top)
    (goes : relative.GoesDown)
    (inside : files.locate (root.join relative) = .ok (location, .file content)) :
    files.canonical (root.join relative) = .ok (Location.path location) ↔
      Text.byteSize (Location.path location).text < pathLimit := by
  have spelled := text_ne_nil_of_locate located
  obtain ⟨steps, sameStart⟩ := Path.steps_join goes.relative spelled
  have ends := Path.endsInName_of_join goes.relative spelled (endsInName_of_locate inside)
  have unslashed := (endsInName_of_locate inside).steps.2
  have modest := fun slashed => Step.askDirectory_of_down slashed goes.up_not_mem ends.steps.1
    fun _ => goes.steps_ne_nil
  constructor
  · intro short
    refine (leads_of_locate inside).fits (traced_of_canonical inside short) (.inr ?_)
    obtain ⟨segment, member⟩ := List.exists_mem_of_ne_nil _ goes.filled
    obtain ⟨name, -, made⟩ := goes.exists_name member
    rw [← relative.filter_steps] at made
    exact ⟨name, steps ▸ List.mem_append_right _ (List.mem_filter.mp made).1⟩
  · intro short
    obtain ⟨passable, leads⟩ := passable_of_locate_join located free goes inside
    obtain ⟨left, joined⟩ := (leads_of_locate located).traceFrom_append false modest
      (traced_of_canonical located found)
    rw [canonical_eq_trace inside, steps, sameStart, unslashed, joined,
      traceFrom_below free passable goes.up_not_mem ends.steps.1 (leads ▸ short), ← leads]
    rfl

end FileSystem

end TreeMigration
