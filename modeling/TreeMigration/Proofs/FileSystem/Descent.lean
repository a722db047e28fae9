import TreeMigration.Proofs.FileSystem.LinkFree

/-!
Going down from a directory below which there are no links. However the way to the directory is
spelled, and whatever links it meets, a path that goes on from there leads to the location that its
names say.

A walk that ends at a directory goes on from there if the rest can be walked with however few links
left (`Walks.append`), and below the directory no link is met, so the number left does not matter.
`Path.GoesDown` names the paths that are meant: relative ones with a name and without two dots.

`locate_join_eq_file_iff` is both directions. From the path to the place, the steps stay below the
directory and end where they lead; from the place to the path, every directory on the way stands,
since what has something below it is a directory (`directory_of_below`), and what is left to ask is
whether the text is a possible path.
-/
namespace TreeMigration

/-- The steps to a joined path are those to its two parts. -/
theorem Path.steps_join {path other : Path} (relative : other.isAbsolute = false)
    (spelled : path.text ≠ []) :
    (Route.ofText (path.join other).text).steps =
      (Route.ofText path.text).steps ++ (Route.ofText other.text).steps ∧
    (Route.ofText (path.join other).text).absolute = (Route.ofText path.text).absolute := by
  obtain ⟨front, whole, ends⟩ := join_shape relative spelled
  have divided := Text.splitOn_append '/' front other.text
  rw [Route.ofText, Route.ofText, whole]
  dsimp only [Route.ofText]
  rw [divided, List.filterMap_append]
  rcases ends with ⟨same, filled⟩ | slashed
  · rw [same, List.head?_append_of_ne_nil _ filled]
    exact ⟨rfl, rfl⟩
  · have none : (Text.splitOn '/' []).filterMap Step.ofSegment = [] := by
      simp [Text.splitOn, Step.ofSegment_nil]
    rw [slashed, Text.splitOn_append, List.filterMap_append, none, List.append_nil,
      List.head?_append, List.head?_append]
    exact ⟨rfl, rfl⟩

/-- A joined path ends in a name only if its second part does. -/
theorem Path.endsInName_of_join {path other : Path} (relative : other.isAbsolute = false)
    (spelled : path.text ≠ []) (ends : (path.join other).EndsInName) : other.EndsInName := by
  intro front last divided
  obtain ⟨before, whole, -⟩ := join_shape relative spelled
  apply ends (Text.splitOn '/' before ++ front) last
  rw [whole, Text.splitOn_append, divided, List.append_assoc]

/-- A path that goes down: it is relative and goes into each of its names, of which it has one. -/
structure Path.GoesDown (path : Path) : Prop where
  relative : path.isAbsolute = false
  filled : path.parts.names ≠ []
  ordinary : ∀ segment ∈ path.parts.names,
    PathParts.isVoid segment = false ∧ segment ≠ ['.', '.'] ∧ '/' ∉ segment

namespace Path.GoesDown

variable {path : Path}

/-- Each name is gone into. -/
theorem exists_name (goes : path.GoesDown) {segment : Text} (member : segment ∈ path.parts.names) :
    ∃ name : Name, name.text = segment ∧ .into name ∈ path.moves := by
  obtain ⟨name, rfl⟩ := Name.exists_text_eq (goes.ordinary segment member)
  exact ⟨name, rfl, List.mem_filterMap.mpr ⟨name.text, member, Step.ofSegment_name name⟩⟩

theorem up_not_mem (goes : path.GoesDown) : .up ∉ (Route.ofText path.text).steps := by
  intro goesUp
  have made : .up ∈ path.moves := by
    rw [← path.filter_steps]
    exact List.mem_filter.mpr ⟨goesUp, by simp⟩
  obtain ⟨segment, member, asked⟩ := List.mem_filterMap.mp made
  obtain ⟨name, same⟩ := Step.eq_into_of_ordinary (goes.ordinary segment member) asked
  cases same

theorem steps_ne_nil (goes : path.GoesDown) : (Route.ofText path.text).steps ≠ [] := by
  intro none
  obtain ⟨first, member⟩ := List.exists_mem_of_ne_nil _ goes.filled
  obtain ⟨name, -, made⟩ := goes.exists_name member
  rw [← path.filter_steps, none] at made
  cases made

end Path.GoesDown

namespace FileSystem

/-- A walk that ends somewhere goes on from there, if the rest can be walked with however few links
left. -/
theorem Walks.append {files : FileSystem} {links : Nat} {asked slashed ending : Bool}
    {location reached : Location} {steps more : List Step} {found : Found}
    (before : Walks files true links asked location steps (.present reached ending))
    (further : more ≠ []) (after : ∀ left, Walks files true left slashed reached more found) :
    Walks files true links slashed location (steps ++ more) found := by
  generalize shape : Found.present reached ending = ended at before
  induction before with
  | done =>
    cases shape
    exact after _
  | stay directory rest ih => exact .stay directory (ih shape)
  | up directory rest ih => exact .up directory (ih shape)
  | absent => cases shape
  | passed directory short link pass => cases pass
  | @follow _ _ _ _ _ later _ directory short link follows rest ih =>
    have unfinished : (later ++ more).isEmpty = false := by simp [further]
    refine .follow directory short link (fun _ => rfl) ?_
    change Walks files true _ (slashed || ((later ++ more).isEmpty && _)) _
      (_ ++ (later ++ more)) found
    rw [unfinished, Bool.false_and, Bool.or_false, ← List.append_assoc]
    exact ih shape
  | into directory short held plain rest ih => exact .into directory short held plain (ih shape)

/-- A directory without links below is left only by going up. -/
theorem walks_iff_passable_below {files : FileSystem} {top : Location}
    (free : files.LinkFreeBelow top) {links : Nat} {slashed ending : Bool} {reached : Location}
    {steps : List Step} (down : .up ∉ steps) :
    Walks files true links slashed top steps (.present reached ending) ↔
      files.Passable top steps ∧ reached = steps.foldl Step.after top ∧ ending = slashed := by
  refine walks_iff_passable_within free List.suffix_rfl ?_
  intro step member place inside
  cases step with
  | stay => exact inside
  | up => exact absurd member down
  | into name => exact inside.trans (List.suffix_cons name place)

theorem short_of_passable {files : FileSystem} {location : Location} {steps : List Step}
    (passable : files.Passable location steps) {name : Name} (member : .into name ∈ steps) :
    Text.byteSize name.text ≤ nameLimit := by
  induction steps generalizing location with
  | nil => cases member
  | cons step later ih =>
    obtain ⟨-, fits, rest⟩ := passable
    rcases List.mem_cons.mp member with same | member
    · exact Nat.le_of_not_lt (fits name same.symm).1
    · exact ih rest member

/-- What something stands below is a directory. -/
theorem directory_of_below {files : FileSystem} {inner top : Location} {entry : Entry}
    (found : files.entry? (inner ++ top) = some entry) (below : inner ≠ []) :
    files.entry? top = some .directory := by
  induction inner generalizing entry with
  | nil => exact absurd rfl below
  | cons name above ih =>
    have directory := entry_above found
    by_cases last : above = []
    · rwa [last] at directory
    · exact ih directory last

/-- The names down to something that is there can be taken, if they are not too long. -/
theorem passable_names {files : FileSystem} {inner top : Location} {entry : Entry}
    (found : files.entry? (inner ++ top) = some entry)
    (short : ∀ segment ∈ inner.names, Text.byteSize segment ≤ nameLimit) :
    files.Passable top (inner.names.filterMap Step.ofSegment) := by
  induction inner using List.reverseRecOn generalizing top with
  | nil => trivial
  | append_singleton later name ih =>
    have names : Location.names (later ++ [name]) = name.text :: Location.names later := by
      simp [Location.names]
    rw [names] at short ⊢
    rw [List.append_assoc, List.singleton_append] at found
    rw [List.filterMap_cons_some (Step.ofSegment_name name)]
    obtain ⟨first, others⟩ := List.forall_mem_cons.mp short
    refine ⟨?_, ?_, ih found others⟩
    · exact @directory_of_below files (later ++ [name]) top entry (by simpa using found) (by simp)
    · rintro other same
      cases same
      refine ⟨Nat.not_lt_of_le first, ?_⟩
      by_cases last : later = []
      · exact ⟨entry, by simpa [last] using found⟩
      · exact ⟨_, directory_of_below found last⟩

/-- A path down from a directory below which there are no links takes its steps from there, however
the way to the directory goes. -/
theorem passable_of_locate_join {files : FileSystem} {top location : Location} {entry : Entry}
    {root relative : Path} (located : files.locate root = .ok (top, .directory))
    (free : files.LinkFreeBelow top) (goes : relative.GoesDown)
    (inside : files.locate (root.join relative) = .ok (location, entry)) :
    files.Passable top (Route.ofText relative.text).steps ∧
      location = (Route.ofText relative.text).steps.foldl Step.after top := by
  have spelled := text_ne_nil_of_locate located
  obtain ⟨way, ended, routed, walked, -⟩ := locate_eq_ok_iff.mp located
  obtain ⟨-, rfl⟩ := eq_ofText_of_route routed
  obtain ⟨way', ended', routed', walked', -⟩ := locate_eq_ok_iff.mp inside
  obtain ⟨-, rfl⟩ := eq_ofText_of_route routed'
  obtain ⟨steps, absolute⟩ := Path.steps_join goes.relative spelled
  -- the walk to the joined path comes by the directory, wherever a slash asks for one
  obtain ⟨reached, ending, left, rest, before, after⟩ :=
    (walkFrom_eq_ok_iff.mp walked').split (Route.ofText root.text).slashed steps goes.steps_ne_nil
  rw [absolute] at before
  have same : reached = top := by
    cases (walkFrom_eq_ok_iff.mpr before).symm.trans walked
    rfl
  subst same
  obtain ⟨passable, ends, -⟩ := (walks_iff_passable_below free goes.up_not_mem).mp after
  exact ⟨passable, ends⟩

/-- From a directory below which there are no links, a path down leads to a file exactly if the file
stands where the names say and the path is a possible one. -/
theorem locate_join_eq_file_iff {files : FileSystem} {top location : Location}
    {content : ByteArray} {root relative : Path}
    (located : files.locate root = .ok (top, .directory)) (free : files.LinkFreeBelow top)
    (goes : relative.GoesDown) :
    files.locate (root.join relative) = .ok (location, .file content) ↔
      location.names = top.names ++ relative.parts.names ∧
        files.entry? location = some (.file content) ∧ relative.EndsInName ∧
        '\x00' ∉ (root.join relative).text ∧
        Text.byteSize (root.join relative).text < pathLimit ∧
        ∀ segment ∈ relative.parts.names, Text.byteSize segment ≤ nameLimit := by
  have spelled := text_ne_nil_of_locate located
  obtain ⟨way, ended, routed, walked, -⟩ := locate_eq_ok_iff.mp located
  obtain ⟨-, rfl⟩ := eq_ofText_of_route routed
  obtain ⟨steps, absolute⟩ := Path.steps_join goes.relative spelled
  obtain ⟨inner, named, moved⟩ := foldl_after_names goes.ordinary top
  have leads : (Route.ofText relative.text).steps.foldl Step.after top = inner ++ top := by
    rw [← foldl_after_filter, relative.filter_steps, Path.moves, moved]
  have names : Location.names (inner ++ top) = top.names ++ relative.parts.names := by
    rw [← named]
    simp [Location.names]
  constructor
  · intro inside
    obtain ⟨passable, ends⟩ := passable_of_locate_join located free goes inside
    have moves := passable_filter_iff.1 passable
    rw [relative.filter_steps] at moves
    obtain ⟨unmarked, brief⟩ := possible_of_locate inside
    refine ⟨?_, entry_of_locate inside, ?_, unmarked, brief, ?_⟩
    · rw [ends, leads, names]
    · exact Path.endsInName_of_join goes.relative spelled (endsInName_of_locate inside)
    · intro segment member
      obtain ⟨name, rfl, made⟩ := goes.exists_name member
      exact short_of_passable moves made
  · rintro ⟨placed, here, ends, unmarked, brief, short⟩
    obtain rfl : location = inner ++ top := Location.names_injective (placed.trans names.symm)
    obtain ⟨last, -⟩ := ends.steps
    have joined := (Path.EndsInName.join goes.relative spelled ends).steps.2
    have passable : files.Passable top (Route.ofText relative.text).steps := by
      apply passable_filter_iff.2 last
      rw [relative.filter_steps, Path.moves, ← named]
      exact passable_names here (named ▸ short)
    have filled : (root.join relative).text ≠ [] := by
      obtain ⟨front, whole, -⟩ := Path.join_shape goes.relative spelled
      simp [whole]
    have possible := route_eq_ok_iff.mpr ⟨filled, unmarked, brief, rfl⟩
    refine locate_eq_ok_iff.mpr ⟨_, false, possible, ?_, here, by simp⟩
    refine walkFrom_eq_ok_iff.mpr ?_
    rw [steps, absolute, joined]
    refine (walkFrom_eq_ok_iff.mp walked).append goes.steps_ne_nil fun left => ?_
    exact (walks_iff_passable_below free goes.up_not_mem).mpr ⟨passable, leads.symm, rfl⟩

/-- A name in a directory is reached by the path of the directory, unless a link stands there or the
path to it is not a possible one. -/
theorem locate_join_name {files : FileSystem} {top : Location} {root : Path} {name : Name}
    {entry : Entry} (located : files.locate root = .ok (top, .directory))
    (here : files.entry? (name :: top) = some entry) (plain : ∀ target, entry ≠ .link target)
    (unmarked : '\x00' ∉ (root.join ⟨name.text⟩).text)
    (brief : Text.byteSize (root.join ⟨name.text⟩).text < pathLimit)
    (short : Text.byteSize name.text ≤ nameLimit) :
    files.locate (root.join ⟨name.text⟩) = .ok (name :: top, entry) := by
  have spelled := text_ne_nil_of_locate located
  obtain ⟨way, ended, routed, walked, directory, -⟩ := locate_eq_ok_iff.mp located
  obtain ⟨-, rfl⟩ := eq_ofText_of_route routed
  obtain ⟨steps, absolute⟩ := Path.steps_join name.isAbsolute spelled
  have into : (Route.ofText name.text).steps = [.into name] := by
    rw [Route.ofText, Text.splitOn_of_not_mem name.ordinary.2.2.2,
      List.filterMap_cons_some (Step.ofSegment_name name), List.filterMap_nil]
  have unslashed := (Path.EndsInName.join name.isAbsolute spelled name.endsInName).steps.2
  have filled : (root.join ⟨name.text⟩).text ≠ [] := by
    obtain ⟨front, whole, -⟩ := Path.join_shape name.isAbsolute spelled
    simp [whole]
  have possible := route_eq_ok_iff.mpr ⟨filled, unmarked, brief, rfl⟩
  refine locate_eq_ok_iff.mpr ⟨_, false, possible, ?_, here, by simp⟩
  refine walkFrom_eq_ok_iff.mpr ?_
  rw [steps, absolute, into, unslashed]
  exact (walkFrom_eq_ok_iff.mp walked).append (List.cons_ne_nil _ _) fun left =>
    .into directory (Nat.not_lt_of_le short) here plain .done

end FileSystem

end TreeMigration
