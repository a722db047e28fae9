import TreeMigration.Proofs.FileSystem.Endings
import TreeMigration.Proofs.Path.Moves

/-!
Paths where there are no symbolic links. Each step of a path then leads to a location that depends
on the step alone, so a path leads where its moves lead, and whether it leads anywhere is a question
about the locations on the way.

`Step.after` and `origin` compute where steps lead without looking at any entry, and `Passable` asks
of every step that it starts in a directory and that its name is there. With these two,
`walks_iff_passable` turns a walk into its end and a condition. The version
`walks_iff_passable_within` asks for the absence of links only at the places gone through, which is
what a way down from a directory needs when there are links elsewhere.

The consequences are about spellings: paths with the same moves lead to the same place if they lead
anywhere, and a path whose components continue those of another leads below it. Whether there are
links is decidable, so that examples can be checked by evaluation.
-/
namespace TreeMigration

def Entry.isLink : Entry → Bool
  | .link _ => true
  | _ => false

/-- A listed entry is the one found at its location. -/
theorem EntryTable.lookup_of_mem {table : EntryTable} (distinct : (table.map Prod.fst).Nodup)
    {location : Location} {entry : Entry} (member : (location, entry) ∈ table) :
    table.lookup location = some entry := by
  induction table with
  | nil => cases member
  | cons head rest ih =>
    obtain ⟨other, held⟩ := head
    obtain ⟨once, others⟩ := List.nodup_cons.mp distinct
    rcases List.mem_cons.mp member with same | later
    · cases same
      exact List.lookup_cons_self
    · have apart : location ≠ other := by
        rintro rfl
        exact once (List.mem_map.mpr ⟨(location, entry), later, rfl⟩)
      rw [List.lookup_cons, beq_false_of_ne apart]
      exact ih others later

namespace FileSystem

/-- What stands below the root is listed. -/
theorem entry?_eq_some_iff {files : FileSystem} {location : Location} {entry : Entry}
    (below : location ≠ []) :
    files.entry? location = some entry ↔ (location, entry) ∈ files.entries := by
  obtain ⟨name, above, rfl⟩ := List.exists_cons_of_ne_nil below
  constructor
  · intro found
    obtain ⟨before, after, whole, -⟩ := List.lookup_eq_some_iff.mp found
    simp [whole]
  · exact EntryTable.lookup_of_mem files.distinct

/-- There are no symbolic links below a location. -/
def LinkFreeBelow (files : FileSystem) (top : Location) : Prop :=
  ∀ location target, top <:+ location → files.entry? location ≠ some (.link target)

theorem linkFreeBelow_iff {files : FileSystem} {top : Location} :
    files.LinkFreeBelow top ↔
      ∀ listed ∈ files.entries, listed.1 ≠ [] → top <:+ listed.1 → listed.2.isLink = false := by
  constructor
  · rintro free ⟨location, entry⟩ member below inside
    cases entry with
    | link target =>
      exact absurd ((entry?_eq_some_iff below).mpr member) (free location target inside)
    | directory => rfl
    | file content => rfl
  · intro plain location target inside found
    have below : location ≠ [] := by
      rintro rfl
      cases found
    cases plain _ ((entry?_eq_some_iff below).mp found) below inside

instance decidableLinkFreeBelow (files : FileSystem) (top : Location) :
    Decidable (files.LinkFreeBelow top) :=
  decidable_of_iff _ linkFreeBelow_iff.symm

theorem LinkFreeBelow.down {files : FileSystem} {top : Location} {name : Name}
    (free : files.LinkFreeBelow top) : files.LinkFreeBelow (name :: top) :=
  fun location target inside => free location target ((List.suffix_cons name top).trans inside)

theorem LinkFreeBelow.ne_link {files : FileSystem} {top : Location} {name : Name} {target : Text}
    (free : files.LinkFreeBelow top) : files.entry? (name :: top) ≠ some (.link target) :=
  free _ _ (List.suffix_cons name top)

/-- There are no symbolic links. -/
def LinkFree (files : FileSystem) : Prop :=
  ∀ location target, files.entry? location ≠ some (.link target)

theorem linkFree_iff {files : FileSystem} :
    files.LinkFree ↔
      ∀ listed ∈ files.entries, listed.1 ≠ [] → listed.2.isLink = false := by
  have everywhere : files.LinkFree ↔ files.LinkFreeBelow [] :=
    ⟨fun free location target _ => free location target,
      fun free location target => free location target List.nil_suffix⟩
  simp only [everywhere, linkFreeBelow_iff, List.nil_suffix, true_implies]

instance decidableLinkFree (files : FileSystem) : Decidable files.LinkFree :=
  decidable_of_iff _ linkFree_iff.symm

/-- Where a relative path starts, or an absolute one. -/
def origin (files : FileSystem) (absolute : Bool) : Location :=
  if absolute then [] else files.workingDirectory

/-- Where the names of a path lead if they meet no link. -/
def target (files : FileSystem) (path : Path) : Location :=
  path.moves.foldl Step.after (files.origin path.isAbsolute)

/-- Every step starts in a directory, and every name stands in it. -/
def Passable (files : FileSystem) : Location → List Step → Prop
  | _, [] => True
  | location, step :: later =>
    files.entry? location = some .directory ∧
      (∀ name, step = .into name → ¬ nameLimit < Text.byteSize name.text ∧
        ∃ entry, files.entry? (name :: location) = some entry) ∧
      Passable files (Step.after location step) later

theorem passable_append {files : FileSystem} {location : Location} {steps more : List Step} :
    files.Passable location (steps ++ more) ↔
      files.Passable location steps ∧ files.Passable (steps.foldl Step.after location) more := by
  induction steps generalizing location with
  | nil => simp [Passable]
  | cons step later ih => simp only [List.cons_append, Passable, ih, List.foldl_cons, and_assoc]

/-- Staying is possible wherever another step follows. -/
theorem passable_filter_iff {files : FileSystem} {location : Location} {steps : List Step} :
    (files.Passable location steps → files.Passable location (steps.filter (· ≠ .stay))) ∧
    (steps.getLast? ≠ some .stay → files.Passable location (steps.filter (· ≠ .stay)) →
      files.Passable location steps) := by
  induction steps generalizing location with
  | nil => exact ⟨fun _ => trivial, fun _ _ => trivial⟩
  | cons step later ih =>
    have rest : (step :: later).getLast? ≠ some .stay → later.getLast? ≠ some .stay := by
      intro last
      cases later with
      | nil => simp
      | cons next others => rwa [List.getLast?_cons_cons] at last
    by_cases stays : step = .stay
    · subst stays
      rw [List.filter_cons_of_neg (by simp)]
      refine ⟨fun passable => ih.1 passable.2.2, fun last passable => ?_⟩
      have through := ih.2 (rest last) passable
      refine ⟨?_, by simp, through⟩
      cases later with
      | nil => exact absurd rfl last
      | cons next others => exact through.1
    · rw [List.filter_cons_of_pos (by simpa using stays)]
      exact ⟨fun ⟨directory, fits, passable⟩ => ⟨directory, fits, ih.1 passable⟩,
        fun last ⟨directory, fits, passable⟩ => ⟨directory, fits, ih.2 (rest last) passable⟩⟩

theorem foldl_after_filter (steps : List Step) (location : Location) :
    (steps.filter (· ≠ .stay)).foldl Step.after location = steps.foldl Step.after location := by
  induction steps generalizing location with
  | nil => rfl
  | cons step later ih =>
    by_cases stays : step = .stay
    · subst stays
      rw [List.filter_cons_of_neg (by simp), ih]
      rfl
    · rw [List.filter_cons_of_pos (by simpa using stays), List.foldl_cons, ih, List.foldl_cons]

/-- Steps that do not go up lead down. -/
theorem suffix_foldl_after {steps : List Step} (down : .up ∉ steps) (location : Location) :
    location <:+ steps.foldl Step.after location := by
  induction steps generalizing location with
  | nil => exact List.suffix_rfl
  | cons step later ih =>
    have further := ih fun goesUp => down (List.mem_cons_of_mem _ goesUp)
    cases step with
    | stay => exact further location
    | up => exact absurd List.mem_cons_self down
    | into name => exact (List.suffix_cons name location).trans (further (name :: location))

/-- Among places without links, if its steps stay among them, a walk ends where its steps lead, and
gets there if they can be taken. -/
theorem walks_iff_passable_within {files : FileSystem} {within : Location → Prop}
    (free : ∀ location target, within location → files.entry? location ≠ some (.link target))
    {links : Nat} {slashed ending : Bool} {location reached : Location} {steps : List Step}
    (start : within location)
    (stays : ∀ step ∈ steps, ∀ place, within place → within (Step.after place step)) :
    Walks files true links slashed location steps (.present reached ending) ↔
      files.Passable location steps ∧ reached = steps.foldl Step.after location ∧
        ending = slashed := by
  constructor
  · intro walks
    generalize shape : Found.present reached ending = found at walks
    induction walks with
    | done =>
      cases shape
      exact ⟨trivial, rfl, rfl⟩
    | stay directory rest ih =>
      obtain ⟨first, others⟩ := List.forall_mem_cons.mp stays
      obtain ⟨passable, leads⟩ := ih (first _ start) others shape
      exact ⟨⟨directory, by simp, passable⟩, leads⟩
    | up directory rest ih =>
      obtain ⟨first, others⟩ := List.forall_mem_cons.mp stays
      obtain ⟨passable, leads⟩ := ih (first _ start) others shape
      exact ⟨⟨directory, by simp, passable⟩, leads⟩
    | absent => cases shape
    | passed directory short link =>
      exact absurd link (free _ _ (stays _ List.mem_cons_self _ start))
    | follow directory short link =>
      exact absurd link (free _ _ (stays _ List.mem_cons_self _ start))
    | @into _ _ _ name _ _ entry directory short held plain rest ih =>
      obtain ⟨first, others⟩ := List.forall_mem_cons.mp stays
      obtain ⟨passable, leads⟩ := ih (first _ start) others shape
      refine ⟨⟨directory, ?_, passable⟩, leads⟩
      rintro other same
      cases same
      exact ⟨short, entry, held⟩
  · rintro ⟨passable, rfl, rfl⟩
    induction steps generalizing location with
    | nil => exact .done
    | cons step later ih =>
      obtain ⟨directory, fits, rest⟩ := passable
      obtain ⟨first, others⟩ := List.forall_mem_cons.mp stays
      have inside := first location start
      have further := ih inside others rest
      cases step with
      | stay => exact .stay directory further
      | up => exact .up directory further
      | into name =>
        obtain ⟨short, entry, held⟩ := fits name rfl
        exact .into directory short held (fun target same => free _ _ inside (same ▸ held)) further

/-- Without links a walk ends where its steps lead, and gets there if they can be taken. -/
theorem walks_iff_passable {files : FileSystem} (free : files.LinkFree) {links : Nat}
    {slashed ending : Bool} {location reached : Location} {steps : List Step} :
    Walks files true links slashed location steps (.present reached ending) ↔
      files.Passable location steps ∧ reached = steps.foldl Step.after location ∧
        ending = slashed :=
  @walks_iff_passable_within files (fun _ => True) (fun location target _ => free location target)
    _ _ _ _ _ _ trivial fun _ _ _ _ => trivial

/-- Without links a path leads where its names lead, and they can be taken. -/
theorem locate_linkFree {files : FileSystem} (free : files.LinkFree) {path : Path}
    {location : Location} {entry : Entry} (located : files.locate path = .ok (location, entry)) :
    route path = .ok (Route.ofText path.text) ∧
      files.Passable (files.origin path.isAbsolute) path.moves ∧
      location = files.target path ∧ files.entry? location = some entry := by
  obtain ⟨way, slashed, routed, walked, here, -⟩ := locate_eq_ok_iff.mp located
  obtain ⟨-, rfl⟩ := eq_ofText_of_route routed
  obtain ⟨passable, leads, -⟩ :=
    (walks_iff_passable free).mp (walkFrom_eq_ok_iff.mp walked)
  have moved := passable_filter_iff.1 passable
  rw [path.filter_steps] at moved
  refine ⟨routed, moved, ?_, here⟩
  rw [leads, ← foldl_after_filter, path.filter_steps]
  rfl

/-- A path that ends in a name leads there exactly if its names can be taken. -/
theorem locate_iff_passable {files : FileSystem} (free : files.LinkFree) {path : Path}
    (ends : path.EndsInName) {location : Location} {entry : Entry} :
    files.locate path = .ok (location, entry) ↔
      route path = .ok (Route.ofText path.text) ∧
        files.Passable (files.origin path.isAbsolute) path.moves ∧
        location = files.target path ∧ files.entry? location = some entry := by
  refine ⟨locate_linkFree free, ?_⟩
  rintro ⟨routed, passable, leads, here⟩
  obtain ⟨last, unslashed⟩ := ends.steps
  refine locate_eq_ok_iff.mpr ⟨_, false, routed, ?_, here, by simp⟩
  refine walkFrom_eq_ok_iff.mpr ((walks_iff_passable free).mpr ⟨?_, ?_, unslashed.symm⟩)
  · refine passable_filter_iff.2 last ?_
    rw [path.filter_steps]
    exact passable
  · rw [leads, target, ← path.filter_steps, foldl_after_filter]
    rfl

/-- Paths that make the same moves lead to the same place, if they lead anywhere. -/
theorem target_congr {files : FileSystem} {path other : Path}
    (same : path.components = other.components) : files.target path = files.target other := by
  have whole : path.components = (other.parts.lead, other.parts.names ++ []) := by
    rw [List.append_nil]
    exact same
  obtain ⟨moves, absolute⟩ := Path.moves_of_components whole
  rw [target, target, moves, absolute, List.filterMap_nil, List.append_nil]

/-- Names that a file system can have lead down, one location for each. -/
theorem foldl_after_names {names : List Text}
    (ordinary : ∀ segment ∈ names,
      PathParts.isVoid segment = false ∧ segment ≠ ['.', '.'] ∧ '/' ∉ segment)
    (location : Location) :
    ∃ inner : Location, inner.names = names ∧
      (names.filterMap Step.ofSegment).foldl Step.after location = inner ++ location := by
  induction names generalizing location with
  | nil => exact ⟨[], rfl, rfl⟩
  | cons segment later ih =>
    obtain ⟨name, rfl⟩ := Name.exists_text_eq (ordinary segment List.mem_cons_self)
    obtain ⟨inner, named, leads⟩ :=
      ih (fun other member => ordinary other (List.mem_cons_of_mem _ member)) (name :: location)
    refine ⟨inner ++ [name], ?_, ?_⟩
    · simp only [Location.names, List.reverse_append, List.reverse_singleton,
        List.singleton_append]
      exact congrArg (name.text :: ·) named
    · rw [List.filterMap_cons_some (Step.ofSegment_name name), List.foldl_cons, List.append_assoc,
        List.singleton_append]
      exact leads

/-- A path whose names continue those of another leads below the place that the other leads to. -/
theorem target_below (files : FileSystem) {path root : Path} {names : List Text}
    (same : path.components = (root.parts.lead, root.parts.names ++ names))
    (ordinary : ∀ segment ∈ names,
      PathParts.isVoid segment = false ∧ segment ≠ ['.', '.'] ∧ '/' ∉ segment) :
    ∃ inner : Location, inner.names = names ∧ files.target path = inner ++ files.target root := by
  obtain ⟨moves, absolute⟩ := Path.moves_of_components same
  obtain ⟨inner, named, leads⟩ := foldl_after_names ordinary (files.target root)
  refine ⟨inner, named, ?_⟩
  rw [← leads, target, target, moves, List.foldl_append, absolute]

/-- What a directory stands in is a directory. -/
theorem directory_tail {files : FileSystem} {location : Location}
    (directory : files.entry? location = some .directory) :
    files.entry? location.tail = some .directory := by
  cases location with
  | nil => rfl
  | cons name above => exact entry_above directory

/-- The last name of a path to a file is one that a file can have. -/
theorem last_ne_dots_of_locate {files : FileSystem} (free : files.LinkFree) {path : Path}
    {location : Location} {content : ByteArray}
    (located : files.locate path = .ok (location, .file content)) {names : List Text} {last : Text}
    (named : path.parts.names = names ++ [last]) : last ≠ ['.', '.'] := by
  rintro rfl
  obtain ⟨-, passable, leads, here⟩ := locate_linkFree free located
  have up : Step.ofSegment ['.', '.'] = some .up := rfl
  have moves : path.moves = names.filterMap Step.ofSegment ++ [.up] := by
    simp [Path.moves, named, up]
  rw [moves, passable_append] at passable
  rw [leads, target, moves, List.foldl_append] at here
  have directory := directory_tail passable.2.1
  cases here.symm.trans directory

/-- A path to a file ends in a name. -/
theorem endsInName_of_locate {files : FileSystem} {path : Path} {location : Location}
    {content : ByteArray} (located : files.locate path = .ok (location, .file content)) :
    path.EndsInName :=
  fun _ _ divided => last_counts_of_locate located divided

/-- Where a path leads, every other path with its components leads too, if it is a possible path and
ends in a name. -/
theorem locate_of_components {files : FileSystem} (free : files.LinkFree) {path other : Path}
    {location : Location} {entry : Entry} (located : files.locate path = .ok (location, entry))
    (same : other.components = path.components) (ends : other.EndsInName)
    (routed : route other = .ok (Route.ofText other.text)) :
    files.locate other = .ok (location, entry) := by
  obtain ⟨-, passable, leads, here⟩ := locate_linkFree free located
  have whole : other.components = (path.parts.lead, path.parts.names ++ []) := by
    rw [List.append_nil]
    exact same
  obtain ⟨moves, absolute⟩ := Path.moves_of_components whole
  rw [List.filterMap_nil, List.append_nil] at moves
  refine (locate_iff_passable free ends).mpr ⟨routed, ?_, ?_, here⟩
  · rw [moves, absolute]
    exact passable
  · rw [leads, target_congr same]

/-- A name seen from a path leads to that name in the place of the path. -/
theorem target_join (files : FileSystem) {path : Path} (spelled : path.text ≠ []) (name : Name) :
    files.target (path.join ⟨name.text⟩) = name :: files.target path := by
  obtain ⟨moves, absolute⟩ := name.moves_join spelled
  rw [target, moves, absolute, List.foldl_append]
  rfl

/-- A path into a place leads to a name in it. -/
theorem locate_join {files : FileSystem} (free : files.LinkFree) {path : Path} {name : Name}
    {location reached : Location} {entry entry' : Entry}
    (located : files.locate path = .ok (location, entry))
    (inside : files.locate (path.join ⟨name.text⟩) = .ok (reached, entry')) :
    reached = name :: location := by
  obtain ⟨-, -, rfl, -⟩ := locate_linkFree free located
  obtain ⟨-, -, rfl, -⟩ := locate_linkFree free inside
  exact files.target_join (text_ne_nil_of_locate located) name

/-- Paths that can be one of some file are spelled, without NUL, and not too long. -/
theorem route_eq_ok_iff {path : Path} {way : Route} :
    route path = .ok way ↔ path.text ≠ [] ∧ '\x00' ∉ path.text ∧
      Text.byteSize path.text < pathLimit ∧ way = Route.ofText path.text := by
  unfold route
  by_cases empty : path.text = []
  · simp [empty]
  by_cases marked : '\x00' ∈ path.text
  · simp [empty, marked]
  by_cases long : pathLimit ≤ Text.byteSize path.text
  · have notShort := Nat.not_lt_of_le long
    simp [empty, marked, long, notShort]
  · have short := Nat.lt_of_not_le long
    simp only [empty, marked, long, short, List.isEmpty_iff, List.contains_iff_mem, if_false,
      Except.ok.injEq, ne_eq, not_false_eq_true, true_and]
    exact eq_comm

/-- A path that leads somewhere has no NUL in it and is not too long. -/
theorem possible_of_locate {files : FileSystem} {path : Path} {location : Location} {entry : Entry}
    (located : files.locate path = .ok (location, entry)) :
    '\x00' ∉ path.text ∧ Text.byteSize path.text < pathLimit := by
  obtain ⟨way, -, routed, -⟩ := locate_eq_ok_iff.mp located
  obtain ⟨-, unmarked, short, -⟩ := route_eq_ok_iff.mp routed
  exact ⟨unmarked, short⟩

end FileSystem

end TreeMigration
