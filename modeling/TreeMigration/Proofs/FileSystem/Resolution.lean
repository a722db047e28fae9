import TreeMigration.Proofs.FileSystem.Growth
import TreeMigration.Proofs.FileSystem.Walks
import TreeMigration.Proofs.Outcome

/-!
Where paths lead in growing file systems. A path that leads somewhere leads there for good, and to
what was there unless that is a file.

The induction is over the rules of a walk in the earlier files (`Walks.of_grown`). Every entry met
on the way is still there and of its kind. Only the end needs care: a walk that ended at a name its
directory did not have may end at an entry later, so it is carried on only if nothing or no link has
come to stand there (`Found.FilledIn`). What a walk reports as absent is absent (`Walks.fits`),
which is what makes an entry placed at its end reachable by the same path.

`locate_eq_ok_iff` takes the question where a path leads apart into its route, the end of the walk
and the entry found, and is the form in which other modules use it.
-/
namespace TreeMigration

namespace Found

/-- The location at which a walk ended; nothing need stand there. -/
def location : Found → Location
  | .present location _ => location
  | .absent directory name _ => name :: directory

/-- Whether a slash asked for a directory. -/
def slashed : Found → Bool
  | .present _ slashed => slashed
  | .absent _ _ slashed => slashed

/-- A name is only reported as absent where it really is: in a directory that does not have it. -/
def Fits (files : FileSystem) : Found → Prop
  | .present _ _ => True
  | .absent directory name _ =>
    files.entry? directory = some .directory ∧ files.entry? (name :: directory) = none

/-- Later files have something at the end of a walk that found a name absent, and no link. -/
def FilledIn (later : FileSystem) : Found → Prop
  | .present _ _ => True
  | .absent directory name _ =>
    ∃ entry, later.entry? (name :: directory) = some entry ∧ ∀ target, entry ≠ .link target

end Found

namespace FileSystem

/-- A walk never forgets that a directory was asked for, and what it reports absent is absent. -/
theorem Walks.fits {files : FileSystem} {followLast : Bool} {links : Nat} {slashed : Bool}
    {location : Location} {steps : List Step} {found : Found}
    (walks : Walks files followLast links slashed location steps found) :
    found.Fits files ∧ (slashed = true → found.slashed = true) := by
  induction walks with
  | done => exact ⟨trivial, id⟩
  | stay directory rest ih => exact ih
  | up directory rest ih => exact ih
  | absent directory short missing => exact ⟨⟨directory, missing⟩, id⟩
  | passed directory short link pass => exact ⟨trivial, id⟩
  | follow directory short link follows rest ih =>
    exact ⟨ih.1, fun asked => ih.2 (by simp [asked])⟩
  | into directory short held plain rest ih => exact ih

/-- A walk that ends somewhere ends there in later files too, also one that passed over a last link
if it found nothing in its place. -/
theorem Walks.of_grown {files later : FileSystem} (grown : Grown files later) {followLast : Bool}
    {links : Nat} {slashed : Bool} {location : Location} {steps : List Step} {found : Found}
    (walks : Walks files followLast links slashed location steps found)
    (follows : followLast = true ∨ ∀ location slashed, found ≠ .present location slashed)
    (filled : found.FilledIn later) :
    Walks later true links slashed location steps (.present found.location found.slashed) := by
  induction walks with
  | done => exact .done
  | stay directory rest ih => exact .stay (grown.directory directory) (ih follows filled)
  | up directory rest ih => exact .up (grown.directory directory) (ih follows filled)
  | absent directory short missing =>
    obtain ⟨entry, placed, plain⟩ := filled
    exact .into (grown.directory directory) short placed plain .done
  | passed directory short link pass =>
    rcases follows with follow | absent
    · rw [pass] at follow
      cases follow
    · exact absurd rfl (absent _ _)
  | follow directory short link _ rest ih =>
    exact .follow (grown.directory directory) short (grown.link link) (fun _ => rfl)
      (ih follows filled)
  | into directory short held plain rest ih =>
    obtain ⟨other, kept, alike⟩ := grown.entries _ _ held
    refine .into (grown.directory directory) short kept ?_ (ih follows filled)
    cases alike with
    | same => exact plain
    | contents old new => exact fun target same => by cases same

theorem walk_of_grown {files later : FileSystem} (grown : Grown files later) {followLast : Bool}
    {found : Found} {route : Route}
    (follows : followLast = true ∨ ∀ location slashed, found ≠ .present location slashed)
    (filled : found.FilledIn later) (walked : files.walk followLast route = .ok found) :
    later.walk true route = .ok (.present found.location found.slashed) := by
  unfold walk at walked ⊢
  rw [grown.workingDirectory, walkFrom_eq_ok_iff]
  exact (walkFrom_eq_ok_iff.mp walked).of_grown grown follows filled

theorem walk_fits {files : FileSystem} {followLast : Bool} {found : Found} {route : Route}
    (walked : files.walk followLast route = .ok found) :
    found.Fits files ∧ (route.slashed = true → found.slashed = true) :=
  (walkFrom_eq_ok_iff.mp walked).fits

/-- What a path leads to, in terms of its route and the end of the walk. -/
theorem locate_eq_ok_iff {files : FileSystem} {path : Path} {location : Location} {entry : Entry} :
    files.locate path = .ok (location, entry) ↔
      ∃ way slashed, route path = .ok way ∧
        files.walk true way = .ok (.present location slashed) ∧
        files.entry? location = some entry ∧ (slashed = true → entry = .directory) := by
  constructor
  · intro located
    obtain ⟨way, routed, located⟩ := bind_eq_ok.mp located
    obtain ⟨found, walked, located⟩ := bind_eq_ok.mp located
    cases found with
    | absent directory name slashed => cases located
    | present reached slashed =>
      dsimp only at located
      split at located
      · cases located
      · rename_i here
        cases located
        exact ⟨way, slashed, routed, walked, here, fun _ => rfl⟩
      · rename_i other notDirectory here
        split at located
        · cases located
        · rename_i plain
          cases located
          exact ⟨way, slashed, routed, walked, here, fun asked => absurd asked plain⟩
  · rintro ⟨way, slashed, routed, walked, here, asked⟩
    unfold locate
    simp only [routed, walked, bind, Except.bind, here]
    cases entry with
    | directory => rfl
    | file content =>
      cases slashed
      · rfl
      · cases asked rfl
    | link target =>
      cases slashed
      · rfl
      · cases asked rfl

/-- A path that leads somewhere leads to the same location in later files, and to the same entry
unless that is a file. -/
theorem locate_of_grown {files later : FileSystem} (grown : Grown files later) {path : Path}
    {location : Location} {entry : Entry} (located : files.locate path = .ok (location, entry)) :
    ∃ other, later.locate path = .ok (location, other) ∧ entry.Alike other := by
  obtain ⟨way, slashed, routed, walked, here, asked⟩ := locate_eq_ok_iff.mp located
  obtain ⟨other, kept, alike⟩ := grown.entries location entry here
  have filled : (Found.present location slashed).FilledIn later := trivial
  refine ⟨other, locate_eq_ok_iff.mpr ⟨way, slashed, routed, ?_, kept, ?_⟩, alike⟩
  · exact walk_of_grown grown (.inl rfl) filled walked
  · intro directory
    cases asked directory
    cases alike
    rfl

theorem entry_of_locate {files : FileSystem} {path : Path} {location : Location} {entry : Entry}
    (located : files.locate path = .ok (location, entry)) :
    files.entry? location = some entry := by
  obtain ⟨-, -, -, -, here, -⟩ := locate_eq_ok_iff.mp located
  exact here

/-- Paths that lead to one location lead to one entry. -/
theorem entry_eq_of_locate {files : FileSystem} {path other : Path} {location : Location}
    {entry entry' : Entry} (located : files.locate path = .ok (location, entry))
    (located' : files.locate other = .ok (location, entry')) : entry = entry' := by
  have here := entry_of_locate located
  rw [entry_of_locate located'] at here
  cases here
  rfl

theorem isDirectory_iff {files : FileSystem} {path : Path} :
    files.isDirectory path = true ↔ ∃ location, files.locate path = .ok (location, .directory) := by
  unfold isDirectory
  split
  · rename_i location located
    simp [located]
  · rename_i other
    simp only [Bool.false_eq_true, false_iff]
    rintro ⟨location, located⟩
    exact other location located

theorem pathExists_iff {files : FileSystem} {path : Path} :
    files.pathExists path = true ↔
      ∃ location entry, files.locate path = .ok (location, entry) := by
  unfold pathExists
  split
  · rename_i found located
    exact ⟨fun _ => ⟨found.1, found.2, located⟩, fun _ => rfl⟩
  · rename_i located
    simp [located]

theorem isFile_iff {files : FileSystem} {path : Path} :
    files.isFile path = true ↔
      ∃ location content, files.locate path = .ok (location, .file content) := by
  unfold isFile
  split
  · rename_i location content located
    simp [located]
  · rename_i other
    simp only [Bool.false_eq_true, false_iff]
    rintro ⟨location, content, located⟩
    exact other location content located

/-- A route starts from a text and asks for what the text does. -/
theorem eq_ofText_of_route {path : Path} {way : Route} (routed : route path = .ok way) :
    path.text ≠ [] ∧ way = Route.ofText path.text := by
  unfold route at routed
  split at routed
  · cases routed
  · rename_i spelled
    split at routed
    · cases routed
    · split at routed
      · cases routed
      · cases routed
        exact ⟨by simpa using spelled, rfl⟩

theorem text_ne_nil_of_locate {files : FileSystem} {path : Path} {location : Location}
    {entry : Entry} (located : files.locate path = .ok (location, entry)) : path.text ≠ [] := by
  obtain ⟨way, slashed, routed, -⟩ := locate_eq_ok_iff.mp located
  exact (eq_ofText_of_route routed).1

end FileSystem

end TreeMigration
