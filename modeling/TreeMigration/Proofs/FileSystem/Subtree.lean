import TreeMigration.Proofs.FileSystem.Lines
import TreeMigration.Proofs.FileSystem.LinkFree

/-!
Changes below one place. Without links, what is written at paths that continue the path of a
directory changes nothing outside it, so what other paths lead to stays what it was.

`GrownBelow` is growth with a location: whatever is new or different stands there or below. It
follows from where the written paths lead (`Confined.grownBelow`). The directories made above such a
path are the delicate part, as their paths may be above the directory itself; but all that leads to
the directory is there already, so nothing is made of it.

`Apart` says of two paths that neither leads to, or into, what the other leads to. A path apart from
the place of growth leads to the same entry and reads the same lines afterwards (`locate`,
`readLines`). Being apart is decidable, like the absence of links.
-/
namespace TreeMigration

/-- What lies below one of two separate places does not lie below the other. -/
theorem not_suffix_of_apart {top other location : Location}
    (apart : ¬ top <:+ other ∧ ¬ other <:+ top) (below : top <:+ location) :
    ¬ other <:+ location := by
  intro inside
  rcases List.suffix_or_suffix_of_suffix below inside with into | into
  · exact apart.1 into
  · exact apart.2 into

namespace FileSystem

/-- Later files have grown at and below a location and nowhere else. -/
structure GrownBelow (top : Location) (files later : FileSystem) : Prop where
  grown : Grown files later
  outside : ∀ location, ¬ top <:+ location → later.entry? location = files.entry? location

/-- Neither of two paths leads to, or into, what the other leads to. -/
def Apart (files : FileSystem) (path other : Path) : Prop :=
  ∀ location place entry entry', files.locate path = .ok (location, entry) →
    files.locate other = .ok (place, entry') → ¬ location <:+ place ∧ ¬ place <:+ location

instance decidableApart (files : FileSystem) (path other : Path) :
    Decidable (files.Apart path other) :=
  match first : files.locate path, second : files.locate other with
  | .ok (location, entry), .ok (place, entry') =>
    decidable_of_iff (¬ location <:+ place ∧ ¬ place <:+ location)
      ⟨by
        rintro apart _ _ _ _ located located'
        cases first.symm.trans located
        cases second.symm.trans located'
        exact apart,
      fun apart => apart location place entry entry' first second⟩
  | .error _, _ => isTrue fun _ _ _ _ located => by cases first.symm.trans located
  | .ok _, .error _ => isTrue fun _ _ _ _ _ located => by cases second.symm.trans located

/-- Growth does not change where moves lead. -/
theorem Grown.target {files later : FileSystem} (grown : Grown files later) (path : Path) :
    later.target path = files.target path := by
  rw [FileSystem.target, FileSystem.target, origin, origin, grown.workingDirectory]

namespace GrownBelow

variable {top : Location} {files later : FileSystem}

theorem locate (below : GrownBelow top files later) {path : Path} {location : Location}
    {entry : Entry} (located : files.locate path = .ok (location, entry))
    (out : ¬ top <:+ location) : later.locate path = .ok (location, entry) := by
  obtain ⟨other, leads, -⟩ := locate_of_grown below.grown located
  have here := entry_of_locate leads
  rw [below.outside location out, entry_of_locate located, Option.some.injEq] at here
  rw [leads, here]

theorem readLines (below : GrownBelow top files later) {path : Path} {lines : List Text}
    (read : files.readLines path = .ok lines)
    (out : ∀ location entry, files.locate path = .ok (location, entry) → ¬ top <:+ location) :
    later.readLines path = .ok lines := by
  obtain ⟨location, content, leads, decoded⟩ := readLines_eq_ok_iff.mp read
  exact readLines_eq_ok_iff.mpr
    ⟨location, content, below.locate leads (out location _ leads), decoded⟩

end GrownBelow

/-- Where some steps can be taken to a directory, each of them ends in one. -/
theorem directory_of_passable {files : FileSystem} {location : Location} {steps more : List Step}
    (passable : files.Passable location (steps ++ more))
    (last : files.entry? ((steps ++ more).foldl Step.after location) = some .directory) :
    files.entry? (steps.foldl Step.after location) = some .directory := by
  cases more with
  | nil => rwa [List.append_nil] at last
  | cons step later => exact (passable_append.mp passable).2.1

/-- Links that later files do not have were never there. -/
theorem Grown.linkFree {files later : FileSystem} (grown : Grown files later)
    (free : later.LinkFree) : files.LinkFree :=
  fun location target link => free location target (grown.link link)

/-- A name that a place already had is found through the path of the place. -/
theorem locate_join_of_later {files later : FileSystem} (grown : Grown files later)
    (free : later.LinkFree) {path : Path} {name : Name} {location reached : Location}
    {entry entry' held : Entry} (located : files.locate path = .ok (location, entry))
    (inside : later.locate (path.join ⟨name.text⟩) = .ok (reached, entry'))
    (here : files.entry? (name :: location) = some held) :
    files.locate (path.join ⟨name.text⟩) = .ok (name :: location, held) := by
  have freeBefore := grown.linkFree free
  have spelled := text_ne_nil_of_locate located
  obtain ⟨moves, absolute⟩ := name.moves_join spelled
  obtain ⟨-, passable, rfl, -⟩ := locate_linkFree freeBefore located
  obtain ⟨routed, further, -, -⟩ := locate_linkFree free inside
  rw [moves, passable_append] at further
  obtain ⟨-, -, fits, -⟩ := further
  have ends := name.endsInName.join name.isAbsolute spelled
  refine (locate_iff_passable freeBefore ends).mpr
    ⟨routed, ?_, (files.target_join spelled name).symm, here⟩
  rw [moves, absolute, passable_append]
  refine ⟨passable, entry_above here, ?_, trivial⟩
  rintro other same
  cases same
  exact ⟨(fits name rfl).1, held, here⟩

/-- Writing makes no links. -/
theorem Confined.linkFree {written made : List Path} {files later : FileSystem}
    (confined : Confined written made files later) (free : files.LinkFree) : later.LinkFree := by
  intro location target link
  by_cases kept : later.entry? location = files.entry? location
  · exact free location target (kept.symm.trans link)
  · rcases confined.changes location kept with ⟨path, -, content, leads⟩ | ⟨-, path, -, leads⟩
    · cases link.symm.trans (entry_of_locate leads)
    · cases link.symm.trans (entry_of_locate leads)

/-- Writing at paths that continue the path of a directory changes nothing outside it: whatever is
made above such a path is in the directory too, since all that leads to the directory is there. -/
theorem Confined.grownBelow {root : Path} {top : Location} {written : List Path}
    {files later : FileSystem} (free : files.LinkFree)
    (located : files.locate root = .ok (top, .directory))
    (confined : Confined written (written.flatMap Path.ancestors) files later)
    (inside : ∀ path ∈ written, ∃ names,
      (∀ segment ∈ names, PathParts.isVoid segment = false ∧ segment ≠ ['.', '.'] ∧
        '/' ∉ segment) ∧
      path.components = (root.parts.lead, root.parts.names ++ names)) :
    GrownBelow top files later where
  grown := confined.grown
  outside := by
    obtain ⟨-, passable, rfl, isDirectory⟩ := locate_linkFree free located
    have laterFree := confined.linkFree free
    intro location out
    by_contra changed
    rcases confined.changes location changed with
      ⟨path, isWritten, content, leads⟩ | ⟨missing, above, isMade, leads⟩
    · obtain ⟨names, ordinary, whole⟩ := inside path isWritten
      obtain ⟨-, -, rfl, -⟩ := locate_linkFree laterFree leads
      obtain ⟨inner, -, reached⟩ := target_below later whole ordinary
      refine out ?_
      rw [reached, confined.grown.target]
      exact List.suffix_append inner _
    · obtain ⟨path, isWritten, member⟩ := List.mem_flatMap.mp isMade
      obtain ⟨names, ordinary, whole⟩ := inside path isWritten
      obtain ⟨-, -, rfl, -⟩ := locate_linkFree laterFree leads
      obtain ⟨moves, absolute⟩ := Path.moves_of_components whole
      obtain ⟨begins, same⟩ :=
        Path.moves_of_mem_ancestors member (text_ne_nil_of_locate leads)
      have reached : later.target above =
          above.moves.foldl Step.after (files.origin root.isAbsolute) := by
        rw [confined.grown.target, target, same, absolute]
      rw [reached] at missing out
      rcases List.prefix_or_prefix_of_prefix begins ⟨_, moves.symm⟩ with
        ⟨more, split⟩ | ⟨front, split⟩
      · -- a directory on the way to the root is no new one
        rw [target, ← split] at isDirectory
        rw [← split] at passable
        rw [directory_of_passable passable isDirectory] at missing
        cases missing
      · rw [← split, moves, List.prefix_append_right_inj] at begins
        refine out ?_
        rw [← split, List.foldl_append]
        refine suffix_foldl_after ?_ _
        intro goesUp
        obtain ⟨segment, named, asked⟩ := List.mem_filterMap.mp (begins.subset goesUp)
        obtain ⟨name, same⟩ := Step.eq_into_of_ordinary (ordinary segment named) asked
        cases same

end FileSystem

end TreeMigration
