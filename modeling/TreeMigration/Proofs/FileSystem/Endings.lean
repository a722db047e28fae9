import TreeMigration.Proofs.FileSystem.Resolution
import TreeMigration.Proofs.Path.Parts

/-!
How paths to files end. A slash or a dot at the end of a path asks for a directory, so a path that
leads to a file ends in a segment that counts.

The two differ in how they ask. A slash is remembered to the end of the walk and looked at there,
while a dot is a step, which can only be taken in a directory (`walkFrom_stay`); a walk with a dot
behind the file stops at it.
-/
namespace TreeMigration

namespace FileSystem

/-- A walk that ends by staying ends at a directory. -/
theorem walkFrom_stay {files : FileSystem} {links : Nat} {slashed : Bool} {found : Found}
    {location : Location} {steps : List Step}
    (walked : files.walkFrom true links slashed location (steps ++ [.stay]) = .ok found) :
    files.entry? found.location = some .directory := by
  obtain ⟨reached, ending, left, asked, -, after⟩ :=
    (walkFrom_eq_ok_iff.mp walked).split false rfl (by simp)
  cases after with
  | stay directory rest =>
    cases rest
    exact directory

/-- The last segment of a path to a file counts. -/
theorem last_counts_of_locate {files : FileSystem} {path : Path} {location : Location}
    {content : ByteArray} (located : files.locate path = .ok (location, .file content))
    {front : List Text} {last : Text} (divided : Text.splitOn '/' path.text = front ++ [last]) :
    PathParts.isVoid last = false := by
  obtain ⟨way, slashed, routed, walked, here, asked⟩ := locate_eq_ok_iff.mp located
  have unasked : slashed = false := by
    cases slashed with
    | false => rfl
    | true => cases asked rfl
  obtain ⟨spelled, rfl⟩ := eq_ofText_of_route routed
  cases void : PathParts.isVoid last with
  | false => rfl
  | true =>
    have whole := Text.join_splitOn '/' path.text
    rw [divided] at whole
    rcases (by simpa [PathParts.isVoid] using void : last = [] ∨ last = ['.']) with rfl | rfl
    · have ends : path.text.getLast? = some '/' := by
        have filled : front ≠ [] := by
          rintro rfl
          exact spelled whole.symm
        rw [← whole, Text.join_append _ filled (by simp)]
        simp [Text.join]
      have kept := (walk_fits walked).2 (by simp [Route.ofText, ends])
      cases unasked
      cases kept
    · have steps : (Route.ofText path.text).steps =
          front.filterMap Step.ofSegment ++ [.stay] := by
        have dot : Step.ofSegment ['.'] = some .stay := by decide
        simp [Route.ofText, divided, dot]
      unfold walk at walked
      rw [steps] at walked
      have directory := walkFrom_stay walked
      rw [Found.location, here] at directory
      cases directory

end FileSystem

end TreeMigration
