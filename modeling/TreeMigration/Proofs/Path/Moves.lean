import TreeMigration.Proofs.FileSystem.Ancestry
import TreeMigration.Proofs.Path.Joining
import TreeMigration.Proofs.Path.Locations

/-!
What the names of a path ask for. Segments that do not count ask for no move, so a path makes the
moves of its names: those of the paths above it and more, and those of a directory followed by those
of a path seen from it.

`Path.moves` are the steps of the names, and `Path.filter_steps` says that the steps of the route
are the same but for staying, which dots in the text ask for. Where there are no links staying has
no effect except to ask for a directory, so paths are compared by their moves. A path that
`EndsInName` makes a move last, so nothing is asked of what it leads to.
-/
namespace TreeMigration

/-- Where a step leads if it meets no link. -/
def Step.after (location : Location) : Step → Location
  | .stay => location
  | .up => location.tail
  | .into name => name :: location

/-- The steps that the names of a path ask for. -/
def Path.moves (path : Path) : List Step := path.parts.names.filterMap Step.ofSegment

/-- The last segment of the path counts. -/
def Path.EndsInName (path : Path) : Prop :=
  ∀ front last, Text.splitOn '/' path.text = front ++ [last] → PathParts.isVoid last = false

theorem Step.ofSegment_nil : ofSegment [] = none := rfl

theorem Step.ofSegment_dot : ofSegment ['.'] = some .stay := rfl

theorem Step.ofSegment_ne_stay {segment : Text} (counts : PathParts.isVoid segment = false) :
    ofSegment segment ≠ some .stay := by
  have noDot : segment ≠ ['.'] := by
    rintro rfl
    cases counts
  unfold ofSegment
  rw [dif_neg noDot]
  split
  · simp
  · split <;> simp

theorem Step.ofSegment_name (name : Name) : ofSegment name.text = some (.into name) := by
  obtain ⟨text, filled, dot, dots, unmarked⟩ := name
  simp [ofSegment, filled, dot, dots, unmarked]

/-- A segment that can be a name asks to go into it. -/
theorem Step.eq_into_of_ordinary {segment : Text} {step : Step}
    (ordinary : PathParts.isVoid segment = false ∧ segment ≠ ['.', '.'] ∧ '/' ∉ segment)
    (asked : ofSegment segment = some step) : ∃ name, step = .into name := by
  obtain ⟨name, rfl⟩ := Name.exists_text_eq ordinary
  exact ⟨name, Option.some.inj (asked.symm.trans (ofSegment_name name))⟩

/-- Segments that do not count ask for no step or for staying. -/
theorem Step.filter_ofSegment (segments : List Text) :
    (segments.filterMap ofSegment).filter (· ≠ .stay) =
      (segments.filter (!PathParts.isVoid ·)).filterMap ofSegment := by
  induction segments with
  | nil => rfl
  | cons segment later ih =>
    cases void : PathParts.isVoid segment with
    | true =>
      rcases (by simpa [PathParts.isVoid] using void : segment = [] ∨ segment = ['.']) with
        rfl | rfl
      · rw [List.filterMap_cons_none ofSegment_nil, ih, List.filter_cons_of_neg (by simp [void])]
      · rw [List.filterMap_cons_some ofSegment_dot, List.filter_cons_of_neg (by simp), ih,
          List.filter_cons_of_neg (by simp [void])]
    | false =>
      rw [List.filter_cons_of_pos (p := (!PathParts.isVoid ·)) (by simp [void])]
      cases asked : ofSegment segment with
      | none => rw [List.filterMap_cons_none asked, List.filterMap_cons_none asked, ih]
      | some step =>
        have moves : step ≠ .stay := by
          rintro rfl
          exact ofSegment_ne_stay void asked
        rw [List.filterMap_cons_some asked, List.filterMap_cons_some asked,
          List.filter_cons_of_pos (by simpa using moves), ih]

/-- The steps to a path are its moves, apart from staying. -/
theorem Path.filter_steps (path : Path) :
    (Route.ofText path.text).steps.filter (· ≠ .stay) = path.moves := by
  rw [Route.ofText, Step.filter_ofSegment, moves, names_eq, namesIn]

theorem Path.EndsInName.steps {path : Path} (ends : path.EndsInName) :
    (Route.ofText path.text).steps.getLast? ≠ some .stay ∧
      (Route.ofText path.text).slashed = false := by
  obtain ⟨front, last, divided⟩ := List.eq_nil_or_concat' _ |>.resolve_left
    (Text.splitOn_ne_nil '/' path.text)
  have counts := ends front last divided
  have unmarked : '/' ∉ last := Text.not_mem_of_mem_splitOn (t := path.text) (by simp [divided])
  obtain ⟨step, asked⟩ := Step.ofSegment_of_counts unmarked counts
  constructor
  · simp only [Route.ofText, divided, List.filterMap_append, List.filterMap_cons_some asked,
      List.filterMap_nil, List.getLast?_append, List.getLast?_singleton, Option.some_or]
    exact fun same => Step.ofSegment_ne_stay counts (asked.trans same)
  · rw [Route.ofText, beq_eq_false_iff_ne]
    intro slashed
    obtain ⟨before, shape⟩ := List.getLast?_eq_some_iff.mp slashed
    have pieces := Text.splitOn_append '/' before []
    rw [← shape, divided] at pieces
    obtain ⟨-, same⟩ := List.append_inj' pieces rfl
    cases same
    cases counts

/-- A path starts at the root exactly if it begins with a slash. -/
theorem Path.lead_eq_root_iff (path : Path) : path.parts.lead = .root ↔ path.isAbsolute = true := by
  obtain ⟨text⟩ := path
  cases text with
  | nil => simp [parts, Text.splitOn, isAbsolute]
  | cons c rest =>
    by_cases slash : c = '/'
    · have divided : Text.splitOn '/' (c :: rest) = [] :: Text.splitOn '/' rest := by
        rw [Text.splitOn, if_pos slash]
      rw [lead_eq divided (by simp), PathLead.ofFirst]
      simp [isAbsolute, slash]
    · obtain ⟨part, parts, divided⟩ : ∃ part parts,
          Text.splitOn '/' (c :: rest) = (c :: part) :: parts := by
        rw [Text.splitOn, if_neg slash]
        split
        · exact ⟨_, _, rfl⟩
        · exact ⟨_, _, rfl⟩
      rw [lead_eq divided (by simp), PathLead.ofFirst]
      simp [isAbsolute, slash]
      split <;> simp

namespace Path

/-- A path whose names continue those of another makes the moves of that one and then more. -/
theorem moves_of_components {path root : Path} {names : List Text}
    (same : path.components = (root.parts.lead, root.parts.names ++ names)) :
    path.moves = root.moves ++ names.filterMap Step.ofSegment ∧
      path.isAbsolute = root.isAbsolute := by
  obtain ⟨lead, whole⟩ := Prod.mk.inj same
  refine ⟨?_, ?_⟩
  · rw [moves, moves, whole, List.filterMap_append]
  · rw [Bool.eq_iff_iff, ← path.lead_eq_root_iff, ← root.lead_eq_root_iff, lead]

/-- The paths above a path make the first of its moves. -/
theorem moves_of_mem_ancestors {path above : Path} (member : above ∈ path.ancestors)
    (spelled : above.text ≠ []) :
    above.moves <+: path.moves ∧ above.isAbsolute = path.isAbsolute := by
  refine ⟨?_, ?_⟩
  · obtain ⟨step, more, whole⟩ := steps_of_mem_ancestors member spelled
    rw [← filter_steps, ← filter_steps, whole, List.filter_append]
    exact List.prefix_append _ _
  · obtain ⟨rest, whole⟩ := text_prefix_of_mem_ancestors member
    rw [isAbsolute, isAbsolute, ← whole, List.head?_append_of_ne_nil _ spelled]

theorem EndsInName.join {path other : Path} (relative : other.isAbsolute = false)
    (spelled : path.text ≠ []) (ends : other.EndsInName) : (path.join other).EndsInName := by
  intro front last divided
  obtain ⟨before, whole, -⟩ := join_shape relative spelled
  rw [whole, Text.splitOn_append] at divided
  obtain ⟨inner, ending, pieces⟩ := List.eq_nil_or_concat' _ |>.resolve_left
    (Text.splitOn_ne_nil '/' other.text)
  rw [pieces, ← List.append_assoc] at divided
  obtain ⟨-, same⟩ := List.append_inj' divided rfl
  exact ends inner last (pieces.trans (by rw [List.singleton_inj.mp same]))

end Path

namespace Name

/-- A name alone is a path that ends in that name. -/
theorem endsInName (name : Name) : (Path.mk name.text).EndsInName := by
  intro front last divided
  rw [Text.splitOn_of_not_mem name.ordinary.2.2.2, ← List.nil_append [name.text]] at divided
  obtain ⟨-, same⟩ := List.append_inj' divided rfl
  rw [← List.singleton_inj.mp same]
  exact name.counts

theorem isAbsolute (name : Name) : (Path.mk name.text).isAbsolute = false := by
  rw [Path.isAbsolute, beq_eq_false_iff_ne]
  intro slashed
  exact name.ordinary.2.2.2 (List.mem_of_mem_head? slashed)

/-- A name seen from a path is one more name. -/
theorem components_join (name : Name) {path : Path} (spelled : path.text ≠ []) :
    (path.join ⟨name.text⟩).components = (path.parts.lead, path.parts.names ++ [name.text]) := by
  have alone : Path.namesIn name.text = [name.text] := by
    rw [Path.namesIn, Text.splitOn_of_not_mem name.ordinary.2.2.2,
      List.filter_cons_of_pos (by simp [name.counts]), List.filter_nil]
  rw [Path.components_join name.isAbsolute spelled, alone]

/-- A name seen from a path is one more move. -/
theorem moves_join (name : Name) {path : Path} (spelled : path.text ≠ []) :
    (path.join ⟨name.text⟩).moves = path.moves ++ [.into name] ∧
      (path.join ⟨name.text⟩).isAbsolute = path.isAbsolute := by
  obtain ⟨moves, absolute⟩ := Path.moves_of_components (name.components_join spelled)
  rw [List.filterMap_cons_some (Step.ofSegment_name name), List.filterMap_nil] at moves
  exact ⟨moves, absolute⟩

end Name

end TreeMigration
