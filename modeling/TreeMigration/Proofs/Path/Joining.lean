import TreeMigration.Proofs.Path.Ancestors

/-!
What counts in joined paths. The names of a path are those between its slashes that are not void, so
the names of a joined path are those of its two parts, and the parent of a path has all but the
last.

`Path.namesIn` divides a text at its slashes and keeps what counts, and `names_eq` says that these
are the names of the parts. Everything is then a statement about texts: two texts with a slash
between them have the names of both (`namesIn_append`), whether a slash was put in or stood there
already (`join_shape`). Components are the lead with the names, so they follow.
-/
namespace TreeMigration

/-- What a path starts with, told from what stands before its first slash. -/
def PathLead.ofFirst (first : Text) : PathLead :=
  if first = [] then .root else if first = ['.'] then .current else .bare

/-- The names in a text, as divided by slashes. -/
def Path.namesIn (t : Text) : List Text := (Text.splitOn '/' t).filter (!PathParts.isVoid ·)

namespace PathParts

theorem filter_pieces (parts : PathParts) : parts.pieces.filter (!isVoid ·) = parts.names := by
  obtain ⟨lead, segments⟩ := parts
  have filled : (if segments = [] then [[]] else segments).filter (!isVoid ·) =
      segments.filter (!isVoid ·) := by
    cases segments with
    | nil => rfl
    | cons first rest => rfl
  cases lead with
  | root => exact filled
  | current => rfl
  | bare => exact filled

theorem names_path {parts : PathParts} (unmarked : ∀ segment ∈ parts.segments, '/' ∉ segment) :
    Path.namesIn parts.path.text = parts.names := by
  rw [Path.namesIn, splitOn_path unmarked, filter_pieces]

theorem lead_path {parts : PathParts} (spelled : parts.Spelled) :
    parts.path.parts.lead = parts.lead := by
  by_cases above : parts.lead = .root → parts.segments ≠ []
  · rw [parts_path spelled above]
  · obtain ⟨lead, segments⟩ := parts
    simp only [Classical.not_imp, not_not] at above
    obtain ⟨rfl, rfl⟩ := above
    rfl

theorem filter_withoutVoidEnd (segments : List Text) :
    (withoutVoidEnd segments).filter (!isVoid ·) = segments.filter (!isVoid ·) := by
  rw [withoutVoidEnd, List.filter_reverse, filter_dropWhile, ← List.filter_reverse,
    List.reverse_reverse]

/-- The nearest path above one with names has all of them but the last. -/
theorem head_pathsAbove {lead : PathLead} {reversed names : List Text} {last : Text}
    (named : reversed.reverse.filter (!isVoid ·) = names ++ [last]) :
    ∃ segments, (pathsAbove lead reversed).head? = some (path ⟨lead, segments⟩) ∧
      segments <+: reversed.reverse ∧ segments.filter (!isVoid ·) = names := by
  induction reversed with
  | nil => simp at named
  | cons segment earlier ih =>
    rw [List.reverse_cons, List.filter_append] at named
    rw [pathsAbove, List.reverse_cons]
    cases void : isVoid segment with
    | true =>
      have shorter : earlier.reverse.filter (!isVoid ·) = names ++ [last] := by
        simpa [void] using named
      obtain ⟨segments, first, begins, kept⟩ := ih shorter
      exact ⟨segments, by simpa using first, begins.trans (List.prefix_append _ _), kept⟩
    | false =>
      have split : earlier.reverse.filter (!isVoid ·) ++ [segment] = names ++ [last] := by
        simpa [void] using named
      obtain ⟨before, -⟩ := List.append_inj' split rfl
      refine ⟨withoutVoidEnd earlier.reverse, ?_, ?_, ?_⟩
      · simp [withoutVoidEnd]
      · exact (withoutVoidEnd_begins _).trans (List.prefix_append _ _)
      · rw [filter_withoutVoidEnd, before]

end PathParts

namespace Path

theorem names_eq (path : Path) : path.parts.names = namesIn path.text := by
  rw [namesIn, path.splitOn_text, PathParts.filter_pieces]

theorem lead_eq {path : Path} {first : Text} {rest : List Text}
    (divided : Text.splitOn '/' path.text = first :: rest) (spelled : path.text ≠ []) :
    path.parts.lead = PathLead.ofFirst first := by
  have alone : first = [] → rest ≠ [] := by
    rintro rfl rfl
    have whole := Text.join_splitOn '/' path.text
    rw [divided] at whole
    exact spelled whole.symm
  unfold parts PathLead.ofFirst
  rw [divided]
  by_cases root : first = []
  · subst root
    cases rest with
    | nil => exact absurd rfl (alone rfl)
    | cons second later => rfl
  · by_cases current : first = ['.']
    · subst current
      rfl
    · simp [root, current]

theorem namesIn_append (front back : Text) :
    namesIn (front ++ '/' :: back) = namesIn front ++ namesIn back := by
  rw [namesIn, Text.splitOn_append, List.filter_append]
  rfl

/-- A path ending in a slash, or not, is divided like the text before that slash. -/
theorem join_shape {path other : Path} (relative : other.isAbsolute = false)
    (spelled : path.text ≠ []) :
    ∃ front, (path.join other).text = front ++ '/' :: other.text ∧
      (path.text = front ∧ front ≠ [] ∨ path.text = front ++ ['/']) := by
  unfold join
  rw [relative, if_neg Bool.false_ne_true]
  have filled : path.text.isEmpty = false := by simpa using spelled
  rw [filled, Bool.false_or]
  split
  · rename_i slashed
    obtain ⟨front, shape⟩ := List.getLast?_eq_some_iff.mp (eq_of_beq slashed)
    exact ⟨front, by simp [shape], .inr shape⟩
  · exact ⟨path.text, rfl, .inl ⟨rfl, spelled⟩⟩

/-- A relative path seen from another adds its names. -/
theorem components_join {path other : Path} (relative : other.isAbsolute = false)
    (spelled : path.text ≠ []) :
    (path.join other).components =
      (path.parts.lead, path.parts.names ++ namesIn other.text) := by
  obtain ⟨front, whole, ends⟩ := join_shape relative spelled
  have divided := Text.splitOn_append '/' front other.text
  rw [← whole] at divided
  cases shape : Text.splitOn '/' front with
  | nil => exact absurd shape (Text.splitOn_ne_nil '/' front)
  | cons first rest =>
    rw [shape, List.cons_append] at divided
    have lead : (path.join other).parts.lead = path.parts.lead := by
      rw [lead_eq divided (by simp [whole])]
      rcases ends with ⟨same, -⟩ | slashed
      · exact (lead_eq (same ▸ shape) spelled).symm
      · have before := Text.splitOn_append '/' front []
        rw [shape, List.cons_append, ← slashed] at before
        exact (lead_eq before spelled).symm
    have names : path.parts.names = namesIn front := by
      rw [names_eq]
      rcases ends with ⟨same, -⟩ | slashed
      · rw [same]
      · rw [slashed, namesIn_append]
        simp [namesIn, Text.splitOn, PathParts.isVoid]
    rw [components, lead, names_eq, whole, namesIn_append, names]

/-- A path with nothing in front of its first name has a name. -/
theorem names_ne_nil_of_bare {path : Path} (bare : path.parts.lead = .bare)
    (spelled : path.text ≠ []) : path.parts.names ≠ [] := by
  cases divided : Text.splitOn '/' path.text with
  | nil => exact absurd divided (Text.splitOn_ne_nil '/' path.text)
  | cons first rest =>
    rw [lead_eq divided spelled, PathLead.ofFirst] at bare
    rw [names_eq, namesIn, divided]
    split at bare
    · cases bare
    · split at bare
      · cases bare
      · rename_i filled noDot
        have counts : PathParts.isVoid first = false := by
          simp [PathParts.isVoid, filled, noDot]
        simp [counts]

theorem parent?_of_names {path : Path} {names : List Text} {last : Text}
    (named : path.parts.names = names ++ [last]) :
    ∃ parent, path.parent? = some parent ∧ parent.components = (path.parts.lead, names) := by
  have spelled := path.parts_spelled
  have reversed := path.parts.segments.reverse_reverse
  have counted : path.parts.segments.reverse.reverse.filter (!PathParts.isVoid ·) =
      names ++ [last] := by
    rw [reversed]
    exact named
  obtain ⟨segments, first, begins, kept⟩ :=
    @PathParts.head_pathsAbove path.parts.lead _ _ _ counted
  rw [reversed] at begins
  have front : PathParts.Spelled ⟨path.parts.lead, segments⟩ := spelled.of_prefix begins
  refine ⟨_, first, ?_⟩
  rw [components, PathParts.lead_path front, names_eq, PathParts.names_path front.unmarked]
  exact congrArg _ kept

/-- A path whose last name is replaced keeps what stands before it. -/
theorem components_withFileName {path : Path} {names : List Text} {last name : Text}
    (named : path.parts.names = names ++ [last]) (ordinary : last ≠ ['.', '.'])
    (upper : path.parts.lead = .bare → names ≠ []) (relative : (Path.mk name).isAbsolute = false) :
    (path.withFileName name).components = (path.parts.lead, names ++ namesIn name) ∧
      ∃ front, (path.withFileName name).text = front ++ '/' :: name := by
  obtain ⟨parent, found, same⟩ := parent?_of_names named
  have lead : parent.parts.lead = path.parts.lead := congrArg Prod.fst same
  have kept : parent.parts.names = names := congrArg Prod.snd same
  have whole : path.withFileName name = parent.join ⟨name⟩ := by
    simp [withFileName, fileName?, named, ordinary, found]
  have spelled : parent.text ≠ [] := by
    intro empty
    have bare : parent.parts = ⟨.bare, []⟩ := by
      unfold parts
      rw [empty]
      rfl
    rw [bare] at lead kept
    exact upper lead.symm kept.symm
  obtain ⟨front, shape, -⟩ := join_shape relative spelled
  rw [whole]
  exact ⟨by rw [components_join relative spelled, lead, kept], front, shape⟩

end Path

end TreeMigration
