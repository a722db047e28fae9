import TreeMigration.Path.Basic
import Mathlib.Data.List.Basic

/-!
Paths and the parts they are spelled from. A path is divided at its slashes and nowhere else, so
putting the parts together and dividing again gives the parts back; the paths above a path are those
above its parent with the parent in front.

Dividing a text at a mark and joining the parts again are inverse to each other (`join_splitOn`,
`splitOn_join`), the second for parts without the mark. For paths the lead comes in between:
`PathParts.Spelled` says which parts a path can have, and `parts_path` that they are found again.
The root is the exception, as it has an empty segment behind its slash.
-/
namespace TreeMigration

namespace Text

theorem splitOn_eq (mark : Char) (t : Text) : splitOn mark t = List.splitOn mark t := by
  induction t with
  | nil => rfl
  | cons c rest ih =>
    rw [splitOn, List.splitOn_cons_eq_if_modifyHead, ih]
    by_cases marked : c = mark
    · simp [marked]
    · simp only [marked, if_false, beq_iff_eq]
      cases shape : List.splitOn mark rest with
      | nil => exact absurd shape (List.splitOn_ne_nil mark rest)
      | cons part parts => rfl

theorem splitOn_ne_nil (mark : Char) (t : Text) : splitOn mark t ≠ [] := by
  rw [splitOn_eq]
  exact List.splitOn_ne_nil mark t

theorem splitOn_append (mark : Char) (s t : Text) :
    splitOn mark (s ++ mark :: t) = splitOn mark s ++ splitOn mark t := by
  simp only [splitOn_eq]
  exact List.splitOn_append_cons_self s t

theorem splitOn_of_not_mem {mark : Char} {t : Text} (unmarked : mark ∉ t) :
    splitOn mark t = [t] := by
  rw [splitOn_eq]
  exact List.splitOn_eq_singleton unmarked

theorem join_splitOn (mark : Char) (t : Text) : join [mark] (splitOn mark t) = t := by
  rw [splitOn_eq]
  exact List.intercalate_splitOn mark

theorem splitOn_join {mark : Char} {parts : List Text} (filled : parts ≠ [])
    (unmarked : ∀ part ∈ parts, mark ∉ part) : splitOn mark (join [mark] parts) = parts := by
  rw [splitOn_eq]
  exact List.splitOn_intercalate mark unmarked filled

theorem not_mem_of_mem_splitOn {mark : Char} {t part : Text} (member : part ∈ splitOn mark t) :
    mark ∉ part := by
  induction t generalizing part with
  | nil =>
    have empty : part = [] := by simpa [splitOn] using member
    simp [empty]
  | cons c rest ih =>
    rw [splitOn] at member
    split at member
    · rcases List.mem_cons.mp member with rfl | member
      · simp
      · exact ih member
    · rename_i other
      split at member
      · rename_i shape
        exact absurd shape (splitOn_ne_nil mark rest)
      · rename_i first parts shape
        rcases List.mem_cons.mp member with rfl | member
        · have firstClear := ih (shape ▸ List.mem_cons_self)
          simp only [List.mem_cons, not_or]
          exact ⟨fun same => other same.symm, firstClear⟩
        · exact ih (shape ▸ List.mem_cons_of_mem _ member)

theorem join_cons (separator first : Text) {parts : List Text} (filled : parts ≠ []) :
    join separator (first :: parts) = first ++ separator ++ join separator parts :=
  List.intercalate_cons_of_ne_nil filled

theorem join_append (separator : Text) {parts more : List Text} (filled : parts ≠ [])
    (further : more ≠ []) :
    join separator (parts ++ more) = join separator parts ++ separator ++ join separator more := by
  induction parts with
  | nil => exact absurd rfl filled
  | cons first rest ih =>
    rw [List.cons_append, join_cons separator first (by simp [further])]
    cases rest with
    | nil =>
      have alone : join separator [first] = first := List.intercalate_singleton
      rw [alone, List.nil_append]
    | cons second later =>
      rw [ih (by simp), join_cons separator first (by simp)]
      simp only [List.append_assoc]

/-- The joined text of a front part is a front part of the joined text. -/
theorem join_begins (separator : Text) (parts more : List Text) :
    join separator parts <+: join separator (parts ++ more) := by
  by_cases empty : parts = []
  · rw [empty]
    exact List.nil_prefix
  · by_cases done : more = []
    · exact ⟨[], by rw [done, List.append_nil, List.append_nil]⟩
    · rw [join_append separator empty done, List.append_assoc]
      exact List.prefix_append _ _

end Text

namespace PathParts

/-- Parts that a path can have: no segment holds a slash, and segments alone do not begin with
what would count as a lead. -/
structure Spelled (parts : PathParts) : Prop where
  unmarked : ∀ segment ∈ parts.segments, '/' ∉ segment
  lead : parts.lead = .bare → parts.segments.head? ≠ some [] ∧ parts.segments.head? ≠ some ['.']

/-- Dropping void segments at the front loses no name. -/
theorem filter_dropWhile (segments : List Text) :
    (segments.dropWhile isVoid).filter (!isVoid ·) = segments.filter (!isVoid ·) := by
  induction segments with
  | nil => rfl
  | cons segment later ih =>
    cases void : isVoid segment with
    | true => simpa [void] using ih
    | false => simp [void]

def pieces (parts : PathParts) : List Text :=
  match parts.lead with
  | .root => [] :: if parts.segments = [] then [[]] else parts.segments
  | .current => ['.'] :: parts.segments
  | .bare => if parts.segments = [] then [[]] else parts.segments

theorem splitOn_path {parts : PathParts}
    (unmarked : ∀ segment ∈ parts.segments, '/' ∉ segment) :
    Text.splitOn '/' parts.path.text = parts.pieces := by
  obtain ⟨lead, segments⟩ := parts
  cases lead with
  | root =>
    have front := Text.splitOn_append '/' [] (Text.join ['/'] segments)
    rw [path, pieces]
    refine front.trans ?_
    by_cases empty : segments = []
    · simp [empty, Text.splitOn, Text.join]
    · simp [empty, Text.splitOn, Text.splitOn_join empty unmarked]
  | current =>
    have whole : '.' :: segments.flatMap ('/' :: ·) = Text.join ['/'] (['.'] :: segments) := by
      induction segments with
      | nil => simp [Text.join]
      | cons first rest ih =>
        have tail := ih (fun segment member => unmarked segment (List.mem_cons_of_mem _ member))
        rw [Text.join_cons _ _ (by simp)]
        cases rest with
        | nil => simp [Text.join]
        | cons second later =>
          rw [Text.join_cons _ _ (by simp)] at tail ⊢
          simpa using tail
    change Text.splitOn '/' ('.' :: segments.flatMap ('/' :: ·)) = ['.'] :: segments
    rw [whole]
    apply Text.splitOn_join (by simp)
    intro part member
    rcases List.mem_cons.mp member with rfl | member
    · decide
    · exact unmarked part member
  | bare =>
    rw [path, pieces]
    by_cases empty : segments = []
    · simp [empty, Text.splitOn, Text.join]
    · simpa [empty] using Text.splitOn_join empty unmarked

end PathParts

namespace Path

/-- A path is divided into the pieces of its parts. -/
theorem splitOn_text (path : Path) : Text.splitOn '/' path.text = path.parts.pieces := by
  unfold parts
  split
  · rename_i shape
    exact absurd shape (Text.splitOn_ne_nil '/' path.text)
  · rename_i shape
    exact shape
  · rename_i segments filled shape
    have nonempty : segments ≠ [] := filled
    rw [shape, PathParts.pieces]
    simp [nonempty]
  · rename_i shape
    exact shape
  · rw [PathParts.pieces]
    simp [Text.splitOn_ne_nil]

theorem parts_spelled (path : Path) : path.parts.Spelled := by
  have clear : ∀ segment ∈ Text.splitOn '/' path.text, '/' ∉ segment :=
    fun _ => Text.not_mem_of_mem_splitOn
  unfold parts
  split
  · exact ⟨by simp, by simp⟩
  · exact ⟨by simp, by simp⟩
  · rename_i shape
    refine ⟨fun segment member => clear segment ?_, by simp⟩
    rw [shape]
    exact List.mem_cons_of_mem _ member
  · rename_i shape
    refine ⟨fun segment member => clear segment ?_, by simp⟩
    rw [shape]
    exact List.mem_cons_of_mem _ member
  · rename_i slash dot
    refine ⟨clear, fun _ => ?_⟩
    cases shape : Text.splitOn '/' path.text with
    | nil => simp
    | cons first rest =>
      simp only [List.head?_cons, ne_eq, Option.some.injEq]
      constructor
      · rintro rfl
        exact slash rest shape
      · rintro rfl
        exact dot rest shape

end Path

/-- Parts are found again in the path made of them; only the root has an empty segment to spare. -/
theorem PathParts.parts_path {parts : PathParts} (spelled : parts.Spelled)
    (below : parts.lead = .root → parts.segments ≠ []) : parts.path.parts = parts := by
  have divided := splitOn_path spelled.unmarked
  unfold Path.parts
  rw [divided, pieces]
  obtain ⟨lead, segments⟩ := parts
  cases lead with
  | root =>
    cases segments with
    | nil => exact absurd rfl (below rfl)
    | cons first rest => simp
  | current => simp
  | bare =>
    obtain ⟨noSlash, noDot⟩ := spelled.lead rfl
    cases segments with
    | nil => rfl
    | cons first rest =>
      simp only [List.head?_cons, ne_eq, Option.some.injEq] at noSlash noDot
      simp [noSlash, noDot]

end TreeMigration
