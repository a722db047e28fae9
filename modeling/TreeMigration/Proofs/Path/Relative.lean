import TreeMigration.Proofs.Path.Moves
import TreeMigration.Comparison
import TreeMigration.Proofs.Path.Stripping

/-!
A path as seen from a directory above it. It is spelled with characters of the path, ends in a name
and has just the names beyond the directory, so seen from another directory it continues that one.

`relative_of_stripPrefix?` collects what is known of the path that is left when another is stripped
from its front. It is cut out of the text behind a slash and without the void segments at the end
(`spelled_between`), so it is relative, and its names are those of the path beyond the directory.
References of generated files are found in this way (`referencePath_eq_ok`).
-/
namespace TreeMigration

namespace Text

theorem subset_of_mem_splitOn {mark : Char} {t part : Text} (member : part ∈ splitOn mark t) :
    part ⊆ t := by
  intro c listed
  induction t generalizing part with
  | nil =>
    have empty : part = [] := by simpa [splitOn] using member
    simp [empty] at listed
  | cons first rest ih =>
    rw [splitOn] at member
    split at member
    · rcases List.mem_cons.mp member with rfl | member
      · cases listed
      · exact List.mem_cons_of_mem _ (ih member listed)
    · split at member
      · rename_i shape
        exact absurd shape (splitOn_ne_nil mark rest)
      · rename_i front others shape
        rcases List.mem_cons.mp member with rfl | member
        · rcases List.mem_cons.mp listed with rfl | listed
          · exact List.mem_cons_self
          · exact List.mem_cons_of_mem _ (ih (shape ▸ List.mem_cons_self) listed)
        · exact List.mem_cons_of_mem _ (ih (shape ▸ List.mem_cons_of_mem _ member) listed)

theorem mem_join {separator : Text} {parts : List Text} {c : Char}
    (listed : c ∈ join separator parts) : c ∈ separator ∨ ∃ part ∈ parts, c ∈ part := by
  induction parts with
  | nil => simp [join] at listed
  | cons first rest ih =>
    cases rest with
    | nil => exact .inr ⟨first, List.mem_cons_self, by simpa [join] using listed⟩
    | cons second others =>
      rw [join_cons separator first (by simp), List.append_assoc, List.mem_append,
        List.mem_append] at listed
      rcases listed with here | here | later
      · exact .inr ⟨first, List.mem_cons_self, here⟩
      · exact .inl here
      · obtain here | ⟨part, member, here⟩ := ih later
        · exact .inl here
        · exact .inr ⟨part, List.mem_cons_of_mem _ member, here⟩

end Text

namespace PathParts

theorem subset_withoutVoidEnd (segments : List Text) : withoutVoidEnd segments ⊆ segments :=
  (withoutVoidEnd_begins segments).subset

/-- The last segment that is left counts. -/
theorem last_withoutVoidEnd {segments front : List Text} {last : Text}
    (left : withoutVoidEnd segments = front ++ [last]) : isVoid last = false := by
  have reversed := congrArg List.reverse left
  rw [withoutVoidEnd, List.reverse_reverse, List.reverse_append, List.reverse_singleton,
    List.singleton_append] at reversed
  have stop := List.head?_dropWhile_not isVoid segments.reverse
  rw [reversed] at stop
  simpa using stop

/-- Between void segments at both ends there is the spelling of a path without a lead. -/
theorem spelled_between {segments : List Text} (unmarked : ∀ segment ∈ segments, '/' ∉ segment) :
    Spelled ⟨.bare, withoutVoidEnd (segments.dropWhile isVoid)⟩ := by
  have begins := withoutVoidEnd_begins (segments.dropWhile isVoid)
  refine Spelled.of_prefix ⟨?_, ?_⟩ begins
  · exact fun segment member => unmarked segment ((List.dropWhile_suffix isVoid).subset member)
  · rintro -
    have stop := List.head?_dropWhile_not isVoid segments
    dsimp only
    cases shape : segments.dropWhile isVoid with
    | nil => simp
    | cons first rest =>
      rw [shape] at stop
      refine ⟨?_, ?_⟩
      · rintro same
        cases same
        simp [isVoid] at stop
      · rintro same
        cases same
        simp [isVoid] at stop

/-- What is left behind stripped names ends the segments and has the names beyond. -/
theorem suffix_of_stripNames {names segments rest : List Text}
    (stripped : stripNames names segments = some rest) :
    rest <:+ segments ∧ segments.filter (!isVoid ·) = names ++ rest.filter (!isVoid ·) := by
  induction names generalizing segments with
  | nil =>
    cases stripped
    exact ⟨List.suffix_rfl, rfl⟩
  | cons name names ih =>
    rw [stripNames] at stripped
    have stop := List.head?_dropWhile_not isVoid segments
    have ends := List.dropWhile_suffix (l := segments) isVoid
    rw [← filter_dropWhile segments]
    cases shape : segments.dropWhile isVoid with
    | nil =>
      rw [shape] at stripped
      cases stripped
    | cons first later =>
      rw [shape] at stripped stop ends
      dsimp only at stripped
      split at stripped
      · rename_i same
        subst same
        obtain ⟨inside, counted⟩ := ih stripped
        refine ⟨inside.trans ((List.suffix_cons first later).trans ends), ?_⟩
        rw [List.filter_cons_of_pos (by simpa using stop), counted, List.cons_append]
      · cases stripped

end PathParts

namespace Path

theorem subset_of_mem_segments {path : Path} {segment : Text}
    (member : segment ∈ path.parts.segments) : segment ⊆ path.text := by
  have listed : segment ∈ Text.splitOn '/' path.text := by
    rw [path.splitOn_text, PathParts.pieces]
    cases path.parts.lead <;> simp [List.ne_nil_of_mem member, member]
  exact Text.subset_of_mem_splitOn listed

/-- A path beyond another, as seen from there. -/
theorem relative_of_stripPrefix? {base path relative : Path}
    (stripped : stripPrefix? base path = some relative) (spelled : base.text ≠ [])
    (beyond : path.parts.names ≠ base.parts.names) :
    relative.isAbsolute = false ∧ relative.EndsInName ∧
      path.parts.names = base.parts.names ++ namesIn relative.text ∧
      ∀ c ∈ relative.text, c = '/' ∨ c ∈ path.text := by
  have filled : base.components ≠ (.bare, []) := by
    intro empty
    obtain ⟨bare, none⟩ := Prod.mk.inj empty
    exact names_ne_nil_of_bare bare spelled none
  rw [stripPrefix?, if_neg filled] at stripped
  split at stripped
  · obtain ⟨rest, left, rfl⟩ := Option.map_eq_some_iff.mp stripped
    obtain ⟨ends, counted⟩ := PathParts.suffix_of_stripNames left
    have unmarked : ∀ segment ∈ rest, '/' ∉ segment :=
      fun segment member => path.parts_spelled.unmarked segment (ends.subset member)
    have between := PathParts.spelled_between unmarked
    have named := PathParts.names_path between.unmarked
    have kept : namesIn (PathParts.path ⟨.bare,
        PathParts.withoutVoidEnd (rest.dropWhile PathParts.isVoid)⟩).text =
          rest.filter (!PathParts.isVoid ·) := by
      rw [named, PathParts.names, PathParts.filter_withoutVoidEnd, PathParts.filter_dropWhile]
    have some : PathParts.withoutVoidEnd (rest.dropWhile PathParts.isVoid) ≠ [] := by
      intro none
      rw [none] at kept
      refine beyond ?_
      rw [PathParts.names, counted, ← kept]
      exact List.append_nil _
    refine ⟨?_, ?_, ?_, ?_⟩
    · rw [Bool.eq_false_iff, Ne, ← lead_eq_root_iff, PathParts.lead_path between]
      simp
    · intro front last divided
      rw [PathParts.splitOn_path between.unmarked, PathParts.pieces] at divided
      dsimp only at divided
      rw [if_neg some] at divided
      exact PathParts.last_withoutVoidEnd divided
    · rw [kept]
      exact counted
    · intro c listed
      obtain slash | ⟨segment, member, here⟩ := Text.mem_join listed
      · exact .inl (List.mem_singleton.mp slash)
      · have inRest := (List.dropWhile_suffix PathParts.isVoid).subset
          (PathParts.subset_withoutVoidEnd _ member)
        exact .inr (subset_of_mem_segments (ends.subset inRest) here)
  · cases stripped

end Path

namespace Comparison

/-- The reference of a generated file continues the reference root as the file continues the
destination root. -/
theorem referencePath_eq_ok {destinationRoot referenceRoot produced reference : Path}
    (found : referencePath destinationRoot referenceRoot produced = .ok reference)
    (spelled : destinationRoot.text ≠ []) (spelled' : referenceRoot.text ≠ [])
    {names : List Text} (filled : names ≠ [])
    (named : produced.parts.names = destinationRoot.parts.names ++ names) :
    reference.components = (referenceRoot.parts.lead, referenceRoot.parts.names ++ names) ∧
      reference.EndsInName ∧ reference.text ≠ [] ∧
      ∀ c ∈ reference.text, c = '/' ∨ c ∈ referenceRoot.text ∨ c ∈ produced.text := by
  unfold referencePath at found
  split at found
  · rename_i relative stripped
    cases found
    have beyond : produced.parts.names ≠ destinationRoot.parts.names := by
      rw [named]
      simpa using filled
    obtain ⟨relation, ends, whole, spelling⟩ :=
      Path.relative_of_stripPrefix? stripped spelled beyond
    obtain rfl := List.append_cancel_left (named.symm.trans whole)
    obtain ⟨front, shape, before⟩ := Path.join_shape relation spelled'
    refine ⟨Path.components_join relation spelled', .join relation spelled' ends, ?_, ?_⟩
    · simp [shape]
    · intro c listed
      rw [shape, List.mem_append, List.mem_cons] at listed
      have begins : front ⊆ referenceRoot.text := by
        rcases before with ⟨same, -⟩ | same
        · rw [same]
          exact List.Subset.refl _
        · rw [same]
          exact List.subset_append_left _ _
      rcases listed with here | rfl | here
      · exact .inr (.inl (begins here))
      · exact .inl rfl
      · exact (spelling c here).imp_right .inr
  · cases found

end Comparison

end TreeMigration
