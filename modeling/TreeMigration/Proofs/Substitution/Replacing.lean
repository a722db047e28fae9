import TreeMigration.Substitution

/-!
Replacing every occurrence, character by character. An occurrence at the front is replaced and
passed over as a whole; any other character stays.

These are the equations of a function that would be defined on the text directly, instead of by
cutting it first: `replaceAll_nil`, `replaceAll_append` for an occurrence at the front and
`replaceAll_cons` for any other character. Escapes are resolved by such replacements, and their
statements use nothing else of a cut.

`filter_replaceAll` compares what a replacement does to some of the characters: if pattern and
replacement agree on them, so do the text before and the text after.
-/
namespace TreeMigration

/-- The characters of an occurrence that was chosen are passed over. -/
theorem Cut.ofRest_append (matching : Matching) (pattern inside rest : Text)
    (before : Option Char) :
    Cut.ofRest matching pattern before inside.length (inside ++ rest) =
      Cut.ofRest matching pattern (inside.getLast?.or before) 0 rest := by
  induction inside generalizing before with
  | nil => rfl
  | cons c inside ih =>
    rw [List.length_cons, List.cons_append, Cut.ofRest, ih, List.getLast?_cons]
    cases inside.getLast? <;> rfl

/-- An admissible occurrence at the front is chosen, and the cut goes on behind it. -/
theorem Cut.ofRest_chosen {matching : Matching} {pattern rest : Text} {before : Option Char}
    (filled : pattern ≠ []) (admitted : matching.admits before rest.head? = true) :
    Cut.ofRest matching pattern before 0 (pattern ++ rest) =
      ⟨[], (Cut.ofRest matching pattern pattern.getLast? 0 rest).start ::
        (Cut.ofRest matching pattern pattern.getLast? 0 rest).later⟩ := by
  obtain ⟨c, inside, rfl⟩ := List.exists_cons_of_ne_nil filled
  have behind : inside.getLast?.or (some c) = (c :: inside).getLast? := by
    rw [List.getLast?_cons]
    cases inside.getLast? <;> rfl
  have chosen : ((c :: inside).isPrefixOf (c :: (inside ++ rest)) &&
      matching.admits before ((c :: (inside ++ rest)).drop (c :: inside).length).head?) = true := by
    simpa using admitted
  rw [List.cons_append, Cut.ofRest, if_pos chosen, List.length_cons, Nat.add_sub_cancel,
    Cut.ofRest_append, behind]

/-- Literal occurrences are chosen without regard to the character before. -/
theorem Cut.ofRest_literal (pattern t : Text) (inside : Nat) (before other : Option Char) :
    Cut.ofRest .literal pattern before inside t = Cut.ofRest .literal pattern other inside t := by
  cases t with
  | nil => cases inside <;> simp only [Cut.ofRest]
  | cons c t => cases inside <;> rfl

namespace Text

theorem replaceAll_eq {pattern : Text} (filled : pattern ≠ []) (replacement t : Text) :
    replaceAll pattern replacement t =
      (Cut.ofRest .literal pattern none 0 t).fillAll replacement := by
  have nonempty : pattern.isEmpty = false := by simpa using filled
  simp only [replaceAll, substitute, Cut.ofLine, nonempty, Bool.false_eq_true, if_false]

theorem replaceAll_nil (pattern replacement : Text) : replaceAll pattern replacement [] = [] := by
  cases pattern <;> simp [replaceAll, substitute, Cut.ofLine, Cut.ofRest, Cut.fillAll]

theorem replaceAll_append {pattern : Text} (filled : pattern ≠ []) (replacement rest : Text) :
    replaceAll pattern replacement (pattern ++ rest) =
      replacement ++ replaceAll pattern replacement rest := by
  rw [replaceAll_eq filled, replaceAll_eq filled, Cut.ofRest_chosen filled rfl,
    Cut.ofRest_literal _ _ _ _ none]
  simp only [Cut.fillAll, List.nil_append, List.flatMap_cons, List.append_assoc]

theorem replaceAll_cons {pattern : Text} (filled : pattern ≠ []) (replacement : Text) {c : Char}
    {rest : Text} (other : ¬ pattern <+: c :: rest) :
    replaceAll pattern replacement (c :: rest) = c :: replaceAll pattern replacement rest := by
  rw [replaceAll_eq filled, replaceAll_eq filled, Cut.ofRest]
  rw [if_neg (by simpa [Matching.admits] using other), Cut.ofRest_literal _ _ _ (some c) none]
  simp only [Cut.fillAll, List.cons_append]

/-- Where a pattern and its replacement agree on some characters, so do a text before and after. -/
theorem filter_replaceAll {pattern replacement : Text} (filled : pattern ≠ []) (keep : Char → Bool)
    (same : replacement.filter keep = pattern.filter keep) (t : Text) :
    (replaceAll pattern replacement t).filter keep = t.filter keep := by
  by_cases occurs : pattern <+: t
  · obtain ⟨rest, rfl⟩ := occurs
    have shorter : rest.length < (pattern ++ rest).length := by
      have := List.length_pos_iff.mpr filled
      rw [List.length_append]
      omega
    rw [replaceAll_append filled, List.filter_append, List.filter_append, same,
      filter_replaceAll filled keep same rest]
  · cases t with
    | nil => rw [replaceAll_nil]
    | cons c rest =>
      rw [replaceAll_cons filled _ occurs, List.filter_cons, List.filter_cons,
        filter_replaceAll filled keep same rest]
termination_by t.length

end Text

end TreeMigration
