import TreeMigration.Proofs.Rule.Escapes
import TreeMigration.Proofs.Rule.Layout

/-!
What every text is read as. A structural text holds no rule. Any other text is divided into values
as its form allows, the longest pattern being taken where it allows several; the values give a rule
unless the pattern stands for nothing, and a text without the form is refused for a reason of its
own.

`Fields.ReadFrom` is the specification of the division: values that the line can be written from,
with no longer pattern possible. It does not mention the search. That there is one choice only
(`ReadFrom.unique`) is not obvious, since the same pattern could be followed by different
replacements; but the end of a line can be told from what is in front of it, so the length of the
pattern settles the rest (`SpelledBy.eq_of_length`).

The three kinds of text exclude each other (`ofLine_kind`), from which each answer of the reader has
its own equivalence. No line is told that its pattern is empty for want of the form
(`ofLine_ne_emptyPattern`).
-/
namespace TreeMigration.RuleLine

namespace Fields

/-- The values that are read from a line: of all that it can be written from, those with the longest
pattern. -/
def ReadFrom (fields : Fields) (line : Text) : Prop :=
  fields.SpelledBy line ∧
    ∀ other : Fields, other.SpelledBy line → other.pattern.length ≤ fields.pattern.length

variable {first second fields : Fields} {line : Text}

/-- The length of the pattern settles all the values that a line can be written from. -/
theorem SpelledBy.eq_of_length (spelled : first.SpelledBy line) (spelledToo : second.SpelledBy line)
    (same : first.pattern.length = second.pattern.length) : first = second := by
  obtain ⟨rest, opens, -, read⟩ := spelledBy_iff.mp spelled
  obtain ⟨restToo, opensToo, -, readToo⟩ := spelledBy_iff.mp spelledToo
  obtain ⟨pattern, behind⟩ :=
    List.append_inj (Option.some.inj (opens.symm.trans opensToo)) same
  have values := read.symm.trans (behind ▸ readToo)
  obtain ⟨replacement, multiple⟩ := Prod.mk.inj (Option.some.inj values)
  cases first
  cases second
  simp_all

/-- Only one choice of values is read from a line. -/
theorem ReadFrom.unique (read : first.ReadFrom line) (readToo : second.ReadFrom line) :
    first = second :=
  read.1.eq_of_length readToo.1 (Nat.le_antisymm (readToo.2 first read.1) (read.2 second readToo.1))

theorem fields?_eq_some_iff_readFrom : fields? line = some fields ↔ fields.ReadFrom line :=
  fields?_eq_some_iff

/-- A line that can be written from values is read. -/
theorem SpelledBy.exists_readFrom (spelled : first.SpelledBy line) :
    ∃ fields : Fields, fields.ReadFrom line := by
  cases read : fields? line with
  | some fields => exact ⟨fields, fields?_eq_some_iff_readFrom.mp read⟩
  | none =>
    obtain ⟨rest, opens, clear, reads⟩ := spelledBy_iff.mp spelled
    rw [fields?_eq, opens, Option.bind_some, List.findSome?_eq_none_iff] at read
    have declined := read _ (mem_divisions.mpr ⟨rfl, clear⟩)
    rw [reads] at declined
    cases declined

theorem fields?_eq_none_iff :
    fields? line = none ↔ ∀ fields : Fields, ¬ fields.SpelledBy line := by
  constructor
  · intro declined fields spelled
    obtain ⟨read, isRead⟩ := spelled.exists_readFrom
    cases declined.symm.trans (fields?_eq_some_iff_readFrom.mpr isRead)
  · intro none
    rw [Option.eq_none_iff_forall_ne_some]
    intro fields read
    exact none fields (fields?_eq_some_iff_readFrom.mp read).1

end Fields

/-- The reasons found in a line are about what it holds, never about an empty pattern. -/
theorem ofLine_ne_emptyPattern (line : Text) : Rejection.ofLine line ≠ .emptyPattern := by
  unfold Rejection.ofLine
  split
  · simp
  · unfold Rejection.ofMembers
    dsimp only
    repeat' split
    all_goals simp
  · simp

def structuralTexts : List Text := [[], "[", "]", "],"]

theorem isStructural_iff {line : Text} :
    isStructural line = true ↔ Text.trim line ∈ structuralTexts :=
  List.contains_iff_mem

theorem Fields.SpelledBy.not_structural {fields : Fields} {line : Text}
    (spelled : fields.SpelledBy line) : Text.trim line ∉ structuralTexts := by
  obtain ⟨-, layout, rfl⟩ := spelled
  rw [← isStructural_iff, layout.isStructural_text]
  exact Bool.false_ne_true

theorem Fields.rule_eq (fields : Fields) :
    fields.rule = ⟨unescaped '\\' (unescaped '"' fields.pattern),
      unescaped '\\' fields.replacement, if fields.multiple then .all else .first⟩ := by
  rw [Fields.rule, decodePattern_eq, decodeReplacement_eq, Mode.ofMultiple]

/-- Reading a line goes by its kind: structural, of the form of a rule, or neither. -/
theorem ofLine_kind (line : Text) :
    (Text.trim line ∈ structuralTexts ∧ Rule.ofLine line = .ok none) ∨
    (∃ fields : Fields, fields.ReadFrom line ∧ Rule.ofLine line =
      if fields.rule.pattern = [] then .error .emptyPattern else .ok (some fields.rule)) ∨
    (Text.trim line ∉ structuralTexts ∧ (∀ fields : Fields, ¬ fields.SpelledBy line) ∧
      Rule.ofLine line = .error (.ofLine line)) := by
  by_cases structural : isStructural line = true
  · refine .inl ⟨isStructural_iff.mp structural, ?_⟩
    rw [Rule.ofLine, if_pos structural]
  · refine .inr ?_
    cases read : fields? line with
    | some fields =>
      refine .inl ⟨fields, Fields.fields?_eq_some_iff_readFrom.mp read, ?_⟩
      simp [Rule.ofLine, structural, read, List.isEmpty_iff]
    | none =>
      refine .inr ⟨fun member => structural (isStructural_iff.mpr member),
        Fields.fields?_eq_none_iff.mp read, ?_⟩
      simp [Rule.ofLine, structural, read]

variable {line : Text}

theorem ofLine_eq_ok_none_iff : Rule.ofLine line = .ok none ↔ Text.trim line ∈ structuralTexts := by
  rcases ofLine_kind line with ⟨structural, read⟩ | ⟨fields, ⟨spelled, -⟩, read⟩ | ⟨plain, -, read⟩
  · simp [structural, read]
  · have plain := spelled.not_structural
    by_cases empty : fields.rule.pattern = [] <;> simp [plain, read, empty]
  · simp [plain, read]

/-- A line of the form of a rule is read as its values say, and no other line gives a rule. -/
theorem ofLine_eq_ok_some_iff_readFrom {rule : Rule} :
    Rule.ofLine line = .ok (some rule) ↔
      ∃ fields : Fields, fields.ReadFrom line ∧ fields.rule.pattern ≠ [] ∧ rule = fields.rule := by
  rw [ofLine_eq_ok_some_iff]
  constructor
  · rintro ⟨filled, fields, read, rfl⟩
    exact ⟨fields, Fields.fields?_eq_some_iff_readFrom.mp read, filled, rfl⟩
  · rintro ⟨fields, read, filled, rfl⟩
    exact ⟨filled, fields, Fields.fields?_eq_some_iff_readFrom.mpr read, rfl⟩

theorem ofLine_eq_emptyPattern_iff :
    Rule.ofLine line = .error .emptyPattern ↔
      ∃ fields : Fields, fields.ReadFrom line ∧ fields.rule.pattern = [] := by
  have other := ofLine_ne_emptyPattern line
  rcases ofLine_kind line with ⟨structural, read⟩ | ⟨fields, isRead, read⟩ | ⟨-, none, read⟩
  · have none : ∀ fields : Fields, ¬ fields.ReadFrom line :=
      fun fields isRead => isRead.1.not_structural structural
    simp [read, none]
  · constructor
    · intro refused
      refine ⟨fields, isRead, ?_⟩
      by_contra filled
      rw [read, if_neg filled] at refused
      cases refused
    · rintro ⟨found, isReadToo, empty⟩
      cases isRead.unique isReadToo
      rw [read, if_pos empty]
  · have noneRead : ∀ fields : Fields, ¬ fields.ReadFrom line :=
      fun fields isRead => none fields isRead.1
    simp [read, other, noneRead]

theorem ofLine_eq_error_ofLine_iff :
    Rule.ofLine line = .error (.ofLine line) ↔
      Text.trim line ∉ structuralTexts ∧ ∀ fields : Fields, ¬ fields.SpelledBy line := by
  have other := ofLine_ne_emptyPattern line
  rcases ofLine_kind line with ⟨structural, read⟩ | ⟨fields, isRead, read⟩ | ⟨plain, none, read⟩
  · simp [structural, read]
  · have some : ¬ ∀ fields : Fields, ¬ fields.SpelledBy line := fun none => none fields isRead.1
    by_cases empty : fields.rule.pattern = [] <;> simp [read, empty, some, other.symm]
  · simp [read, plain, none]

/-- Every text is read by its form. It holds no rule exactly if it is structural; it is divided into
values exactly if it can be, and then into those with the longest pattern, which settles the others;
they give a rule with the escapes resolved unless the pattern stands for nothing; and a text that can
not be divided is refused. -/
theorem ofLine_reads_form (line : Text) :
    (Rule.ofLine line = .ok none ↔ Text.trim line ∈ structuralTexts) ∧
    ((∃ fields : Fields, fields.SpelledBy line) ↔ ∃! fields : Fields, fields.ReadFrom line) ∧
    (∀ fields other : Fields, fields.SpelledBy line → other.SpelledBy line →
      fields.pattern.length = other.pattern.length → fields = other) ∧
    (∀ rule, Rule.ofLine line = .ok (some rule) ↔ ∃ fields : Fields, fields.ReadFrom line ∧
      unescaped '\\' (unescaped '"' fields.pattern) ≠ [] ∧
      rule = ⟨unescaped '\\' (unescaped '"' fields.pattern), unescaped '\\' fields.replacement,
        if fields.multiple then .all else .first⟩) ∧
    (Rule.ofLine line = .error .emptyPattern ↔ ∃ fields : Fields, fields.ReadFrom line ∧
      unescaped '\\' (unescaped '"' fields.pattern) = []) ∧
    (Rule.ofLine line = .error (.ofLine line) ↔
      Text.trim line ∉ structuralTexts ∧ ∀ fields : Fields, ¬ fields.SpelledBy line) := by
  refine ⟨ofLine_eq_ok_none_iff, ?_, fun _ _ => Fields.SpelledBy.eq_of_length, ?_, ?_,
    ofLine_eq_error_ofLine_iff⟩
  · constructor
    · rintro ⟨first, spelled⟩
      obtain ⟨fields, read⟩ := spelled.exists_readFrom
      exact ⟨fields, read, fun other readToo => readToo.unique read⟩
    · rintro ⟨fields, read, -⟩
      exact ⟨fields, read.1⟩
  · intro rule
    simp only [ofLine_eq_ok_some_iff_readFrom, Fields.rule_eq]
  · simp only [ofLine_eq_emptyPattern_iff, Fields.rule_eq]

/-- The longest pattern is taken, over a quote and a second `to`. -/
example : Rule.ofLine "\x7b\"from\":\"a\",\"to\":\"b\",\"to\":\"c\",\n\"multiple\":\"true\x7d" =
    .ok (some ⟨"a\",\"to\":\"b", "c", .all⟩) := by rfl

end TreeMigration.RuleLine
