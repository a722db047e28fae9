import TreeMigration.Proofs.Json.FlatObject
import TreeMigration.Proofs.Rule.Acceptance
import TreeMigration.Proofs.Rule.Members

/-!
Rule objects as they may be spelled. JSON leaves blanks around every mark free and lets names and
values hold escapes; the form of a rule line is narrower. A line that holds the members of a rule in
their order has the form exactly if it is spelled strictly.

A `Spelling` is a line of JSON with its three members, the blanks and the comma around the object,
and `Spelling.IsStrict` lists what the form asks besides: no blank before a colon or a comma, no
escape in a name or in the value of `multiple`, and no blank between the object and the comma behind
it. That a strict spelling has the form is shown by writing out its layout (`Spelling.spelledBy`).

For the converse a line is both a spelling and a layout, and the two are compared from the front,
each member up to its mark (`strict_of_name`, `strict_of_string`). In the values of `from` and `to`
escapes are free in both.
-/
namespace TreeMigration.RuleLine

open Json Json.Reader Json.StringLiteral

/-! ## What stands around the object -/

theorem isBlank_of_isSpace {c : Char} (space : isSpace c = true) : Text.isBlank c = true := by
  simp only [isSpace, Bool.or_eq_true, beq_iff_eq] at space
  rcases space with ((rfl | rfl) | rfl) | rfl
  · decide
  · decide
  · decide
  · decide

def blanksOf (spaces : Spaces) : Blanks :=
  ⟨spaces.val, fun c member => isBlank_of_isSpace (spaces.property c member)⟩

theorem exists_blanks_behind (t : Text) : ∃ blanks : Blanks, t = Text.trimEnd t ++ blanks.val := by
  obtain ⟨⟨blanks, blank⟩, whole⟩ := exists_blanks t.reverse
  refine ⟨⟨blanks.reverse, fun c member => blank c (List.mem_reverse.mp member)⟩, ?_⟩
  have back := congrArg List.reverse whole
  rwa [List.reverse_reverse, List.reverse_append] at back

theorem exists_trimmed (line : Text) :
    ∃ outer after : Blanks, line = outer.val ++ (Text.trim line ++ after.val) := by
  obtain ⟨outer, whole⟩ := exists_blanks line
  obtain ⟨after, ends⟩ := exists_blanks_behind (Text.trimStart line)
  refine ⟨outer, after, ?_⟩
  rw [Text.trim, ← ends]
  exact whole

theorem head?_trimStart (t : Text) : (Text.trimStart t).head?.any Text.isBlank = false := by
  cases trimmed : Text.trimStart t with
  | nil => rfl
  | cons c rest =>
    have sharp := List.head?_dropWhile_not Text.isBlank t
    rw [show t.dropWhile Text.isBlank = c :: rest from trimmed] at sharp
    simpa using sharp

theorem not_isBlank_of_trim {line rest : Text} {c : Char} (begins : Text.trim line = c :: rest) :
    Text.isBlank c = false := by
  obtain ⟨after, whole⟩ := exists_blanks_behind (Text.trimStart line)
  have sharp := head?_trimStart line
  rw [whole, show Text.trimEnd (Text.trimStart line) = c :: rest from begins] at sharp
  simpa using sharp

theorem not_isBlank_of_trim_concat {line front : Text} {c : Char}
    (ends : Text.trim line = front ++ [c]) : Text.isBlank c = false := by
  have sharp := head?_trimStart (Text.trimStart line).reverse
  have reversed : Text.trimStart (Text.trimStart line).reverse = c :: front.reverse := by
    have same := congrArg List.reverse ends
    rw [Text.trim, Text.trimEnd, List.reverse_reverse, List.reverse_concat] at same
    exact same
  rw [reversed] at sharp
  simpa using sharp

def commaText : Option Spaces → Text
  | none => []
  | some spaces => spaces.val ++ [',']

def beforeComma : Option Spaces → Spaces
  | none => ⟨[], List.forall_mem_nil _⟩
  | some spaces => spaces

/-- Of an object with blanks and a comma around it, the object is read as JSON, and the blanks
before the comma with it. -/
theorem jsonPart_of_object {object t u : Text} (outer after : Blanks) (comma : Option Spaces)
    (begins : object = '\x7b' :: t) (ends : object = u ++ ['\x7d']) :
    Rejection.jsonPart (outer.val ++ (object ++ (commaText comma ++ after.val))) =
      object ++ (beforeComma comma).val := by
  cases comma with
  | some spaces => exact jsonPart_of_comma outer after begins spaces.val
  | none =>
    rw [beforeComma, List.append_nil]
    exact jsonPart_of_brace outer after begins ends

/-- Where an object is read as JSON, the line has nothing but blanks and a comma around it. -/
theorem exists_around_object {line object : Text} {before spaces : Spaces}
    (json : Rejection.jsonPart line = before.val ++ (object ++ spaces.val)) :
    before.val = [] ∧ ∃ (outer after : Blanks) (comma : Option Spaces),
      line = outer.val ++ (object ++ (commaText comma ++ after.val)) ∧
        (beforeComma comma).val = spaces.val := by
  obtain ⟨outer, after, whole⟩ := exists_trimmed line
  have first : ∀ rest, Text.trim line = before.val ++ (object ++ rest) → before.val = [] := by
    intro rest trimmed
    cases shape : before.val with
    | nil => rfl
    | cons c later =>
      rw [shape] at trimmed
      have sharp := not_isBlank_of_trim trimmed
      rw [isBlank_of_isSpace (before.property c (shape ▸ List.mem_cons_self))] at sharp
      cases sharp
  unfold Rejection.jsonPart at json
  dsimp only at json
  cases found : ([','] : Text).isSuffixOf? (Text.trim line) with
  | some front =>
    rw [found, Option.getD_some] at json
    have trimmed : Text.trim line = before.val ++ (object ++ (spaces.val ++ [','])) := by
      rw [← List.isSuffixOf?_eq_some_iff_append_eq.mp found, json]
      simp only [List.append_assoc]
    have none := first _ trimmed
    refine ⟨none, outer, after, some spaces, ?_, rfl⟩
    rw [none, List.nil_append] at trimmed
    rw [whole, trimmed, commaText, List.append_assoc]
  | none =>
    rw [found, Option.getD_none] at json
    have none := first _ json
    -- without a comma the object ends the trimmed line, which does not end with a blank
    have noneBehind : spaces.val = [] := by
      rcases List.eq_nil_or_concat spaces.val with empty | ⟨front, c, shape⟩
      · exact empty
      · rw [shape, List.concat_eq_append, ← List.append_assoc, ← List.append_assoc] at json
        have sharp := not_isBlank_of_trim_concat json
        have space := spaces.property c (by rw [shape]; simp)
        rw [isBlank_of_isSpace space] at sharp
        cases sharp
    refine ⟨none, outer, after, .none, ?_, noneBehind.symm⟩
    rw [none, noneBehind, List.nil_append, List.append_nil] at json
    rw [whole, json, commaText, List.nil_append]

/-! ## Spellings of a rule -/

/-- A line as it may be spelled around and inside an object of three members. -/
structure Spelling where
  outer : Blanks
  pattern : MemberSpelling
  replacement : MemberSpelling
  multiple : MemberSpelling
  comma : Option Spaces
  after : Blanks

namespace Spelling

def members (s : Spelling) : List MemberSpelling := [s.pattern, s.replacement, s.multiple]

def object (s : Spelling) : Text :=
  '\x7b' :: (s.pattern.text ++ MemberSpelling.laterText [s.replacement, s.multiple])

def text (s : Spelling) : Text :=
  s.outer.val ++ (s.object ++ (commaText s.comma ++ s.after.val))

/-- What is spelled are the members of a rule, in their order. -/
def StandsFor (s : Spelling) (members : Members) : Prop :=
  RuleMembers members ∧ List.Forall₂ MemberSpelling.Stands s.members members

/-- What the form of a rule line asks of a spelling and JSON does not: no blank before a colon or a
comma, and no escape in a name or in the value of `multiple`. -/
structure IsStrict (s : Spelling) : Prop where
  colons : ∀ m ∈ s.members, m.beforeColon.val = []
  names : ∀ m ∈ s.members, '\\' ∉ m.name
  multiple : '\\' ∉ s.multiple.value
  commas : ∀ m ∈ [s.pattern, s.replacement], m.behind.val = []
  comma : (beforeComma s.comma).val = []

theorem object_ends (s : Spelling) : ∃ u, s.object = u ++ ['\x7d'] := by
  simp only [object, MemberSpelling.laterText, ← List.append_assoc, ← List.cons_append]
  exact ⟨_, rfl⟩

theorem jsonPart_text (s : Spelling) :
    Rejection.jsonPart s.text = s.object ++ (beforeComma s.comma).val := by
  obtain ⟨u, ends⟩ := s.object_ends
  exact jsonPart_of_object s.outer s.after s.comma rfl ends

end Spelling

/-- The line spells a rule less strictly than the form asks. -/
def LooselySpelled (line : Text) : Prop :=
  ∃ s : Spelling, line = s.text ∧ (∃ members, s.StandsFor members) ∧ ¬ s.IsStrict

theorem isSimple_of_isMultiple {contents : Value} (right : Rejection.isMultiple contents = true) :
    contents.IsSimple := by
  cases contents with
  | boolean => trivial
  | string => trivial
  | null => cases right
  | number => cases right
  | array => cases right
  | object => cases right

theorem RuleMembers.isSimple {members : Members} (right : RuleMembers members) :
    ∀ entry ∈ members, entry.2.IsSimple := by
  obtain ⟨pattern, replacement, multiple, rfl, truth⟩ := right
  simpa [Value.IsSimple] using isSimple_of_isMultiple truth

theorem ofText_of_document {t : Text} {contents : Value} (read : document t = .ok contents) :
    Value.ofText t = .ok contents := by
  rw [Value.ofText, read]
  rfl

/-- A line holds the members of a rule in their order exactly if it is one of its spellings. -/
theorem ofText_jsonPart_iff {line : Text} {members : Members} :
    Value.ofText (Rejection.jsonPart line) = .ok (.object members) ∧ RuleMembers members ↔
      ∃ s : Spelling, line = s.text ∧ s.StandsFor members := by
  constructor
  · rintro ⟨read, right⟩
    have simple := right.isSimple
    obtain ⟨pattern, replacement, multiple, rfl, truth⟩ := right
    obtain ⟨before, behind, first, later, json, stand⟩ :=
      document_eq_object_iff.mp ⟨document_of_ofText read, simple⟩
    obtain ⟨second, third, rfl⟩ :=
      List.length_eq_two.mp (Nat.succ.inj (List.Forall₂.length_eq stand))
    rw [← List.append_assoc first.text, ← List.cons_append] at json
    obtain ⟨-, outer, after, comma, whole, -⟩ := exists_around_object json
    exact ⟨⟨outer, first, second, third, comma, after⟩, whole, ⟨_, _, _, rfl, truth⟩, stand⟩
  · rintro ⟨s, rfl, right, stand⟩
    have simple := right.isSimple
    obtain ⟨pattern, replacement, multiple, rfl, truth⟩ := right
    refine ⟨ofText_of_document ?_, _, _, _, rfl, truth⟩
    refine (document_eq_object_iff.mpr
      ⟨⟨[], List.forall_mem_nil _⟩, beforeComma s.comma, s.pattern, _, ?_, stand⟩).1
    rw [s.jsonPart_text, Spelling.object, List.cons_append, List.append_assoc, List.nil_append]

/-! ## Strict spellings have the form -/

/-- A value of `multiple` without escapes is a truth value that may stand in quotes. -/
theorem exists_quotes_of_isMultiple {written : Text} {contents : Value}
    (spelled : SpellsValue written contents) (right : Rejection.isMultiple contents = true)
    (unescaped : '\\' ∉ written) :
    ∃ quoted truth,
      written = optional quoted "\"" ++ (truthText truth ++ optional quoted "\"") := by
  cases spelled with
  | truth => exact ⟨false, true, rfl⟩
  | falsehood => exact ⟨false, false, rfl⟩
  | @string raw s inside =>
    have plain : '\\' ∉ raw := fun member =>
      unescaped (List.mem_cons_of_mem _ (List.mem_append_left _ member))
    obtain rfl := inside.eq_of_not_mem plain
    simp only [Rejection.isMultiple, Bool.or_eq_true, beq_iff_eq] at right
    rcases right with rfl | rfl
    · exact ⟨true, true, rfl⟩
    · exact ⟨true, false, rfl⟩

/-- A string is written in quotes. -/
theorem exists_raw {written s : Text} (spelled : SpellsValue written (.string s)) :
    ∃ raw, written = '"' :: (raw ++ ['"']) ∧ Spells raw s := by
  cases spelled with
  | string inside => exact ⟨_, rfl, inside⟩

/-- What is written for the names and the values of a rule. -/
structure Spelling.Writes (s : Spelling) (pattern replacement : Text) : Prop where
  patternName : Spells s.pattern.name "from"
  patternValue : s.pattern.value = '"' :: (pattern ++ ['"'])
  pattern : ∃ t, Spells pattern t
  replacementName : Spells s.replacement.name "to"
  replacementValue : s.replacement.value = '"' :: (replacement ++ ['"'])
  replacement : ∃ t, Spells replacement t
  multipleName : Spells s.multiple.name "multiple"
  multipleValue : ∃ contents, SpellsValue s.multiple.value contents ∧
    Rejection.isMultiple contents = true

theorem Spelling.StandsFor.writes {s : Spelling} {members : Members}
    (stands : s.StandsFor members) : ∃ pattern replacement, s.Writes pattern replacement := by
  obtain ⟨⟨_, _, multiple, rfl, truth⟩, stand⟩ := stands
  obtain ⟨first, stand⟩ := List.forall₂_cons.mp stand
  obtain ⟨second, stand⟩ := List.forall₂_cons.mp stand
  obtain ⟨third, -⟩ := List.forall₂_cons.mp stand
  obtain ⟨pattern, patternValue, patternSpelled⟩ := exists_raw first.value
  obtain ⟨replacement, replacementValue, replacementSpelled⟩ := exists_raw second.value
  exact ⟨pattern, replacement, first.name, patternValue, ⟨_, patternSpelled⟩, second.name,
    replacementValue, ⟨_, replacementSpelled⟩, third.name, multiple, third.value, truth⟩

theorem beforeComma_eq_nil {comma : Option Spaces} (none : (beforeComma comma).val = []) :
    commaText comma = optional comma.isSome "," := by
  cases comma with
  | none => rfl
  | some spaces =>
    change spaces.val = [] at none
    rw [commaText, none]
    rfl

/-- A line that spells a rule as strictly as the form asks can be divided into values. -/
theorem Spelling.spelledBy {s : Spelling} {entries : Members} (stands : s.StandsFor entries)
    (strict : s.IsStrict) : ∃ fields : Fields, fields.SpelledBy s.text := by
  obtain ⟨pattern, replacement, written⟩ := stands.writes
  obtain ⟨contents, valueSpelled, right⟩ := written.multipleValue
  obtain ⟨_, patternSpelled⟩ := written.pattern
  obtain ⟨_, replacementSpelled⟩ := written.replacement
  obtain ⟨quoted, truth, multipleText⟩ :=
    exists_quotes_of_isMultiple valueSpelled right strict.multiple
  refine ⟨⟨pattern, replacement, truth⟩,
    ⟨patternSpelled.newline_not_mem, replacementSpelled.newline_not_mem⟩,
    ⟨s.outer, blanksOf s.pattern.before, blanksOf s.pattern.afterColon,
      blanksOf s.replacement.before, blanksOf s.replacement.afterColon,
      ⟨blanksOf s.multiple.before, blanksOf s.multiple.afterColon, quoted, quoted,
        blanksOf s.multiple.behind, s.comma.isSome, s.after⟩⟩, ?_⟩
  obtain ⟨first, second, third⟩ : s.pattern.name = "from".toList ∧
      s.replacement.name = "to".toList ∧ s.multiple.name = "multiple".toList :=
    ⟨written.patternName.eq_of_not_mem (strict.names _ (by simp [members])),
      written.replacementName.eq_of_not_mem (strict.names _ (by simp [members])),
      written.multipleName.eq_of_not_mem (strict.names _ (by simp [members]))⟩
  have colons := strict.colons
  have commas := strict.commas
  simp only [members, List.forall_mem_cons] at colons commas
  simp only [text, object, MemberSpelling.text, MemberSpelling.core, MemberSpelling.laterText,
    first, second, third, colons, commas, written.patternValue, written.replacementValue,
    multipleText, beforeComma_eq_nil strict.comma, Layout.text, Layout.values, front, separator,
    gap, Ending.text, blanksOf, List.flatten_cons, List.flatten_nil, List.append_nil,
    List.nil_append, List.append_assoc, List.cons_append]
  rfl

/-! ## Lines of the form are spelled strictly -/

theorem blanks_append_inj (first second : Blanks) {c d : Char} {t u : Text}
    (sharp : Text.isBlank c = false) (sharpToo : Text.isBlank d = false)
    (same : first.val ++ c :: t = second.val ++ d :: u) : first.val = second.val ∧ t = u := by
  have trimmed := congrArg Text.trimStart same
  rw [trimStart_append first (by simpa using sharp),
    trimStart_append second (by simpa using sharpToo)] at trimmed
  rw [trimmed] at same
  exact ⟨List.append_cancel_right same, (List.cons.inj trimmed).2⟩

/-- Up to the colon, a member of the form is spelled by its name and nothing else. -/
theorem strict_of_name {m : MemberSpelling} {blanks : Blanks} {word t rest n : Text}
    (plain : ∀ c ∈ word, IsPlain c) (spelled : Spells m.name n)
    (same : m.text ++ rest = blanks.val ++ '"' :: (word ++ '"' :: ':' :: t)) :
    m.name = word ∧ m.beforeColon.val = [] ∧
      m.afterColon.val ++ (m.value ++ (m.behind.val ++ rest)) = t := by
  simp only [MemberSpelling.text, MemberSpelling.core, List.append_assoc, List.cons_append] at same
  obtain ⟨-, same⟩ :=
    blanks_append_inj (blanksOf m.before) blanks (by decide) (by decide) same
  obtain ⟨name, same⟩ := spelled.enclosed.append_inj (.of_plain plain) same
  obtain ⟨none, same⟩ := blanks_append_inj (blanksOf m.beforeColon) ⟨[], List.forall_mem_nil _⟩
    (by decide) (by decide) same
  exact ⟨name, none, same⟩

/-- Up to the comma, a string of the form is spelled by its literal and nothing else. -/
theorem strict_of_string {m : MemberSpelling} {blanks : Blanks} {raw front t rest s : Text}
    (text : m.value = '"' :: (raw ++ ['"'])) (spelled : Spells raw s) (enclosed : Enclosed front)
    (same : m.afterColon.val ++ (m.value ++ (m.behind.val ++ ',' :: rest)) =
      blanks.val ++ '"' :: (front ++ '"' :: ',' :: t)) :
    m.behind.val = [] ∧ rest = t := by
  simp only [text, List.append_assoc, List.cons_append, List.nil_append] at same
  obtain ⟨-, same⟩ :=
    blanks_append_inj (blanksOf m.afterColon) blanks (by decide) (by decide) same
  obtain ⟨-, same⟩ := spelled.enclosed.append_inj enclosed same
  exact blanks_append_inj (blanksOf m.behind) ⟨[], List.forall_mem_nil _⟩ (by decide) (by decide)
    same

/-- The last value and what stands around it have no backslash in a line of the form. -/
theorem slash_not_mem_behindKey (ending : Ending) (truth : Bool) :
    '\\' ∉ ending.behindKey truth := by
  have noSlash : ∀ blanks : Blanks, '\\' ∉ blanks.val :=
    fun blanks member => absurd (blanks.property _ member) (by decide)
  obtain ⟨_, beforeValue, opened, closed, beforeBrace, _, _⟩ := ending
  cases opened <;> cases closed <;> cases truth <;>
    simp [Ending.behindKey, truthText, noSlash]

/-- In a line of the form, the text read as JSON ends with the brace, so no blanks stand between it
and the comma. -/
theorem Spelling.comma_of_layout {s : Spelling} {layout : Layout} {fields : Fields}
    (same : s.text = layout.text fields) : (beforeComma s.comma).val = [] := by
  have json := s.jsonPart_text
  obtain ⟨t, ends⟩ := layout.text_bare_ends fields
  rw [same, RuleLine.jsonPart_text, ends] at json
  rcases List.eq_nil_or_concat (beforeComma s.comma).val with empty | ⟨front, c, shape⟩
  · exact empty
  · rw [shape, List.concat_eq_append, ← List.append_assoc] at json
    have brace : ['\x7d'] = [c] := List.append_inj_right' json rfl
    have space := (beforeComma s.comma).property c (by rw [shape]; simp)
    rw [← (List.cons.inj brace).1] at space
    cases space

/-- A line that is divided into values spells its rule as strictly as the form asks. -/
theorem Spelling.isStrict {s : Spelling} {entries : Members} {layout : Layout} {fields : Fields}
    (stands : s.StandsFor entries) (same : s.text = layout.text fields) : s.IsStrict := by
  have comma := Spelling.comma_of_layout same
  have json := s.jsonPart_text
  rw [same, RuleLine.jsonPart_text] at json
  rw [comma, List.append_nil] at json
  have read : Value.ofText (Rejection.jsonPart s.text) = .ok (.object entries) :=
    (ofText_jsonPart_iff.mpr ⟨s, rfl, stands⟩).1
  rw [same, RuleLine.jsonPart_text] at read
  obtain ⟨one, oneToo⟩ := enclosed_of_ruleMembers (document_of_ofText read) stands.1
  obtain ⟨pattern, replacement, written⟩ := stands.writes
  obtain ⟨_, patternSpelled⟩ := written.pattern
  obtain ⟨_, replacementSpelled⟩ := written.replacement
  rw [layout.text_bare, object] at json
  have inside := (List.cons.inj json).2.symm
  rw [MemberSpelling.laterText] at inside
  obtain ⟨firstName, firstColon, inside⟩ :=
    strict_of_name (by simp [IsPlain]) written.patternName inside
  obtain ⟨firstEnd, inside⟩ :=
    strict_of_string written.patternValue patternSpelled one inside
  rw [MemberSpelling.laterText] at inside
  obtain ⟨secondName, secondColon, inside⟩ :=
    strict_of_name (by simp [IsPlain]) written.replacementName inside
  obtain ⟨secondEnd, inside⟩ :=
    strict_of_string written.replacementValue replacementSpelled oneToo inside
  obtain ⟨thirdName, thirdColon, inside⟩ :=
    strict_of_name (by simp [IsPlain]) written.multipleName inside
  have unescaped := slash_not_mem_behindKey layout.ending fields.multiple
  rw [← inside] at unescaped
  refine ⟨?_, ?_, ?_, ?_, comma⟩
  · simp [members, firstColon, secondColon, thirdColon]
  · simp [members, firstName, secondName, thirdName]
  · intro member
    exact unescaped (List.mem_append_right _ (List.mem_append_left _ member))
  · simp [firstEnd, secondEnd]

/-- A spelling of a rule has the form of a rule line exactly if it is strict. -/
theorem fields?_text_eq_none_iff {s : Spelling} {entries : Members}
    (stands : s.StandsFor entries) : fields? s.text = none ↔ ¬ s.IsStrict := by
  rw [Fields.fields?_eq_none_iff]
  constructor
  · intro none strict
    obtain ⟨fields, spelled⟩ := Spelling.spelledBy stands strict
    exact none fields spelled
  · intro loose fields spelled
    obtain ⟨-, layout, same⟩ := spelled
    exact loose (Spelling.isStrict stands same)

end TreeMigration.RuleLine
