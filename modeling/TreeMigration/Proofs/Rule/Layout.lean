import TreeMigration.Proofs.Rule.Division
import TreeMigration.Rule.Collection

/-!
The form of a rule line, written out. A line has the form of a rule exactly if it can be written
from its three values with some choice of blanks, quotes and commas; of several such choices the one
with the longest `from` is read, and that settles the rest.

A `Layout` is all that is free besides the values: the blanks in every place where they may stand,
the quotes around the value of `multiple`, each there or not, and the comma behind the object. Its
end is an `Ending`, which is read on its own, since the reader meets it once for every division of
the line.

From a layout to a reading, every mark is found behind its blanks. From a reading to a layout, the
blanks and choices are collected from what the steps gave (`exists_ending`, `multiple?_eq_some_iff`,
`replacement?_eq_some_iff`). The values may hold any characters but a line break, so the division is
not unique; `Closes` marks the places in a text where a value could end, and is how later modules
argue that there is no other one.
-/
namespace TreeMigration.RuleLine

def truthText (value : Bool) : Text := if value then "true" else "false"

/-- What is free in the end of a rule line, from the quote that closes `to`. -/
structure Ending where
  beforeMultiple : Blanks
  beforeValue : Blanks
  opened : Bool
  closed : Bool
  beforeBrace : Blanks
  comma : Bool
  after : Blanks

def Ending.text (ending : Ending) (multiple : Bool) : Text :=
  List.flatten ["\",", ending.beforeMultiple, "\"multiple\":", ending.beforeValue,
    optional ending.opened "\"", truthText multiple, optional ending.closed "\"",
    ending.beforeBrace, "\x7d", optional ending.comma ",", ending.after]

/-- What stands between the two values, up to the quote that opens `to`. -/
def gap (beforeTo beforeReplacement : Blanks) : Text :=
  List.flatten ["\",", beforeTo, "\"to\":", beforeReplacement]

/-- The whole of what stands between the two values, both of their quotes included. -/
def separator (beforeTo beforeReplacement : Blanks) : Text :=
  gap beforeTo beforeReplacement ++ "\""

def front (outer beforeFrom beforePattern : Blanks) : Text :=
  List.flatten [outer, "\x7b", beforeFrom, "\"from\":", beforePattern, "\""]

/-- What is free in a rule line besides its values. -/
structure Layout where
  outer : Blanks
  beforeFrom : Blanks
  beforePattern : Blanks
  beforeTo : Blanks
  beforeReplacement : Blanks
  ending : Ending

def Layout.values (layout : Layout) (fields : Fields) : Text :=
  fields.pattern ++ (separator layout.beforeTo layout.beforeReplacement ++
    (fields.replacement ++ layout.ending.text fields.multiple))

def Layout.text (layout : Layout) (fields : Fields) : Text :=
  front layout.outer layout.beforeFrom layout.beforePattern ++ layout.values fields

theorem truth_eq_some_iff {t rest : Text} {value : Bool} :
    ((after? "true" t).map (true, ·)).or ((after? "false" t).map (false, ·)) = some (value, rest) ↔
      t = truthText value ++ rest := by
  rw [Option.or_eq_some_iff]
  simp only [Option.map_eq_some_iff, Prod.mk.injEq, after?_eq_some_iff]
  constructor
  · rintro (⟨_, rfl, rfl, rfl⟩ | ⟨-, _, rfl, rfl, rfl⟩)
    · rfl
    · rfl
  · rintro rfl
    cases value with
    | true => exact .inl ⟨rest, rfl, rfl, rfl⟩
    | false => exact .inr ⟨rfl, rest, rfl, rfl, rfl⟩

theorem not_quote_prefix_truthText (value : Bool) (rest : Text) :
    ¬ ("\"" : Text) <+: truthText value ++ rest := by
  cases value <;> simp [truthText]

theorem sharp_quote : Sharp "\"" := ⟨'"', rfl, by decide⟩

theorem sharp_multiple : Sharp "\"multiple\":" := ⟨'"', rfl, by decide⟩

theorem sharp_brace : Sharp "\x7d" := ⟨'\x7d', rfl, by decide⟩

theorem Ending.multiple?_text (ending : Ending) (multiple : Bool) :
    multiple? (ending.text multiple) = some multiple := by
  obtain ⟨beforeMultiple, beforeValue, opened, closed, beforeBrace, comma, after⟩ := ending
  have opens : ∀ rest, (optional opened "\"" ++ (truthText multiple ++ rest)).head?.any
      Text.isBlank = false := by
    intro rest
    cases opened <;> cases multiple <;> rfl
  have closes := not_prefix_blanks_append sharp_quote beforeBrace
    (show ¬ ("\"" : Text) <+: "\x7d" ++ (optional comma "," ++ after.val) by simp)
  have ends := not_prefix_blanks_append (show Sharp "," from ⟨',', rfl, by decide⟩) after
    (show ¬ ("," : Text) <+: [] by simp)
  rw [List.append_nil] at ends
  have blank : after.val.all Text.isBlank = true := List.all_eq_true.mpr after.property
  simp only [multiple?, text, List.flatten_cons, List.flatten_nil, List.append_nil, after?_append,
    Option.bind_eq_bind, Option.bind_some, afterBlanks?_append sharp_multiple]
  rw [trimStart_append _ (opens _), afterOptional_append _ (not_quote_prefix_truthText _ _),
    truth_eq_some_iff.mpr rfl]
  simp only [Option.bind_some]
  rw [afterOptional_append _ closes, afterBlanks?_append sharp_brace, Option.bind_some,
    afterOptional_append _ ends, if_pos blank]

theorem exists_ending {t : Text} {multiple : Bool} (found : multiple? t = some multiple) :
    ∃ ending : Ending, t = ending.text multiple := by
  simp only [multiple?, Option.bind_eq_bind, Option.bind_eq_some_iff] at found
  obtain ⟨afterComma, quote, afterKey, named, ⟨value, afterValue⟩, truth, afterBrace, braced,
    last⟩ := found
  obtain ⟨beforeMultiple, rfl⟩ := (afterBlanks?_eq_some_iff sharp_multiple).mp named
  obtain ⟨beforeValue, trimmed⟩ := exists_blanks afterKey
  obtain ⟨opened, unquoted⟩ := exists_optional "\"" (Text.trimStart afterKey)
  obtain ⟨closed, closing⟩ := exists_optional "\"" afterValue
  obtain ⟨beforeBrace, rest⟩ := (afterBlanks?_eq_some_iff sharp_brace).mp braced
  obtain ⟨comma, ends⟩ := exists_optional "," afterBrace
  generalize afterOptional "," afterBrace = after at last ends
  obtain ⟨blank, same⟩ := Option.ite_none_right_eq_some.mp last
  have same : value = multiple := Option.some.inj same
  refine ⟨⟨beforeMultiple, beforeValue, opened, closed, beforeBrace, comma,
    ⟨after, List.all_eq_true.mp blank⟩⟩, ?_⟩
  rw [after?_eq_some_iff.mp quote, trimmed, unquoted, truth_eq_some_iff.mp truth, closing, rest,
    ends, same]
  simp only [Ending.text, List.flatten_cons, List.flatten_nil, List.append_nil]

theorem multiple?_eq_some_iff {t : Text} {multiple : Bool} :
    multiple? t = some multiple ↔ ∃ ending : Ending, t = ending.text multiple := by
  constructor
  · exact exists_ending
  · rintro ⟨ending, rfl⟩
    exact ending.multiple?_text multiple

/-! ## The end is found in one place only

A quote with a comma after it stands nowhere in the end of a line but at its front. -/

/-- Whether a value could end somewhere in the text. -/
def Closes (t : Text) : Prop := ("\"," : Text) <:+: t

theorem closes_cons {c : Char} {t : Text} :
    Closes (c :: t) ↔ (c = '"' ∧ ([','] : Text) <+: t) ∨ Closes t := by
  rw [Closes, List.infix_cons_iff, Closes]
  refine or_congr_left ?_
  rw [eq_comm]
  exact List.cons_prefix_cons

theorem closes_append_of_plain {front t : Text} (plain : '"' ∉ front) :
    Closes (front ++ t) ↔ Closes t := by
  induction front with
  | nil => rfl
  | cons c front ih =>
    rw [List.mem_cons, not_or] at plain
    rw [List.cons_append, closes_cons, ih plain.2]
    exact or_iff_right fun starts => plain.1 starts.1.symm

theorem quote_not_mem_blanks (blanks : Blanks) : '"' ∉ blanks.val := by
  intro member
  have blank := blanks.property _ member
  exact absurd blank (by decide)

theorem not_closes_of_plain {t : Text} (plain : '"' ∉ t) : ¬ Closes t := by
  intro closes
  exact plain (closes.subset List.mem_cons_self)

theorem Ending.not_closes_tail (ending : Ending) (multiple : Bool) :
    ¬ Closes (ending.text multiple).tail := by
  obtain ⟨beforeMultiple, beforeValue, opened, closed, beforeBrace, comma, after⟩ := ending
  have braced : ∀ t, ¬ ([','] : Text) <+: beforeBrace.val ++ '\x7d' :: t :=
    fun t => not_prefix_blanks_append ⟨',', rfl, by decide⟩ beforeBrace (by simp)
  have ends : ¬ Closes after.val := not_closes_of_plain (quote_not_mem_blanks after)
  cases opened <;> cases multiple <;> cases closed <;> cases comma <;>
    simp [Ending.text, optional, truthText, closes_cons, closes_append_of_plain,
      quote_not_mem_blanks, braced, ends]

/-- No end of a line is a proper end part of another. -/
theorem Ending.eq_nil_of_append {first second : Ending} {multiple other : Bool} {front : Text}
    (same : first.text multiple = front ++ second.text other) : front = [] := by
  cases front with
  | nil => rfl
  | cons c front =>
    have within : Closes (first.text multiple).tail := by
      rw [same]
      refine List.IsInfix.trans ?_ (List.suffix_append front _).isInfix
      exact (List.prefix_append _ _).isInfix
    exact absurd within (first.not_closes_tail multiple)

/-- Text before the end of a line can be told from the end. -/
theorem Ending.append_inj {first second : Ending} {multiple other : Bool} {t u : Text}
    (same : t ++ first.text multiple = u ++ second.text other) : t = u ∧ multiple = other := by
  have texts : t = u ∧ first.text multiple = second.text other := by
    rcases List.append_eq_append_iff.mp same with ⟨front, whole, rest⟩ | ⟨front, whole, rest⟩
    · rw [Ending.eq_nil_of_append rest] at whole rest
      exact ⟨by rw [whole, List.append_nil], rest⟩
    · rw [Ending.eq_nil_of_append rest] at whole rest
      exact ⟨by rw [whole, List.append_nil], rest.symm⟩
  have reads := first.multiple?_text multiple
  rw [texts.2, second.multiple?_text] at reads
  exact ⟨texts.1, (Option.some.inj reads).symm⟩

/-! ## The whole line -/

theorem replacement?_eq_some_iff {t replacement : Text} {multiple : Bool} :
    replacement? t = some (replacement, multiple) ↔
      '\n' ∉ replacement ∧ ∃ (beforeTo beforeReplacement : Blanks) (ending : Ending),
        t = separator beforeTo beforeReplacement ++ (replacement ++ ending.text multiple) := by
  have key : Sharp "\"to\":" := ⟨'"', rfl, by decide⟩
  constructor
  · intro found
    simp only [replacement?, Option.bind_eq_bind, Option.bind_eq_some_iff] at found
    obtain ⟨afterComma, closes, afterKey, named, values, opens, divided⟩ := found
    obtain ⟨beforeTo, rfl⟩ := (afterBlanks?_eq_some_iff key).mp named
    obtain ⟨beforeReplacement, rfl⟩ := (afterBlanks?_eq_some_iff sharp_quote).mp opens
    obtain ⟨front, back, whole, clear, reads, -⟩ := findSome?_divisions_eq_some_iff.mp divided
    obtain ⟨value, ends, same⟩ := Option.map_eq_some_iff.mp reads
    obtain ⟨rfl, rfl⟩ := Prod.mk.inj same
    obtain ⟨ending, rest⟩ := multiple?_eq_some_iff.mp ends
    refine ⟨clear, beforeTo, beforeReplacement, ending, ?_⟩
    rw [after?_eq_some_iff.mp closes, whole, show back = ending.text value from rest]
    simp only [separator, gap, List.flatten_cons, List.flatten_nil, List.append_nil,
      List.append_assoc]
  · rintro ⟨clear, beforeTo, beforeReplacement, ending, rfl⟩
    simp only [replacement?, separator, gap, List.flatten_cons, List.flatten_nil, List.append_nil,
      List.append_assoc, after?_append, Option.bind_eq_bind, Option.bind_some,
      afterBlanks?_append key, afterBlanks?_append sharp_quote]
    refine findSome?_divisions_eq_some_iff.mpr
      ⟨replacement, ending.text multiple, rfl, clear, ?_, ?_⟩
    · rw [multiple?_eq_some_iff.mpr ⟨ending, rfl⟩]
      rfl
    · intro longer rest whole _ more
      rw [Option.map_eq_none_iff, Option.eq_none_iff_forall_ne_some]
      intro value reads
      obtain ⟨other, ends⟩ := multiple?_eq_some_iff.mp reads
      rw [show rest = other.text value from ends] at whole
      rw [(Ending.append_inj whole).1] at more
      exact Nat.lt_irrefl _ more

/-- Reads a line up to the quote that opens `from`. -/
def afterFront? (line : Text) : Option Text := do
  let t ← afterBlanks? "\x7b" line
  let t ← afterBlanks? "\"from\":" t
  afterBlanks? "\"" t

theorem fields?_eq (line : Text) :
    fields? line = (afterFront? line).bind fun t =>
      (divisions t).findSome? fun d => (replacement? d.2).map fun r => ⟨d.1, r.1, r.2⟩ := by
  simp only [fields?, afterFront?, Option.bind_eq_bind, Option.bind_assoc]

theorem afterFront?_eq_some_iff {line rest : Text} :
    afterFront? line = some rest ↔ ∃ outer beforeFrom beforePattern : Blanks,
      line = front outer beforeFrom beforePattern ++ rest := by
  have brace : Sharp "\x7b" := ⟨'\x7b', rfl, by decide⟩
  have key : Sharp "\"from\":" := ⟨'"', rfl, by decide⟩
  simp only [afterFront?, Option.bind_eq_bind, Option.bind_eq_some_iff]
  constructor
  · rintro ⟨afterBrace, braced, afterKey, named, opens⟩
    obtain ⟨outer, rfl⟩ := (afterBlanks?_eq_some_iff brace).mp braced
    obtain ⟨beforeFrom, rfl⟩ := (afterBlanks?_eq_some_iff key).mp named
    obtain ⟨beforePattern, rfl⟩ := (afterBlanks?_eq_some_iff sharp_quote).mp opens
    refine ⟨outer, beforeFrom, beforePattern, ?_⟩
    simp only [front, List.flatten_cons, List.flatten_nil, List.append_nil, List.append_assoc]
  · rintro ⟨outer, beforeFrom, beforePattern, rfl⟩
    simp only [front, List.flatten_cons, List.flatten_nil, List.append_nil, List.append_assoc]
    exact ⟨_, afterBlanks?_append brace _ _, _, afterBlanks?_append key _ _,
      afterBlanks?_append sharp_quote _ _⟩

theorem Layout.afterFront?_text (layout : Layout) (fields : Fields) :
    afterFront? (layout.text fields) = some (layout.values fields) :=
  afterFront?_eq_some_iff.mpr ⟨_, _, _, rfl⟩

theorem Layout.values_eq {layout other : Layout} {fields otherFields : Fields}
    (same : layout.text fields = other.text otherFields) :
    layout.values fields = other.values otherFields := by
  apply Option.some.inj
  rw [← Layout.afterFront?_text, ← Layout.afterFront?_text, same]

/-- Neither value holds a line break. -/
def Fields.Clear (fields : Fields) : Prop := '\n' ∉ fields.pattern ∧ '\n' ∉ fields.replacement

/-- The line can be written from these values. -/
def Fields.SpelledBy (fields : Fields) (line : Text) : Prop :=
  fields.Clear ∧ ∃ layout : Layout, line = layout.text fields

theorem Fields.spelledBy_iff {fields : Fields} {line : Text} :
    fields.SpelledBy line ↔ ∃ rest, afterFront? line = some (fields.pattern ++ rest) ∧
      '\n' ∉ fields.pattern ∧ replacement? rest = some (fields.replacement, fields.multiple) := by
  constructor
  · rintro ⟨⟨clearPattern, clearReplacement⟩, layout, rfl⟩
    exact ⟨_, layout.afterFront?_text fields, clearPattern,
      replacement?_eq_some_iff.mpr ⟨clearReplacement, _, _, _, rfl⟩⟩
  · rintro ⟨rest, opens, clearPattern, reads⟩
    obtain ⟨outer, beforeFrom, beforePattern, rfl⟩ := afterFront?_eq_some_iff.mp opens
    obtain ⟨clearReplacement, beforeTo, beforeReplacement, ending, rfl⟩ :=
      replacement?_eq_some_iff.mp reads
    exact ⟨⟨clearPattern, clearReplacement⟩,
      ⟨outer, beforeFrom, beforePattern, beforeTo, beforeReplacement, ending⟩, rfl⟩

/-- Of all the ways to write a line from values, the one with the longest `from` is read. -/
theorem fields?_eq_some_iff {line : Text} {fields : Fields} :
    fields? line = some fields ↔ fields.SpelledBy line ∧
      ∀ other : Fields, other.SpelledBy line → other.pattern.length ≤ fields.pattern.length := by
  rw [fields?_eq, Option.bind_eq_some_iff]
  constructor
  · rintro ⟨t, opens, divided⟩
    obtain ⟨pattern, rest, rfl, clear, reads, longest⟩ := findSome?_divisions_eq_some_iff.mp divided
    obtain ⟨⟨replacement, multiple⟩, read, rfl⟩ := Option.map_eq_some_iff.mp reads
    refine ⟨Fields.spelledBy_iff.mpr ⟨rest, opens, clear, read⟩, ?_⟩
    intro other spelled
    obtain ⟨otherRest, opensToo, clearToo, readToo⟩ := Fields.spelledBy_iff.mp spelled
    apply Nat.le_of_not_lt
    intro more
    have declined := longest _ _ (Option.some.inj (opens.symm.trans opensToo)) clearToo more
    rw [readToo] at declined
    cases declined
  · rintro ⟨spelled, longest⟩
    obtain ⟨rest, opens, clear, read⟩ := Fields.spelledBy_iff.mp spelled
    refine ⟨_, opens, findSome?_divisions_eq_some_iff.mpr ⟨_, _, rfl, clear, ?_, ?_⟩⟩
    · rw [read]
      rfl
    · intro longer otherRest whole clearToo more
      rw [Option.map_eq_none_iff, Option.eq_none_iff_forall_ne_some]
      intro ⟨replacement, multiple⟩ readToo
      rw [whole] at opens
      have fits := longest ⟨longer, replacement, multiple⟩
        (Fields.spelledBy_iff.mpr ⟨otherRest, opens, clearToo, readToo⟩)
      exact absurd more (Nat.not_lt_of_le fits)

/-! ## Lines that carry a rule -/

theorem trimEnd_cons {c : Char} {t : Text} (plain : Text.isBlank c = false) :
    Text.trimEnd (c :: t) = c :: Text.trimEnd t := by
  rw [Text.trimEnd, List.reverse_cons, List.dropWhile_append]
  split
  · rename_i blank
    rw [Text.trimEnd, List.isEmpty_iff.mp blank]
    simp [plain]
  · rw [List.reverse_append]
    rfl

/-- What is left of a line of the form of a rule without the blanks around it. -/
theorem Layout.trim_text (layout : Layout) (fields : Fields) :
    ∃ rest, Text.trim (layout.text fields) = '\x7b' :: rest := by
  simp only [Layout.text, front, List.flatten_cons, List.append_assoc]
  rw [Text.trim, trimStart_append _ (by rfl)]
  exact ⟨_, trimEnd_cons (by decide)⟩

theorem Layout.isStructural_text (layout : Layout) (fields : Fields) :
    isStructural (layout.text fields) = false := by
  obtain ⟨rest, trimmed⟩ := layout.trim_text fields
  rw [isStructural, trimmed]
  simp

/-- A line carries a rule exactly if values are read from it and their pattern is not empty. -/
theorem ofLine_eq_ok_some_iff {line : Text} {rule : Rule} :
    Rule.ofLine line = .ok (some rule) ↔
      rule.pattern ≠ [] ∧ ∃ fields, fields? line = some fields ∧ fields.rule = rule := by
  unfold Rule.ofLine
  constructor
  · intro read
    split at read
    · cases read
    · split at read
      · cases read
      · rename_i fields found
        dsimp only at read
        split at read
        · cases read
        · rename_i filled
          have same : fields.rule = rule := Option.some.inj (Except.ok.inj read)
          rw [same, List.isEmpty_iff] at filled
          exact ⟨filled, fields, found, same⟩
  · rintro ⟨filled, fields, found, rfl⟩
    obtain ⟨⟨-, layout, rfl⟩, -⟩ := fields?_eq_some_iff.mp found
    rw [layout.isStructural_text, found]
    simp [filled]

end TreeMigration.RuleLine
