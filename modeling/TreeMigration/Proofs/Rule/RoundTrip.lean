import TreeMigration.Proofs.Rule.Layout
import TreeMigration.Proofs.Rule.Escapes

/-!
Writing a rule as a line and reading it back. The values are not delimited by their escapes, so the
rule comes back exactly unless its replacement contains what may stand between two values: then the
line divides there as well, with a longer pattern. White space around the name `to` that includes a
line break rules that out, since no pattern reaches over it.

`exists_longer_iff` decides whether a line written from values has a longer pattern in it. If it
has, the pattern takes in the gap between the two values and ends inside the replacement
(`Layout.divides_of_longer`), where again such a gap must stand; if the replacement holds one, the
line can be divided at it (`Layout.text_of_divides`). A rule read from such a line is never the one
written, because the longer pattern has quotes in it that decoding keeps (`rule_ne_of_longer`).

The replacement is looked at together with the quote before it, as the separator begins with one.
-/
namespace TreeMigration.RuleLine

def Fields.ofRule (rule : Rule) : Fields :=
  ⟨encodePattern rule.pattern, encodeReplacement rule.replacement, decide (rule.mode = .all)⟩

/-- The text contains what may stand between two values. -/
def HoldsSeparator (t : Text) : Prop :=
  ∃ beforeTo beforeReplacement : Blanks, separator beforeTo beforeReplacement <:+: t

theorem Fields.rule_ofRule (rule : Rule) : (Fields.ofRule rule).rule = rule := by
  obtain ⟨pattern, replacement, mode⟩ := rule
  simp only [Fields.rule, Fields.ofRule, decodePattern_encodePattern,
    decodeReplacement_encodeReplacement]
  cases mode <;> rfl

theorem Fields.clear_ofRule {rule : Rule} (patternClear : '\n' ∉ rule.pattern)
    (replacementClear : '\n' ∉ rule.replacement) : (Fields.ofRule rule).Clear := by
  constructor
  · intro member
    rcases mem_of_mem_encodePattern member with slash | inside
    · exact absurd slash (by decide)
    · exact patternClear inside
  · intro member
    exact replacementClear (mem_of_mem_encodeReplacement member)

theorem gap_eq_cons (beforeTo beforeReplacement : Blanks) :
    ∃ rest, gap beforeTo beforeReplacement = '"' :: ',' :: rest := by
  simp only [gap, List.flatten_cons]
  exact ⟨_, rfl⟩

theorem not_closes_tail_gap (beforeTo beforeReplacement : Blanks) :
    ¬ Closes (gap beforeTo beforeReplacement).tail := by
  have ends : ¬ Closes beforeReplacement.val := not_closes_of_plain (quote_not_mem_blanks _)
  simp [gap, closes_cons, closes_append_of_plain, quote_not_mem_blanks, ends]

/-- What stands between two values is not found from within it on, except from its last quote. -/
theorem exists_of_separator_within {beforeTo beforeReplacement otherTo otherReplacement : Blanks}
    {passed t rest : Text} (later : passed ≠ [])
    (same : separator beforeTo beforeReplacement ++ t =
      passed ++ (separator otherTo otherReplacement ++ rest)) :
    ∃ inside, passed = gap beforeTo beforeReplacement ++ inside ∧
      '"' :: t = inside ++ (separator otherTo otherReplacement ++ rest) := by
  rw [separator, List.append_assoc] at same
  obtain ⟨behind, begins⟩ := gap_eq_cons otherTo otherReplacement
  rcases List.append_eq_append_iff.mp same with ⟨inside, reached, left⟩ | ⟨inside, reached, left⟩
  · exact ⟨inside, reached, left⟩
  · cases inside with
    | nil =>
      rw [List.append_nil] at reached
      exact ⟨[], by rw [reached, List.append_nil], left.symm⟩
    | cons c inside =>
      -- The quote and the comma that are found would stand within the gap, after its front.
      exfalso
      rw [separator, List.append_assoc, begins] at left
      obtain ⟨rfl, second⟩ := List.cons.inj left
      cases inside with
      | nil => exact absurd (List.cons.inj second).1 (by decide)
      | cons d inside =>
        obtain ⟨rfl, -⟩ := List.cons.inj second
        obtain ⟨p, passed, rfl⟩ := List.exists_cons_of_ne_nil later
        apply not_closes_tail_gap beforeTo beforeReplacement
        rw [reached]
        exact ⟨passed, inside, by simp⟩

/-- A longer `from` takes in the gap and ends where the replacement holds what may stand between
two values. -/
theorem Layout.divides_of_longer {layout other : Layout} {fields wider : Fields}
    (same : layout.values fields = other.values wider)
    (longer : fields.pattern.length < wider.pattern.length) :
    ∃ inside, wider.pattern =
        fields.pattern ++ (gap layout.beforeTo layout.beforeReplacement ++ inside) ∧
      '"' :: fields.replacement =
        inside ++ (separator other.beforeTo other.beforeReplacement ++ wider.replacement) := by
  have begins : fields.pattern <+: layout.values fields := List.prefix_append _ _
  have beginsWider : wider.pattern <+: layout.values fields := by
    rw [same]
    exact List.prefix_append _ _
  obtain ⟨passed, reached⟩ :=
    List.prefix_of_prefix_length_le begins beginsWider (Nat.le_of_lt longer)
  have later : passed ≠ [] := by
    rintro rfl
    rw [← reached, List.append_nil] at longer
    exact Nat.lt_irrefl _ longer
  rw [Layout.values, Layout.values, ← reached, List.append_assoc, List.append_cancel_left_eq]
    at same
  have front : separator layout.beforeTo layout.beforeReplacement ++ fields.replacement =
      passed ++ (separator other.beforeTo other.beforeReplacement ++ wider.replacement) := by
    apply And.left
    apply Ending.append_inj
    simpa only [List.append_assoc] using same
  obtain ⟨inside, passedGap, found⟩ := exists_of_separator_within later front
  exact ⟨inside, by rw [← reached, passedGap], found⟩

theorem newline_not_mem_gap_iff {beforeTo beforeReplacement : Blanks} :
    '\n' ∉ gap beforeTo beforeReplacement ↔
      '\n' ∉ beforeTo.val ∧ '\n' ∉ beforeReplacement.val := by
  simp [gap]

/-- Where the replacement holds what may stand between two values, the line divides there too. -/
theorem Layout.text_of_divides (layout : Layout) {fields : Fields} {inside back : Text}
    {beforeTo beforeReplacement : Blanks}
    (found : '"' :: fields.replacement =
      inside ++ (separator beforeTo beforeReplacement ++ back)) :
    layout.text fields =
      Layout.text ⟨layout.outer, layout.beforeFrom, layout.beforePattern, beforeTo,
        beforeReplacement, layout.ending⟩
        ⟨fields.pattern ++ (gap layout.beforeTo layout.beforeReplacement ++ inside), back,
          fields.multiple⟩ := by
  rw [Layout.text, Layout.text, List.append_cancel_left_eq, Layout.values, Layout.values,
    List.append_assoc, List.append_cancel_left_eq, List.append_assoc, separator, List.append_assoc,
    List.append_cancel_left_eq]
  calc '"' :: (fields.replacement ++ layout.ending.text fields.multiple)
      = ('"' :: fields.replacement) ++ layout.ending.text fields.multiple := rfl
    _ = inside ++ (separator beforeTo beforeReplacement ++
          (back ++ layout.ending.text fields.multiple)) := by
        rw [found, List.append_assoc, List.append_assoc]

/-- A line written from values can be written from values with a longer `from` exactly where the
replacement allows it and the gap between the two values does not hold a line break. -/
theorem exists_longer_iff (layout : Layout) {fields : Fields} (clear : fields.Clear) :
    (∃ other : Fields, other.SpelledBy (layout.text fields) ∧
      fields.pattern.length < other.pattern.length) ↔
    '\n' ∉ gap layout.beforeTo layout.beforeReplacement ∧
      HoldsSeparator ('"' :: fields.replacement) := by
  constructor
  · rintro ⟨other, ⟨clearOther, otherLayout, sameText⟩, longer⟩
    obtain ⟨inside, reached, found⟩ :=
      Layout.divides_of_longer (Layout.values_eq sameText) longer
    constructor
    · intro member
      apply clearOther.1
      rw [reached]
      exact List.mem_append_right _ (List.mem_append_left _ member)
    · exact ⟨_, _, inside, other.replacement, by rw [found, List.append_assoc]⟩
  · rintro ⟨clearGap, beforeTo, beforeReplacement, inside, back, found⟩
    rw [List.append_assoc] at found
    have clearQuoted : '\n' ∉ '"' :: fields.replacement := by simpa using clear.2
    rw [← found, List.mem_append, List.mem_append, not_or, not_or] at clearQuoted
    refine ⟨_, ⟨⟨?_, clearQuoted.2.2⟩, _, layout.text_of_divides found.symm⟩, ?_⟩
    · simp only [List.mem_append, not_or]
      exact ⟨clear.1, clearGap, clearQuoted.1⟩
    · obtain ⟨rest, begins⟩ := gap_eq_cons layout.beforeTo layout.beforeReplacement
      rw [begins]
      simp

/-- Values read from a line written from a rule stand for that rule only if none have a longer
`from`: what a longer one takes in besides includes quotes, which decoding keeps. -/
theorem rule_ne_of_longer {layout : Layout} {rule : Rule} {fields : Fields}
    (spelled : fields.SpelledBy (layout.text (.ofRule rule)))
    (longer : (Fields.ofRule rule).pattern.length < fields.pattern.length) :
    fields.rule ≠ rule := by
  intro same
  obtain ⟨-, otherLayout, sameText⟩ := spelled
  obtain ⟨inside, reached, -⟩ := Layout.divides_of_longer (Layout.values_eq sameText) longer
  obtain ⟨rest, begins⟩ := gap_eq_cons layout.beforeTo layout.beforeReplacement
  have decoded : decodePattern fields.pattern = decodePattern (encodePattern rule.pattern) := by
    rw [decodePattern_encodePattern]
    exact congrArg Rule.pattern same
  have kept := congrArg (List.filter (· ≠ '\\')) decoded
  rw [filter_decodePattern, filter_decodePattern, reached, begins] at kept
  simp [Fields.ofRule] at kept

/-- A rule with a pattern and without line breaks, written as a line in any layout, is read back
exactly unless its replacement, a quote before it, contains what may stand between two values; and
even then if a line break in the white space around the name `to` keeps the pattern from extending
over it. -/
theorem ofLine_written_iff (layout : Layout) (rule : Rule) (filled : rule.pattern ≠ [])
    (patternClear : '\n' ∉ rule.pattern) (replacementClear : '\n' ∉ rule.replacement) :
    Rule.ofLine (layout.text (.ofRule rule)) = .ok (some rule) ↔
      ¬ HoldsSeparator ('"' :: encodeReplacement rule.replacement) ∨
        '\n' ∈ layout.beforeTo.val ∨ '\n' ∈ layout.beforeReplacement.val := by
  have clear := Fields.clear_ofRule patternClear replacementClear
  have longest : Rule.ofLine (layout.text (.ofRule rule)) = .ok (some rule) ↔
      ¬ ∃ other : Fields, other.SpelledBy (layout.text (.ofRule rule)) ∧
        (Fields.ofRule rule).pattern.length < other.pattern.length := by
    rw [ofLine_eq_ok_some_iff]
    constructor
    · rintro ⟨-, fields, found, same⟩ ⟨other, spelled, longer⟩
      obtain ⟨read, most⟩ := fields?_eq_some_iff.mp found
      exact rule_ne_of_longer read (Nat.lt_of_lt_of_le longer (most other spelled)) same
    · intro none
      refine ⟨filled, .ofRule rule, fields?_eq_some_iff.mpr ⟨⟨clear, layout, rfl⟩, ?_⟩,
        Fields.rule_ofRule rule⟩
      intro other spelled
      exact Nat.le_of_not_lt fun longer => none ⟨other, spelled, longer⟩
  rw [longest, exists_longer_iff layout clear, newline_not_mem_gap_iff]
  rw [Classical.not_and_iff_not_or_not, Classical.not_and_iff_not_or_not, Classical.not_not,
    Classical.not_not, or_comm]
  rfl

theorem not_holdsSeparator_of_not_closes {t : Text} (unclosed : ¬ Closes t) :
    ¬ HoldsSeparator t := by
  rintro ⟨beforeTo, beforeReplacement, found⟩
  obtain ⟨rest, begins⟩ := gap_eq_cons beforeTo beforeReplacement
  apply unclosed
  refine List.IsInfix.trans ?_ found
  rw [separator, begins]
  exact (List.prefix_append ['"', ','] _).isInfix

/-- The layout of rules in a list: a space after each colon and comma, and a comma at the end. -/
def listLayout : Layout :=
  let none := Blanks.ofText [] rfl
  let space := Blanks.ofText [' '] rfl
  ⟨none, none, space, space, space, ⟨space, space, false, false, none, true, none⟩⟩

/-- A rule in which both values hold quotes and backslashes. -/
def quotingRule : Rule := ⟨"\"a\\b\"", "\"c\\d\"", .first⟩

theorem ofLine_written_iff_quoting :
    listLayout.text (.ofRule quotingRule) =
      "\x7b\"from\": \"\\\"a\\\\b\\\"\", \"to\": \"\"c\\\\d\"\", \"multiple\": false\x7d," ∧
    Rule.ofLine (listLayout.text (.ofRule quotingRule)) = .ok (some quotingRule) := by
  constructor
  · decide +kernel
  · apply (ofLine_written_iff listLayout quotingRule (by decide) (by decide) (by decide)).mpr
    refine .inl (not_holdsSeparator_of_not_closes ?_)
    unfold Closes
    decide +kernel

/-- A line break before the name `to`. -/
def brokenLayout : Layout := { listLayout with beforeTo := Blanks.ofText ['\n'] rfl }

/-- A rule whose replacement holds what may stand between two values. -/
def dividingRule : Rule := ⟨"a", "\",\"to\":\"b", .all⟩

theorem ofLine_written_over_line_break :
    dividingRule.pattern ≠ [] ∧ '\n' ∉ dividingRule.pattern ∧ '\n' ∉ dividingRule.replacement ∧
    ¬ (Rule.ofLine (brokenLayout.text (.ofRule dividingRule)) = .ok (some dividingRule) ↔
      ¬ HoldsSeparator ('"' :: encodeReplacement dividingRule.replacement)) := by
  have read : Rule.ofLine (brokenLayout.text (.ofRule dividingRule)) = .ok (some dividingRule) := by
    rfl
  have holds : HoldsSeparator ('"' :: encodeReplacement dividingRule.replacement) :=
    ⟨.ofText [] rfl, .ofText [] rfl, ['"'], ['b'], by decide +kernel⟩
  refine ⟨by decide, by decide, by decide, ?_⟩
  intro equivalent
  exact equivalent.mp read holds

end TreeMigration.RuleLine
