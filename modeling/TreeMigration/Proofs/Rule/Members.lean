import TreeMigration.Proofs.Rule.Layout
import TreeMigration.Proofs.Json.Strings
import Mathlib

/-!
What a line that carries a rule is as JSON. The form of a rule line leaves its two values open, so
they may run over further members; the line is an object with the members of a rule exactly if each
value is one string literal.

From enclosed values to members, the object is read part by part along the layout
(`ruleMembers_of_enclosed`). The converse goes by the string literals of the line. The three names
are found among them in any case, and where no literal stands between them but one for each value,
the values are enclosed (`strings_of_passes`); an object with the members of a rule has no more
strings than these.

Blanks around the object and a comma behind it are taken off before the line is read as JSON, so
they have no part in the statement (`jsonPart_text`).
-/
namespace TreeMigration.RuleLine

open Json Json.Reader Json.StringLiteral

/-- The members of a rule object, in their order and with values of the right kinds. -/
def RuleMembers (members : Members) : Prop :=
  ∃ pattern replacement multiple,
    members = [(("from" : Text), .string pattern), (("to" : Text), .string replacement),
      (("multiple" : Text), multiple)] ∧ Rejection.isMultiple multiple = true

/-! ## The object on a line -/

/-- The same layout without what stands around the object. -/
def Layout.bare (layout : Layout) : Layout :=
  { layout with
    outer := ⟨[], by simp⟩
    ending := { layout.ending with comma := false, after := ⟨[], by simp⟩ } }

def Ending.behindKey (ending : Ending) (multiple : Bool) : Text :=
  ending.beforeValue.val ++ (optional ending.opened "\"" ++ (truthText multiple ++
    (optional ending.closed "\"" ++ (ending.beforeBrace.val ++ ['\x7d']))))

theorem Layout.text_bare (layout : Layout) (fields : Fields) :
    layout.bare.text fields =
      '\x7b' :: (layout.beforeFrom.val ++ '"' :: ("from" ++ '"' :: ':' ::
        (layout.beforePattern.val ++ '"' :: (fields.pattern ++ '"' :: ',' ::
          (layout.beforeTo.val ++ '"' :: ("to" ++ '"' :: ':' ::
            (layout.beforeReplacement.val ++ '"' :: (fields.replacement ++ '"' :: ',' ::
              (layout.ending.beforeMultiple.val ++ '"' :: ("multiple" ++ '"' :: ':' ::
                layout.ending.behindKey fields.multiple)))))))))) := by
  simp only [Layout.text, Layout.bare, front, Layout.values, separator, gap, Ending.text,
    optional_false, Ending.behindKey, List.flatten_cons, List.flatten_nil, List.append_nil,
    List.nil_append, List.append_assoc]
  rfl

theorem Layout.text_eq_bare (layout : Layout) (fields : Fields) :
    layout.text fields = layout.outer.val ++ (layout.bare.text fields ++
      (optional layout.ending.comma "," ++ layout.ending.after.val)) := by
  simp only [Layout.text, Layout.bare, front, Layout.values, Ending.text, optional_false,
    List.flatten_cons, List.flatten_nil, List.append_nil, List.nil_append, List.append_assoc]

theorem Layout.text_bare_ends (layout : Layout) (fields : Fields) :
    ∃ t, layout.bare.text fields = t ++ ['\x7d'] := by
  rw [layout.text_bare, Ending.behindKey]
  simp only [← List.cons_append, ← List.append_assoc]
  exact ⟨_, rfl⟩

theorem trimEnd_append (t : Text) (blanks : Blanks) :
    Text.trimEnd (t ++ blanks.val) = Text.trimEnd t := by
  rw [Text.trimEnd, List.reverse_append, List.dropWhile_append_of_pos]
  · rfl
  · intro c member
    exact blanks.property c (List.mem_reverse.mp member)

theorem trimEnd_concat (t : Text) {c : Char} (sharp : Text.isBlank c = false) :
    Text.trimEnd (t ++ [c]) = t ++ [c] := by
  simp [Text.trimEnd, sharp]

theorem head?_append_of_brace {object t : Text} (begins : object = '\x7b' :: t) (rest : Text) :
    (object ++ rest).head?.any Text.isBlank = false := by
  rw [begins]
  rfl

/-- An object with blanks around it is read as JSON without them. -/
theorem jsonPart_of_brace {object t u : Text} (outer after : Blanks) (begins : object = '\x7b' :: t)
    (ends : object = u ++ ['\x7d']) :
    Rejection.jsonPart (outer.val ++ (object ++ after.val)) = object := by
  have uncommaed : ([','] : Text).isSuffixOf? (u ++ ['\x7d']) = none := by
    rw [Option.eq_none_iff_forall_ne_some]
    intro front found
    have same := List.isSuffixOf?_eq_some_iff_append_eq.mp found
    exact absurd (List.append_inj_right' same rfl) (by decide)
  rw [Rejection.jsonPart, Text.trim, trimStart_append _ (head?_append_of_brace begins _),
    trimEnd_append, ends, trimEnd_concat _ (by decide), uncommaed]
  rfl

/-- With a comma behind it, an object is read as JSON with all that stands before the comma. -/
theorem jsonPart_of_comma {object t : Text} (outer after : Blanks) (begins : object = '\x7b' :: t)
    (between : Text) :
    Rejection.jsonPart (outer.val ++ (object ++ (between ++ [','] ++ after.val))) =
      object ++ between := by
  rw [Rejection.jsonPart, Text.trim, trimStart_append _ (head?_append_of_brace begins _),
    ← List.append_assoc, trimEnd_append, ← List.append_assoc, trimEnd_concat _ (by decide),
    List.isSuffixOf?_eq_some_iff_append_eq.mpr rfl]
  rfl

/-- Of a line of the form of a rule, the object is read as JSON. -/
theorem jsonPart_text (layout : Layout) (fields : Fields) :
    Rejection.jsonPart (layout.text fields) = layout.bare.text fields := by
  obtain ⟨t, ends⟩ := layout.text_bare_ends fields
  rw [layout.text_eq_bare]
  cases layout.ending.comma with
  | true =>
    have read := jsonPart_of_comma layout.outer layout.ending.after (layout.text_bare fields) []
    rw [List.append_nil] at read
    exact read
  | false =>
    rw [optional_false, List.nil_append]
    exact jsonPart_of_brace layout.outer layout.ending.after (layout.text_bare fields) ends

/-! ## The strings of the object -/

theorem quote_not_mem_gap (blanks : Blanks) : '"' ∉ ',' :: blanks.val := by
  rw [List.mem_cons, not_or]
  exact ⟨by decide, quote_not_mem_blanks blanks⟩

theorem getLast?_gap_ne (blanks : Blanks) : (',' :: blanks.val).getLast? ≠ some '\\' := by
  intro last
  rcases List.mem_cons.mp (List.mem_of_getLast? last) with comma | member
  · exact absurd comma (by decide)
  · exact absurd (blanks.property _ member) (by decide)

/-- The names of a rule object are found among its strings in any case. More strings than its
values are found where a value is not one literal. -/
theorem strings_of_passes {layout : Layout} {fields : Fields} {strings : List Text}
    (passed : Passes (layout.bare.text fields) strings []) :
    ∃ pattern between replacement behind last,
      strings = ("from" : Text) :: pattern :: (between ++ ("to" : Text) :: replacement :: behind) ++
        ("multiple" : Text) :: last ∧
      (between = [] → Enclosed fields.pattern) ∧ (behind = [] → Enclosed fields.replacement) := by
  have innerTo : ∀ t strings, ¬ Passes ("to" ++ '"' :: t) strings [] :=
    fun t strings => Passes.not_of_inner (by decide) ⟨'o', by decide, by decide⟩
  have innerMultiple : ∀ t strings, ¬ Passes ("multiple" ++ '"' :: t) strings [] :=
    fun t strings => Passes.not_of_inner (by decide) ⟨'m', by decide, by decide⟩
  rw [layout.text_bare] at passed
  cases passed with
  | mark _ atFrom =>
    obtain ⟨_, rfl, atPattern⟩ :=
      (atFrom.of_plain (quote_not_mem_blanks _)).of_name (by simp [IsPlain])
    obtain ⟨pattern, between, _, rfl, atTo, one⟩ :=
      (atPattern.of_plain (quote_not_mem_blanks _)).of_contents
        (quote_not_mem_gap layout.beforeTo) (getLast?_gap_ne _) (List.cons_ne_nil _ _) (innerTo _)
    obtain ⟨_, rfl, atReplacement⟩ := atTo.of_name (by simp [IsPlain])
    obtain ⟨replacement, behind, _, rfl, atMultiple, oneToo⟩ :=
      (atReplacement.of_plain (quote_not_mem_blanks _)).of_contents
        (quote_not_mem_gap layout.ending.beforeMultiple) (getLast?_gap_ne _)
        (List.cons_ne_nil _ _) (innerMultiple _)
    obtain ⟨last, rfl, -⟩ := atMultiple.of_name (by simp [IsPlain])
    refine ⟨pattern, between, replacement, behind, last, ?_, one, oneToo⟩
    simp only [List.append_assoc, List.cons_append]

/-- The strings of a value that says how often a rule applies: none, or one that is no name. -/
theorem strings_of_isMultiple {multiple : Value} (right : Rejection.isMultiple multiple = true) :
    multiple.strings = [] ∨ ∃ t, multiple.strings = [t] ∧ t ≠ "multiple" := by
  cases multiple with
  | boolean truth => exact .inl (by rw [Value.strings])
  | string t =>
    refine .inr ⟨t, by rw [Value.strings], ?_⟩
    rintro rfl
    exact absurd right (by decide)
  | null => cases right
  | number _ => cases right
  | array _ => cases right
  | object _ => cases right

theorem enclosed_of_ruleMembers {layout : Layout} {fields : Fields} {members : Members}
    (read : document (layout.bare.text fields) = .ok (.object members))
    (right : RuleMembers members) : Enclosed fields.pattern ∧ Enclosed fields.replacement := by
  obtain ⟨_, _, multiple, rfl, truth⟩ := right
  obtain ⟨pattern, between, replacement, behind, last, same, one, oneToo⟩ :=
    strings_of_passes (passes_document read)
  simp only [Value.strings, stringsOfMembers] at same
  have lengths := congrArg List.length same
  have ends := congrArg List.getLast? same
  simp only [List.length_append, List.length_cons, List.length_nil] at lengths
  have none : between.length = 0 ∧ behind.length = 0 := by
    rcases strings_of_isMultiple truth with empty | ⟨t, single, other⟩
    · rw [empty, List.length_nil] at lengths
      omega
    · rw [single, List.length_singleton] at lengths
      cases last with
      | nil =>
        rw [single, List.getLast?_concat] at ends
        exact absurd (by simpa using ends) other
      | cons s last =>
        rw [List.length_cons] at lengths
        omega
  exact ⟨one (List.length_eq_zero_iff.mp none.1), oneToo (List.length_eq_zero_iff.mp none.2)⟩

/-! ## The members of the object -/

theorem gives_truthText {allowance : Nat} {blanks : Blanks} {truth : Bool} {t rest : Text}
    {contents : Value}
    (found : Gives (value allowance) (skipSpace (blanks.val ++ (truthText truth ++ t))) contents
      rest) :
    contents = .boolean truth ∧ rest = t := by
  obtain ⟨c, behind, shape, sharp⟩ := (gives_value found).sharp
  have reached := skipSpace_append blanks.property sharp shape
  cases truth with
  | true =>
    rw [truthText, if_pos rfl, show skipSpace ("true" ++ t) = "true" ++ t from rfl] at reached
    rw [shape, ← reached] at found
    cases gives_value found with
    | truth => exact ⟨rfl, rfl⟩
    | number _ first => exact absurd first (by decide)
  | false =>
    rw [truthText, if_neg Bool.false_ne_true, show skipSpace ("false" ++ t) = "false" ++ t from rfl]
      at reached
    rw [shape, ← reached] at found
    cases gives_value found with
    | falsehood => exact ⟨rfl, rfl⟩
    | number _ first => exact absurd first (by decide)

theorem isPlain_of_mem_truthText (truth : Bool) : ∀ c ∈ truthText truth, IsPlain c := by
  cases truth <;> simp [truthText, IsPlain]

/-- Nothing but the brace follows the last value. -/
theorem no_later_members {read : Reader Value} {blanks : Blanks} {later : Members} {rest : Text}
    (ends : Gives (laterItems (member read) '\x7d' .endInObject .expectedObjectEnd)
      (blanks.val ++ ['\x7d']) later rest) : later = [] := by
  rcases gives_laterItems ends with ⟨-, none⟩ | ⟨_, _, _, _, comma, -⟩
  · exact none
  · have reached := skipSpace_append blanks.property (by decide) comma
    exact absurd (List.cons.inj reached).1 (by decide)

/-- The end of the object is the value of `multiple` alone. -/
theorem gives_behindKey {ending : Ending} {truth : Bool} {allowance : Nat} {contents : Value}
    {behind rest : Text} {later : Members}
    (found : Gives (value allowance) (skipSpace (ending.behindKey truth)) contents behind)
    (ends : Gives (laterItems (member (value allowance)) '\x7d' .endInObject .expectedObjectEnd)
      behind later rest) :
    Rejection.isMultiple contents = true ∧ later = [] := by
  obtain ⟨_, beforeValue, opened, closed, beforeBrace, _, _⟩ := ending
  simp only [Ending.behindKey] at found
  cases opened with
  | true =>
    obtain ⟨s, rfl, r, read, rfl, rfl⟩ := gives_quoted beforeValue.property found
    cases closed with
    | true =>
      have plain := isPlain_of_mem_truthText truth
      rw [StringLiteral.rest_of_enclosed (.of_plain plain) rfl read] at ends
      rw [StringLiteral.value_of_plain plain rfl read]
      exact ⟨by cases truth <;> decide, no_later_members ends⟩
    | false =>
      obtain ⟨raw, same, -⟩ := StringLiteral.body_spec read
      have quote : '"' ∈ raw ++ '"' :: r.rest := List.mem_append_right raw List.mem_cons_self
      have plain : '"' ∉ truthText truth :=
        fun member => (isPlain_of_mem_truthText truth _ member).1 rfl
      rw [← same] at quote
      change '"' ∈ truthText truth ++ (beforeBrace.val ++ ['\x7d']) at quote
      simp [plain, quote_not_mem_blanks] at quote
  | false =>
    obtain ⟨rfl, rfl⟩ := gives_truthText found
    cases closed with
    | true =>
      have quote : ∀ t, skipSpace ('"' :: t) = '"' :: t := fun t => skipSpace_cons t (by decide)
      rcases gives_laterItems ends with ⟨brace, -⟩ | ⟨_, _, _, _, comma, -⟩
      · exact absurd (List.cons.inj ((quote _).symm.trans brace)).1 (by decide)
      · exact absurd (List.cons.inj ((quote _).symm.trans comma)).1 (by decide)
    | false => exact ⟨rfl, no_later_members ends⟩

theorem ruleMembers_of_enclosed {layout : Layout} {fields : Fields} {members : Members}
    (read : document (layout.bare.text fields) = .ok (.object members))
    (one : Enclosed fields.pattern) (oneToo : Enclosed fields.replacement) :
    RuleMembers members := by
  obtain ⟨rest, whole, -⟩ := document_eq_ok read
  rw [layout.text_bare, skipSpace_cons _ (by decide)] at whole
  obtain ⟨allowance, behind, text, object⟩ := gives_object whole
  obtain ⟨-, rfl⟩ := List.cons.inj text
  rcases gives_items object with ⟨closed, -⟩ | ⟨first, _, _, firstRead, afterFirst, rfl⟩
  · have reached := skipSpace_append layout.beforeFrom.property (by decide) closed
    rw [skipSpace_cons _ (by decide)] at reached
    exact absurd (List.cons.inj reached).1 (by decide)
  · obtain ⟨firstName, firstContents⟩ :=
      gives_member_named layout.beforeFrom.property (by simp [IsPlain]) firstRead
    obtain ⟨⟨pattern, isString⟩, rfl⟩ :=
      gives_enclosed layout.beforePattern.property one firstContents
    obtain ⟨second, _, _, secondRead, afterSecond, rfl⟩ := gives_afterComma (by decide) afterFirst
    obtain ⟨secondName, secondContents⟩ :=
      gives_member_named layout.beforeTo.property (by simp [IsPlain]) secondRead
    obtain ⟨⟨replacement, isStringToo⟩, rfl⟩ :=
      gives_enclosed layout.beforeReplacement.property oneToo secondContents
    obtain ⟨third, _, _, thirdRead, afterThird, rfl⟩ := gives_afterComma (by decide) afterSecond
    obtain ⟨thirdName, thirdContents⟩ :=
      gives_member_named layout.ending.beforeMultiple.property (by simp [IsPlain]) thirdRead
    obtain ⟨truth, rfl⟩ := gives_behindKey thirdContents afterThird
    refine ⟨pattern, replacement, third.2, ?_, truth⟩
    rw [← isString, ← isStringToo, ← firstName, ← secondName, ← thirdName]

/-- A line that carries a rule and whose text is a JSON object has just the members of a rule
exactly if each of the two values read from it is one string literal: no quote within it ends it
early and no escape is left open before the quote that closes it. -/
theorem ruleMembers_iff {line : Text} {rule : Rule} {members : Members}
    (accepted : Rule.ofLine line = .ok (some rule))
    (object : Value.ofText (Rejection.jsonPart line) = .ok (.object members)) :
    ∃ fields, fields? line = some fields ∧ fields.rule = rule ∧
      (RuleMembers members ↔ Enclosed fields.pattern ∧ Enclosed fields.replacement) := by
  obtain ⟨-, fields, found, same⟩ := ofLine_eq_ok_some_iff.mp accepted
  obtain ⟨⟨-, layout, rfl⟩, -⟩ := fields?_eq_some_iff.mp found
  rw [jsonPart_text] at object
  have read := document_of_ofText object
  refine ⟨fields, found, same, ?_⟩
  constructor
  · exact enclosed_of_ruleMembers read
  · rintro ⟨one, oneToo⟩
    exact ruleMembers_of_enclosed read one oneToo

/-- A line whose values hold an escaped quote and an escaped backslash. -/
def escapingLine : Text :=
  " \x7b \"from\": \"a\\\"\", \"to\": \"b\\\\\", \"multiple\": \"true\" \x7d,"

theorem ruleMembers_iff_escaping :
    Rule.ofLine escapingLine = .ok (some ⟨"a\"", "b\\", .all⟩) ∧
    Value.ofText (Rejection.jsonPart escapingLine) =
      .ok (.object [(("from" : Text), .string "a\""), (("to" : Text), .string "b\\"),
        (("multiple" : Text), .string "true")]) ∧
    ∃ fields, fields? escapingLine = some fields ∧ Enclosed fields.pattern ∧
      Enclosed fields.replacement := by
  have accepted : Rule.ofLine escapingLine = .ok (some ⟨"a\"", "b\\", .all⟩) := by rfl
  have object : Value.ofText (Rejection.jsonPart escapingLine) =
      .ok (.object [(("from" : Text), .string "a\""), (("to" : Text), .string "b\\"),
        (("multiple" : Text), .string "true")]) := by cbv
  obtain ⟨fields, found, -, equivalent⟩ := ruleMembers_iff accepted object
  exact ⟨accepted, object, fields, found, equivalent.mp ⟨_, _, _, rfl, rfl⟩⟩

/-- A line on which a further member stands between `from` and `to`. -/
def furtherLine : Text :=
  "\x7b\"from\":\"a\",\"x\":\"b\",\"to\":\"c\",\"multiple\":true\x7d"

theorem further_member_accepted :
    Rule.ofLine furtherLine = .ok (some ⟨"a\",\"x\":\"b", "c", .all⟩) ∧
    ∃ members, Value.ofText (Rejection.jsonPart furtherLine) = .ok (.object members) ∧
      ¬ RuleMembers members := by
  refine ⟨by rfl, [(("from" : Text), .string "a"), (("x" : Text), .string "b"),
    (("to" : Text), .string "c"), (("multiple" : Text), .boolean true)], by cbv, ?_⟩
  rintro ⟨_, _, _, same, -⟩
  have lengths : 4 = 3 := congrArg List.length same
  exact absurd lengths (by decide)

end TreeMigration.RuleLine
