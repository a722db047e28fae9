import TreeMigration.Proofs.Rule.Spelling

/-!
When a refused line is told that its keys are out of order. That reason is what is left when the
members are those of a rule and the line still has not the form of one. The members are out of order
then, or the line only spells them less strictly than the form asks.

The questions asked of the members are taken in their order: with the right names in the right order
only the values are left to ask after, and with the right values nothing is
(`ofMembers_eq_keysOutOfOrder_iff`). A line told so is therefore an object with the members of a
rule, in order or not. If they are in order, the line has not the form because of its spelling, and
`LooselySpelled` says in which places: a blank before a colon or a comma, or an escape where the
form has none.
-/
namespace TreeMigration.RuleLine

open Json

/-- Of members with the right names in the right order, only the values are asked after. -/
theorem ofMembers_of_ruleKeys (pattern replacement multiple : Value) :
    Rejection.ofMembers [(("from" : Text), pattern), (("to" : Text), replacement),
        (("multiple" : Text), multiple)] =
      if !(pattern.isString && replacement.isString) then .valuesNotStrings
      else if !Rejection.isMultiple multiple then .multipleNotBoolean
      else .keysOutOfOrder := by
  rw [← Bool.and_true replacement.isString]
  rfl

theorem ruleKeys_of_ruleMembers {members : Members} (right : RuleMembers members) :
    members.map Prod.fst = Rejection.ruleKeys := by
  obtain ⟨_, _, _, rfl, -⟩ := right
  rfl

theorem exists_of_isString {contents : Value} (string : contents.isString = true) :
    ∃ s, contents = .string s := by
  cases contents with
  | string s => exact ⟨s, rfl⟩
  | null => cases string
  | boolean => cases string
  | number => cases string
  | array => cases string
  | object => cases string

/-- Members in order are told to be out of order exactly if they are those of a rule. -/
theorem ofMembers_eq_keysOutOfOrder_iff {members : Members}
    (inOrder : members.map Prod.fst = Rejection.ruleKeys) :
    Rejection.ofMembers members = .keysOutOfOrder ↔ RuleMembers members := by
  obtain ⟨⟨_, pattern⟩, ⟨_, replacement⟩, ⟨_, multiple⟩, rfl⟩ :=
    List.length_eq_three.mp (show members.length = 3 by rw [← List.length_map, inOrder]; rfl)
  simp only [List.map_cons, List.map_nil, Rejection.ruleKeys, List.cons.injEq, and_true] at inOrder
  obtain ⟨rfl, rfl, rfl⟩ := inOrder
  rw [ofMembers_of_ruleKeys]
  constructor
  · intro told
    split at told
    · cases told
    · rename_i strings
      split at told
      · cases told
      · rename_i truth
        simp only [Bool.not_eq_true', Bool.not_eq_false, Bool.and_eq_true] at strings truth
        obtain ⟨s, rfl⟩ := exists_of_isString strings.1
        obtain ⟨t, rfl⟩ := exists_of_isString strings.2
        exact ⟨s, t, multiple, rfl, truth⟩
  · rintro ⟨_, _, _, same, truth⟩
    simp only [List.cons.injEq, Prod.mk.injEq, true_and, and_true] at same
    obtain ⟨rfl, rfl, rfl⟩ := same
    rw [truth]
    rfl

/-- A refused line of which the reason is the order of its keys is a JSON object. -/
theorem exists_members_of_told {line : Text} (told : Rejection.ofLine line = .keysOutOfOrder) :
    ∃ members, Value.ofText (Rejection.jsonPart line) = .ok (.object members) ∧
      Rejection.ofMembers members = .keysOutOfOrder := by
  unfold Rejection.ofLine at told
  split at told
  · cases told
  · rename_i members read
    exact ⟨members, read, told⟩
  · cases told

theorem ofLine_eq_keysOutOfOrder_iff {line : Text} :
    Rule.ofLine line = .error .keysOutOfOrder ↔
      Rule.ofLine line = .error (.ofLine line) ∧ Rejection.ofLine line = .keysOutOfOrder := by
  constructor
  · intro told
    rcases ofLine_kind line with ⟨-, read⟩ | ⟨fields, -, read⟩ | ⟨-, -, read⟩
    · cases told.symm.trans read
    · rw [told] at read
      split at read
      · cases read
      · cases read
    · rw [told] at read
      exact ⟨read ▸ told, (Except.error.inj read).symm⟩
  · rintro ⟨read, told⟩
    rw [read, told]

theorem looselySpelled_of_ruleMembers {line : Text} {members : Members}
    (refused : Rule.ofLine line = .error (.ofLine line))
    (read : Value.ofText (Rejection.jsonPart line) = .ok (.object members))
    (right : RuleMembers members) : LooselySpelled line := by
  obtain ⟨s, rfl, stands⟩ := ofText_jsonPart_iff.mp ⟨read, right⟩
  refine ⟨s, rfl, ⟨members, stands⟩, (fields?_text_eq_none_iff stands).mp ?_⟩
  rw [Fields.fields?_eq_none_iff]
  exact (ofLine_eq_error_ofLine_iff.mp refused).2

theorem Spelling.not_structural (s : Spelling) : Text.trim s.text ∉ structuralTexts := by
  intro structural
  have json := s.jsonPart_text
  unfold Rejection.jsonPart at json
  simp only [structuralTexts, List.mem_cons, List.not_mem_nil, or_false] at structural
  rcases structural with same | same | same | same
  all_goals
    rw [same] at json
    cases json

/-- A rule spelled less strictly than the form asks is told that its keys are out of order. -/
theorem LooselySpelled.told {line : Text} (loose : LooselySpelled line) :
    Rule.ofLine line = .error .keysOutOfOrder ∧
      ∃ members, Value.ofText (Rejection.jsonPart line) = .ok (.object members) ∧
        RuleMembers members := by
  obtain ⟨s, rfl, ⟨members, stands⟩, loose⟩ := loose
  obtain ⟨read, right⟩ := ofText_jsonPart_iff.mpr ⟨s, rfl, stands⟩
  refine ⟨ofLine_eq_keysOutOfOrder_iff.mpr ⟨?_, ?_⟩, members, read, right⟩
  · exact ofLine_eq_error_ofLine_iff.mpr ⟨s.not_structural,
      Fields.fields?_eq_none_iff.mp ((fields?_text_eq_none_iff stands).mpr loose)⟩
  · rw [Rejection.ofLine, read]
    exact (ofMembers_eq_keysOutOfOrder_iff (ruleKeys_of_ruleMembers right)).mpr right

/-- A line refused for the order of its keys is a JSON object, and its names are out of order exactly
if the line is no rule spelled less strictly than the form asks; every line spelled so is refused for
that reason. -/
theorem told_order_iff (line : Text) :
    (Rule.ofLine line = .error .keysOutOfOrder →
      ∃ members, Value.ofText (Rejection.jsonPart line) = .ok (.object members) ∧
        (members.map Prod.fst ≠ Rejection.ruleKeys ↔ ¬ LooselySpelled line)) ∧
    (LooselySpelled line → Rule.ofLine line = .error .keysOutOfOrder) := by
  refine ⟨?_, fun loose => loose.told.1⟩
  intro refused
  obtain ⟨asRefused, told⟩ := ofLine_eq_keysOutOfOrder_iff.mp refused
  obtain ⟨members, read, reason⟩ := exists_members_of_told told
  refine ⟨members, read, not_congr ⟨?_, ?_⟩⟩
  · intro inOrder
    have right := (ofMembers_eq_keysOutOfOrder_iff inOrder).mp reason
    exact looselySpelled_of_ruleMembers asRefused read right
  · intro loose
    obtain ⟨-, found, readToo, right⟩ := loose.told
    have same := Except.ok.inj (read.symm.trans readToo)
    rw [Value.object.inj same]
    exact ruleKeys_of_ruleMembers right

def looseLine : Text := "\x7b\"from\":\"a\",\"to\":\"b\",\"multiple\":true\x7d ,"

theorem told_order_of_loose_line :
    Rule.ofLine looseLine = .error .keysOutOfOrder ∧
    ∃ members, Value.ofText (Rejection.jsonPart looseLine) = .ok (.object members) ∧
      members.map Prod.fst = Rejection.ruleKeys := by
  have read : Value.ofText (Rejection.jsonPart looseLine) =
      .ok (.object [(("from" : Text), .string "a"), (("to" : Text), .string "b"),
        (("multiple" : Text), .boolean true)]) := by cbv
  have unstructured : isStructural looseLine = false := by rfl
  have formless : fields? looseLine = none := by rfl
  have told : Rejection.ofLine looseLine = .keysOutOfOrder := by
    rw [Rejection.ofLine, read]
    rfl
  refine ⟨?_, _, read, rfl⟩
  rw [Rule.ofLine, unstructured, formless, ← told]
  rfl

end TreeMigration.RuleLine
