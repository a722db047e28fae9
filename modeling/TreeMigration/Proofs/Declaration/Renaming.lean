import TreeMigration.Proofs.Declaration.Corpus
import TreeMigration.Proofs.Declaration.Grammar
import TreeMigration.Proofs.Editing.Tallies
import TreeMigration.Proofs.Substitution.Occurrence

/-!
The header reader and the matcher of whole identifiers agree. A name that the reader finds on a line
is replaced on that line by every rule for it, so a rule planned to rename a declaration is never
reported as unused once the files that declare the name have been edited.

On one line this is the meeting of two facts: the name of a header stands in the line as a whole,
and a pattern that stands in a line as a whole is replaced there
(`Rule.count_apply_pos_of_standsIn`). The reader and the matcher share the definition of an
identifier character, on which both rest.

Over a run, `Editor.renaming_counted` follows the tally of the rule through all lines edited, in any
order and among others. Only a leading rule is meant: an earlier rule may take the name away before
a later one sees the line.
-/
namespace TreeMigration

theorem Text.ne_nil_of_isIdentifier {t : Text} (bare : t.isIdentifier = true) : t ≠ [] := by
  rintro rfl
  cases bare

/-- On a line in which its pattern stands as a whole, a rule replaces something. -/
theorem Rule.count_apply_pos_of_standsIn {rule : Rule} {line : Text}
    (bare : rule.pattern.isIdentifier = true) (stands : rule.pattern.StandsIn line) :
    0 < (rule.apply .wholeIdentifier line).count := by
  obtain ⟨before, after, found, outside, stop⟩ := stands
  have admitted : Matching.wholeIdentifier.admits before.getLast? after.head? = true := by
    simp [Matching.admits, outside, stop]
  exact rule.count_apply_pos (Text.ne_nil_of_isIdentifier bare) found admitted

/-- Every name of an index was read from a line of the corpus, so it is a bare identifier. -/
theorem Indexing.isIdentifier_of_mem {corpus : List SourceText} {declaration : Declaration}
    (member : declaration ∈ (ofFiles corpus).index.declarations) :
    declaration.name.isIdentifier = true := by
  have known : (ofFiles corpus).index.contains declaration.name = true :=
    Index.contains_iff.mpr ⟨declaration, member, rfl⟩
  obtain ⟨file, -, line, -, header, read, same⟩ := contains_ofFiles_iff.mp known
  rw [← same]
  exact (Header.name_spec read).1

/-- A rule is planned to match whole identifiers exactly if it was asked to look at declarations,
its pattern is a bare identifier and the index knows it. -/
theorem PlannedRule.matching_ofRule_iff {index : Index} {aware : Bool} {rule : Rule} :
    (ofRule index aware rule).matching = .wholeIdentifier ↔
      aware = true ∧ rule.pattern.isIdentifier = true ∧ index.contains rule.pattern = true := by
  unfold matching ofRule Index.contains
  cases aware <;> cases rule.pattern.isIdentifier <;> simp [Option.isSome_iff_ne_none]

theorem PlannedRule.declared_ofRule {index : Index} {aware : Bool} {rule : Rule}
    (whole : (ofRule index aware rule).matching = .wholeIdentifier) :
    (ofRule index aware rule).declared = index.find? rule.pattern := by
  obtain ⟨asked, bare, -⟩ := matching_ofRule_iff.mp whole
  simp [ofRule, asked, bare]

/-- A first rule that is planned to match whole identifiers has replaced something once the files of
the corpus have been edited, in any order and among any others. -/
theorem Editor.renaming_counted {corpus : List SourceText} {texts : List (List Text)}
    (covered : ∀ file ∈ corpus, file.2 ∈ texts) {aware : Bool} {rule : Rule} (later : List Rule)
    (whole : (PlannedRule.ofRule (Indexing.ofFiles corpus).index aware rule).matching =
      .wholeIdentifier) :
    ∃ tally, ((ofRules (Indexing.ofFiles corpus).index (rule :: later) aware).afterFiles
        texts).tallies.head? = some tally ∧ 0 < tally.replacements ∧ 0 < tally.applications := by
  obtain ⟨-, bare, known⟩ := PlannedRule.matching_ofRule_iff.mp whole
  obtain ⟨file, inCorpus, line, listed, header, read, same⟩ :=
    Indexing.contains_ofFiles_iff.mp known
  have member : line ∈ texts.flatten := List.mem_flatten.mpr ⟨file.2, covered file inCorpus, listed⟩
  have changed : 0 < (PlannedRule.apply
      (PlannedRule.ofRule (Indexing.ofFiles corpus).index aware rule) line).count := by
    rw [PlannedRule.apply, whole]
    apply Rule.count_apply_pos_of_standsIn bare
    exact same ▸ (Header.name_spec read).2
  obtain ⟨-, -, tallies⟩ := (ofRules (Indexing.ofFiles corpus).index (rule :: later)
    aware).afterFiles_spec texts
  rw [tallies]
  exact ⟨_, Tally.head_addLines _ _ _ _ _, Tally.foldl_add_pos member changed .zero⟩

/-- The reader of headers and the matcher of whole identifiers agree on every line, and therefore a
leading rule that renames a declaration of the corpus is counted as used and tells the kind of that
declaration. -/
theorem declared_names_are_renamed :
    (∀ line header, Header.ofLine? line = some header →
      header.name.isIdentifier = true ∧ header.name.StandsIn line ∧
        ∀ replacement mode,
          0 < (Rule.apply ⟨header.name, replacement, mode⟩ .wholeIdentifier line).count) ∧
    ∀ corpus : List SourceText,
      (∀ declaration ∈ (Indexing.ofFiles corpus).index.declarations,
        declaration.name.isIdentifier = true) ∧
      ∀ (rule : Rule) (later : List Rule) (texts : List (List Text)),
        (∀ file ∈ corpus, file.2 ∈ texts) →
        let editor := Editor.ofRules (Indexing.ofFiles corpus).index (rule :: later) true
        editor.plan.head?.map PlannedRule.matching = some .wholeIdentifier →
        ∃ statistics declaration,
          (editor.afterFiles texts).statistics.head? = some statistics ∧
          0 < statistics.tally.replacements ∧ statistics.isUnused = false ∧
          (Indexing.ofFiles corpus).index.find? rule.pattern = some declaration ∧
          statistics.declaration = some declaration.kind := by
  refine ⟨?_, ?_⟩
  · intro line header read
    obtain ⟨bare, stands⟩ := Header.name_spec read
    refine ⟨bare, stands, ?_⟩
    intro replacement mode
    let rule : Rule := ⟨header.name, replacement, mode⟩
    have named : rule.pattern = header.name := rfl
    exact Rule.count_apply_pos_of_standsIn (named ▸ bare) (named ▸ stands)
  · intro corpus
    refine ⟨fun declaration => Indexing.isIdentifier_of_mem, ?_⟩
    intro rule later texts covered editor planned
    have whole : (PlannedRule.ofRule (Indexing.ofFiles corpus).index true rule).matching =
        .wholeIdentifier := by simpa [editor, Editor.ofRules] using planned
    obtain ⟨tally, first, replaced, applied⟩ := Editor.renaming_counted covered later whole
    obtain ⟨-, plan, -⟩ := editor.afterFiles_spec texts
    obtain ⟨-, -, known⟩ := PlannedRule.matching_ofRule_iff.mp whole
    obtain ⟨declaration, found⟩ := Option.isSome_iff_exists.mp known
    have declared := (PlannedRule.declared_ofRule whole).trans found
    have used : tally.applications ≠ 0 := by omega
    refine ⟨⟨rule.pattern, .wholeIdentifier, tally, some declaration.kind⟩, declaration, ?_,
      replaced, ?_, found, rfl⟩
    · obtain ⟨others, shape⟩ := List.head?_eq_some_iff.mp first
      change (editor.afterFiles texts).tallies = tally :: others at shape
      have head : editor.plan = PlannedRule.ofRule (Indexing.ofFiles corpus).index true rule ::
          later.map (PlannedRule.ofRule (Indexing.ofFiles corpus).index true) := rfl
      rw [Editor.statistics, plan, shape, head]
      simp only [List.zipWith_cons_cons, List.head?_cons, whole, declared, if_neg used]
      rfl
    · simpa [RuleStatistics.isUnused] using used

/-- A declared function, and a rule that renames it wherever it is called. -/
theorem declared_names_are_renamed_sample :
    (Header.ofLine? "fun old() = 1" = some ⟨"old", .function⟩ ∧
      0 < (Rule.apply ⟨"old", "new", .first⟩ .wholeIdentifier "fun old() = 1").count) ∧
    ∃ statistics,
      ((Editor.ofRules (Indexing.ofFiles [(⟨"x.kt"⟩, ["fun old() = 1"])]).index
        [⟨"old", "new", .all⟩] true).afterFiles [["old()"], ["fun old() = 1"]]).statistics.head? =
          some statistics ∧
      0 < statistics.tally.replacements ∧ statistics.isUnused = false ∧
      statistics.declaration = some .function := by
  have read : Header.ofLine? "fun old() = 1" = some ⟨"old", .function⟩ := by decide +kernel
  refine ⟨⟨read, (declared_names_are_renamed.1 _ _ read).2.2 "new" .first⟩, ?_⟩
  obtain ⟨statistics, declaration, first, replaced, used, found, carried⟩ :=
    (declared_names_are_renamed.2 [(⟨"x.kt"⟩, ["fun old() = 1"])]).2 ⟨"old", "new", .all⟩ []
      [["old()"], ["fun old() = 1"]] (by decide +kernel) (by decide +kernel)
  have known : ((Indexing.ofFiles [(⟨"x.kt"⟩, ["fun old() = 1"])]).index.find? "old").map
      Declaration.kind = some .function := by decide +kernel
  refine ⟨statistics, first, replaced, used, ?_⟩
  change (Indexing.ofFiles [(⟨"x.kt"⟩, ["fun old() = 1"])]).index.find? "old" = some declaration
    at found
  rw [found] at known
  exact carried.trans known

end TreeMigration
