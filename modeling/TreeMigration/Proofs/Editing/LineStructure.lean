import TreeMigration.Proofs.Editing.Tallies
import TreeMigration.Proofs.FileSystem.Encoding
import TreeMigration.Proofs.Rule.Escapes
import TreeMigration.Proofs.Rule.Layout
import TreeMigration.Proofs.Substitution.Restoring
import TreeMigration.Proofs.Text.Lines
import TreeMigration.Preparation

/-!
Lines stay lines. The values of a rule line cannot reach over a line break and resolving escapes
makes none, so no rule that was loaded can bring one into a line; what is written for a source is
therefore read back as equally many lines.

The chain of reasons runs through the whole program. A rule is `Clear` if neither of its texts holds
a line break, and every rule collected from lines is (`RuleCollection.clear_of_ofFile`). A
substitution brings in no character but those of its replacement, so a plan of clear rules makes no
line break, in whichever way the rules match (`newline_not_mem_editLine`). Lines read from a file
hold none to begin with.

On disk a carriage return at the end of a line can be lost, because it is taken for a part of the
line end when the file is read again. The number of lines does not change by that.
-/
namespace TreeMigration

/-- Neither text of the rule holds a line break. -/
def Rule.Clear (rule : Rule) : Prop := '\n' ∉ rule.pattern ∧ '\n' ∉ rule.replacement

namespace RuleLine

theorem newline_mem_of_filter_eq {s t : Text}
    (same : s.filter (· ≠ '\\') = t.filter (· ≠ '\\')) (member : '\n' ∈ s) : '\n' ∈ t := by
  have kept : '\n' ∈ s.filter (· ≠ '\\') := List.mem_filter.mpr ⟨member, by decide⟩
  rw [same] at kept
  exact (List.mem_filter.mp kept).1

/-- A line that carries a rule carries one without line breaks, however many the line has itself. -/
theorem clear_of_ofLine {line : Text} {rule : Rule} (read : Rule.ofLine line = .ok (some rule)) :
    rule.Clear := by
  obtain ⟨-, fields, found, rfl⟩ := ofLine_eq_ok_some_iff.mp read
  obtain ⟨⟨⟨clearPattern, clearReplacement⟩, -⟩, -⟩ := fields?_eq_some_iff.mp found
  refine ⟨fun inside => clearPattern ?_, fun inside => clearReplacement ?_⟩
  · exact newline_mem_of_filter_eq (filter_decodePattern _) inside
  · exact newline_mem_of_filter_eq (Text.filter_replaceAll (by simp) _ (by decide) _) inside

end RuleLine

/-- The rules collected from lines are those that single lines carry. -/
theorem RuleCollection.exists_line_of_mem {number : Nat} {lines : List Text} {rule : Rule}
    (member : rule ∈ (ofLinesFrom number lines).rules) :
    ∃ line ∈ lines, Rule.ofLine line = .ok (some rule) := by
  induction lines generalizing number with
  | nil => cases member
  | cons line later ih =>
    have further : rule ∈ (ofLinesFrom (number + 1) later).rules →
        ∃ other ∈ line :: later, Rule.ofLine other = .ok (some rule) := by
      intro inside
      obtain ⟨other, listed, read⟩ := ih inside
      exact ⟨other, List.mem_cons_of_mem _ listed, read⟩
    rw [ofLinesFrom] at member
    split at member
    · exact further member
    · rename_i first read
      rcases List.mem_cons.mp member with rfl | inside
      · exact ⟨line, List.mem_cons_self, read⟩
      · exact further inside
    · exact further member

/-- No rule of a rule file holds a line break. -/
theorem RuleCollection.clear_of_ofFile {files : FileSystem} {path : Path}
    {collection : RuleCollection} (loaded : (ofFile files path).result = .ok collection) :
    ∀ rule ∈ collection.rules, rule.Clear := by
  obtain ⟨lines, -, loaded⟩ := Noted.bind_result_eq_ok.mp loaded
  obtain ⟨⟨⟩, -, loaded⟩ := Noted.bind_result_eq_ok.mp loaded
  cases loaded
  intro rule member
  obtain ⟨line, -, read⟩ := exists_line_of_mem member
  exact RuleLine.clear_of_ofLine read

/-- Rules without line breaks make none, in whichever way each of them matches. -/
theorem newline_not_mem_editLine {plan : List PlannedRule}
    (clear : ∀ planned ∈ plan, planned.rule.Clear) {line : Text} (whole : '\n' ∉ line) :
    '\n' ∉ (editLine plan line).1 := by
  induction plan generalizing line with
  | nil => exact whole
  | cons planned later ih =>
    refine ih (fun other listed => clear other (List.mem_cons_of_mem _ listed)) ?_
    intro inside
    rcases mem_of_mem_substitute inside with before | brought
    · exact whole before
    · exact (clear planned List.mem_cons_self).2 brought

theorem newline_not_mem_editedLines {plan : List PlannedRule}
    (clear : ∀ planned ∈ plan, planned.rule.Clear) {lines : List Text}
    (whole : ∀ line ∈ lines, '\n' ∉ line) : ∀ line ∈ editedLines plan lines, '\n' ∉ line := by
  intro line listed
  obtain ⟨original, member, rfl⟩ := List.mem_map.mp listed
  exact newline_not_mem_editLine clear (whole original member)

namespace FileSystem

/-- The content written for lines is read back as those lines, each without a carriage return at its
end. -/
theorem lines_decode_encode {lines : List Text} (clear : ∀ line ∈ lines, '\n' ∉ line) :
    (decode (encode (Text.ofLines lines))).map Text.lines =
      .ok (lines.map Text.withoutReturn) := by
  rw [decode_eq_ok_iff.mpr rfl, ← Text.lines_ofLines clear]
  rfl

theorem readLines_of_writeLines {before after : FileSystem} {path : Path} {lines : List Text}
    (clear : ∀ line ∈ lines, '\n' ∉ line) (written : before.writeLines path lines = .ok after) :
    after.readLines path = .ok (lines.map Text.withoutReturn) := by
  obtain ⟨location, leads⟩ := (writeLines_spec written).2
  exact readLines_eq_ok_iff.mpr ⟨location, _, leads, lines_decode_encode clear⟩

end FileSystem

/-- A source keeps its line structure on disk: whatever rules were loaded and however each of them
matches, no edited line holds a line break, and what is written for the source is read back as just
as many lines as the source has. -/
theorem edited_lines_on_disk {ruleFiles files : FileSystem} {ruleFile source : Path}
    {collection : RuleCollection} {original : List Text} {editor : Editor}
    (loaded : (RuleCollection.ofFile ruleFiles ruleFile).result = .ok collection)
    (planned : editor.plan.map PlannedRule.rule = collection.rules)
    (read : files.readLines source = .ok original) :
    let edited := (editor.editLines original).2
    (∀ line ∈ edited, '\n' ∉ line) ∧
    (∃ back, (FileSystem.decode (FileSystem.encode (Text.ofLines edited))).map Text.lines =
        .ok back ∧ back.length = original.length) ∧
    ∀ (before after : FileSystem) (destination : Path),
      before.writeLines destination edited = .ok after →
        ∃ back, after.readLines destination = .ok back ∧ back.length = original.length := by
  have clear : ∀ entry ∈ editor.plan, entry.rule.Clear := by
    intro entry member
    refine RuleCollection.clear_of_ofFile loaded entry.rule ?_
    exact planned ▸ List.mem_map_of_mem member
  have whole : ∀ line ∈ original, '\n' ∉ line := by
    obtain ⟨t, -, rfl⟩ := FileSystem.readLines_eq_ok_iff_holdsText.mp read
    exact fun line => Text.not_mem_of_mem_lines
  have made := (editor.editLines_spec original).1
  have unbroken := newline_not_mem_editedLines clear whole
  have counted : ((editedLines editor.plan original).map Text.withoutReturn).length =
      original.length := by simp [editedLines]
  simp only [made]
  refine ⟨unbroken, ⟨_, FileSystem.lines_decode_encode unbroken, counted⟩, ?_⟩
  intro before after destination written
  exact ⟨_, FileSystem.readLines_of_writeLines unbroken written, counted⟩

namespace Returning

/-- A source with an empty line, carriage returns in every place and no end of its last line, and a
rule that puts one more at the end of what it replaces. -/
def files : FileSystem :=
  .ofTree [
    (⟨"rules"⟩, .file (FileSystem.encode "\x7b\"from\":\"b\",\r\"to\":\"c\r\",\"multiple\":true\x7d\r\n")),
    (⟨"x.kt"⟩, .file (FileSystem.encode "b\r\n\n\rb\rb"))]

def collection : RuleCollection := ⟨[⟨"b", "c\r", .all⟩], []⟩

def editor : Editor := .ofRules .empty collection.rules true

end Returning

/-- The carriage returns at the ends are lost, the lines are not. -/
theorem edited_lines_on_disk_returning :
    (RuleCollection.ofFile Returning.files ⟨"rules"⟩).result = .ok Returning.collection ∧
    Returning.files.readLines ⟨"x.kt"⟩ = .ok ["b", "", "\rb\rb"] ∧
    (Returning.editor.editLines ["b", "", "\rb\rb"]).2 =
      (["c\r", "", "\rc\r\rc\r"] : List Text) ∧
    ∃ back, (FileSystem.decode (FileSystem.encode
        (Text.ofLines (Returning.editor.editLines ["b", "", "\rb\rb"]).2))).map Text.lines =
      .ok back ∧ back.length = 3 := by
  have loaded : (RuleCollection.ofFile Returning.files ⟨"rules"⟩).result =
      .ok Returning.collection := by decide +kernel
  have read : Returning.files.readLines ⟨"x.kt"⟩ = .ok ["b", "", "\rb\rb"] := by rfl
  exact ⟨loaded, read, by decide +kernel, (edited_lines_on_disk loaded rfl read).2.1⟩

end TreeMigration
