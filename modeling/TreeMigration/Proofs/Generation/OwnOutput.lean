import TreeMigration.Proofs.Editing.Idle
import TreeMigration.Proofs.Editing.LineStructure
import TreeMigration.Proofs.FileSystem.LineRoundTrip
import TreeMigration.Proofs.Generation.Correctness
import TreeMigration.Proofs.Text.Wear

/-!
Runs over the output of runs. What a run leaves is written lines, and a second run whose rules match
nothing reads and writes them again; so an output stays as it is exactly if none of its lines ends
in a carriage return, which is also when its lines are read back as they were written.

The first run is described by `generateSources_written`: each output holds the edited lines of some
source, whatever outputs and sources share. `Untangled` is the condition under which these are its
own; it lets a source be its own output, since a run may go over a tree in place.

The second run is recognised by what it tells, that all rules are unused, from which its editors
were idle throughout (`idle_of_generateSources`) and every output is its source, read and written
(`generateSources_idle`). `IdleCopy.holdsText_iff` is the question for one file, answered by the
ends of its lines. A carriage return can be there because the rules put one in, or because the
source had one more than belongs to a line end.
-/
namespace TreeMigration

namespace Preparation

open FileSystem

/-- An output with the file of a later source, or of a later output, comes from a source with the
same file as that one. A source may be its own output. -/
def Untangled (files after : FileSystem) (outputs : List (SourceFile × Path)) : Prop :=
  outputs.Pairwise fun first second =>
    after.SameFile first.2 second.1.path ∨ after.SameFile first.2 second.2 →
      files.SameFile first.1.path second.1.path

theorem MadeFrom.clear {files : FileSystem} {settings : Settings} {preparation : Preparation}
    (made : MadeFrom files settings preparation) : ∀ rule ∈ preparation.rules, rule.Clear := by
  obtain ⟨lines, -, rules⟩ := made.rules
  intro rule member
  obtain ⟨line, -, read⟩ := RuleCollection.exists_line_of_mem (rules ▸ member)
  exact RuleLine.clear_of_ofLine read

/-- Whatever outputs and sources share, each output holds edited lines in the end. -/
theorem generateSources_written {preparation : Preparation} {files after : FileSystem}
    {editor edited : Editor} {sources : List SourceFile} {produced : List Path}
    (done : preparation.generateSources files editor sources = (after, .ok (edited, produced))) :
    ∀ destination ∈ produced, ∃ given : List Text, (∀ line ∈ given, '\n' ∉ line) ∧
      after.HoldsText destination (Text.ofLines (editedLines editor.plan given)) := by
  induction sources generalizing files editor produced with
  | nil =>
    cases done
    simp
  | cons source later ih =>
    obtain ⟨original, destination, changed, rest, read, -, delivered, finished, rfl⟩ :=
      generateSources_cons done
    have tail := ih finished
    rw [(editor.editLines_spec original).2.2.1] at tail
    intro output listed
    rcases List.mem_cons.mp listed with rfl | listed
    · have confined := (generateSources_confined finished).2
      rcases confined.holdsText (locate_of_deliver delivered) with kept | ⟨again, isLater, same⟩
      · exact ⟨original, newline_not_mem_of_readLines read, kept⟩
      · obtain ⟨given, clear, holds⟩ := tail again isLater
        exact ⟨given, clear, same.holdsText holds⟩
    · exact tail output listed

/-- Editors that are idle in the end were so at the beginning. -/
theorem idle_of_generateSources {preparation : Preparation} {files after : FileSystem}
    {editor edited : Editor} {sources : List SourceFile} {produced : List Path}
    (done : preparation.generateSources files editor sources = (after, .ok (edited, produced)))
    (idle : edited.Idle) : editor.Idle := by
  induction sources generalizing files editor produced with
  | nil =>
    cases done
    exact idle
  | cons source later ih =>
    obtain ⟨original, destination, changed, rest, -, -, -, finished, rfl⟩ :=
      generateSources_cons done
    exact (ih finished).of_editLines.1

/-- With rules that match nothing every output is its source, read and written one or more times. -/
theorem generateSources_idle {preparation : Preparation} {files after : FileSystem}
    {editor edited : Editor} {sources : List SourceFile} {produced : List Path}
    (done : preparation.generateSources files editor sources = (after, .ok (edited, produced)))
    (idle : edited.Idle) (untangled : Untangled files after (sources.zip produced)) :
    ∀ pair ∈ sources.zip produced, ∀ t, files.HoldsText pair.1.path t →
      ∃ n, after.HoldsText pair.2 (Text.plainEnded^[n + 1] t) := by
  induction sources generalizing files editor produced with
  | nil => simp
  | cons source later ih =>
    obtain ⟨original, destination, changed, rest, read, -, delivered, finished, rfl⟩ :=
      generateSources_cons done
    obtain ⟨counted, confined⟩ := generateSources_confined finished
    have first := deliver_confined delivered
    obtain ⟨alone, untangledLater⟩ := List.pairwise_cons.mp untangled
    have tail := ih finished (untangledLater.imp fun one same => (one same).of_grown first.grown)
    have copied : ∀ t, files.HoldsText source.path t →
        changed.HoldsText destination t.plainEnded := by
      intro t holds
      obtain ⟨t', holds', rfl⟩ := readLines_eq_ok_iff_holdsText.mp read
      obtain rfl := holds.unique holds'
      have left := locate_of_deliver delivered
      rw [(idle_of_generateSources finished idle).of_editLines.2] at left
      rwa [← Text.ofLines_lines]
    -- a later source holds what it held, or what has just been written if it is the same file
    have worn : ∀ pair ∈ later.zip rest, ∀ t, files.HoldsText pair.1.path t →
        ∃ m, changed.HoldsText pair.1.path (Text.plainEnded^[m] t) := by
      intro pair isLater t holds
      rcases first.holdsText holds with kept | ⟨written, isFirst, same⟩
      · exact ⟨0, kept⟩
      · obtain rfl := List.mem_singleton.mp isFirst
        have one := alone pair isLater (.inl (same.of_grown confined.grown))
        exact ⟨1, same.holdsText (copied t (one.symm.holdsText holds))⟩
    have tailHolds : ∀ pair ∈ later.zip rest, ∀ t, files.HoldsText pair.1.path t →
        ∃ n, after.HoldsText pair.2 (Text.plainEnded^[n + 1] t) := by
      intro pair isLater t holds
      obtain ⟨m, holdsLater⟩ := worn pair isLater t holds
      obtain ⟨n, left⟩ := tail pair isLater _ holdsLater
      refine ⟨n + m, ?_⟩
      rwa [← Function.iterate_add_apply, Nat.add_right_comm] at left
    intro pair listed t holds
    rcases List.mem_cons.mp listed with rfl | isLater
    · rcases confined.holdsText (copied t holds) with kept | ⟨again, isLater, same⟩
      · exact ⟨0, kept⟩
      · obtain ⟨other, member⟩ := (exists_mem_zip counted.symm).2 again isLater
        have one := alone _ member (.inr same.symm)
        obtain ⟨n, left⟩ := tailHolds _ member t (one.holdsText holds)
        exact ⟨n, same.holdsText left⟩
    · exact tailHolds pair isLater t holds

/-- What a finished run tells of its rules is what its editor counted. -/
theorem run_statistics {preparation : Preparation} {files after : FileSystem} {summary : Summary}
    (ran : preparation.run files = (after, .ok summary)) :
    ∃ editor edited, preparation.generateSources files editor preparation.sources =
        (after, .ok (edited, summary.produced)) ∧
      summary.statistics = edited.statistics := by
  unfold run at ran
  split at ran
  · cases ran
  · obtain ⟨edited, generated, told, -⟩ := generate_eq_ok ran
    exact ⟨_, edited, generated, told⟩

/-- A run in which no rule matches anything has the file of a path among its sources and makes a
copy of it. -/
def IdleCopy (files after : FileSystem) (path copy : Path) : Prop :=
  ∃ (again : Preparation) (summary : Summary) (source : SourceFile),
    again.run files = (after, .ok summary) ∧
    (∀ statistics ∈ summary.statistics, statistics.isUnused = true) ∧
    Untangled files after (again.sources.zip summary.produced) ∧
    (source, copy) ∈ again.sources.zip summary.produced ∧ files.SameFile source.path path

theorem IdleCopy.holdsText {files after : FileSystem} {path copy : Path} {t : Text}
    (copied : IdleCopy files after path copy) (holds : files.HoldsText path t) :
    ∃ n, after.HoldsText copy (Text.plainEnded^[n + 1] t) := by
  obtain ⟨again, summary, source, ran, unused, untangled, member, same⟩ := copied
  obtain ⟨editor, edited, generated, told⟩ := run_statistics ran
  have idle := Editor.idle_of_statistics (told ▸ unused)
  exact generateSources_idle generated idle untangled _ member t (same.symm.holdsText holds)

/-- A copy is as it was exactly if no line ends in a carriage return. -/
theorem IdleCopy.holdsText_iff {files after : FileSystem} {path copy : Path} {lines : List Text}
    (copied : IdleCopy files after path copy) (clear : ∀ line ∈ lines, '\n' ∉ line)
    (holds : files.HoldsText path (Text.ofLines lines)) :
    after.HoldsText copy (Text.ofLines lines) ↔ ∀ line ∈ lines, line.getLast? ≠ some '\r' := by
  obtain ⟨n, left⟩ := copied.holdsText holds
  rw [← Text.iterate_plainEnded_eq_self_iff n clear]
  exact ⟨left.unique, fun same => same ▸ left⟩

/-- The lines of a text, written, read and written once more, are the text that was written first
exactly if the text they come from has no carriage returns but those of its line ends. -/
theorem ofLines_lines_twice_iff (t : Text) :
    (Text.ofLines (Text.lines t)).plainEnded = Text.ofLines (Text.lines t) ↔
      ¬ "\r\r\n".toList <:+: t ∧ t.getLast? ≠ some '\r' := by
  have clear : ∀ line ∈ Text.lines t, '\n' ∉ line := fun line => Text.not_mem_of_mem_lines
  rw [← not_or, ← Text.exists_return_iff, not_exists]
  simpa using Text.iterate_plainEnded_eq_self_iff 0 clear

/-- What has been written line by line stays as it is, read and written again, exactly if no line
ends in a carriage return; the text that the lines come from then has none but those of its line
ends. So it is with the outputs of a run: they are read back as the edited lines, and a second run
whose rules match nothing leaves them as they are, exactly if no edited line ends in one. -/
theorem output_stays_iff :
    (∀ (files : FileSystem) (source : Path) (t : Text), files.HoldsText source t →
      ∃ lines, files.readLines source = .ok lines ∧
        ∀ (before middle : FileSystem) (first : Path), before.writeLines first lines = .ok middle →
          middle.HoldsText first (Text.ofLines lines) ∧
          ∃ back, middle.readLines first = .ok back ∧
            ∀ (before' after : FileSystem) (second : Path),
              before'.writeLines second back = .ok after →
                (after.HoldsText second (Text.ofLines lines) ↔
                  ¬ "\r\r\n".toList <:+: t ∧ t.getLast? ≠ some '\r')) ∧
    ∀ (files middle : FileSystem) (settings : Settings) (preparation : Preparation)
      (summary : Summary),
      (ofSettings files settings).result = .ok preparation →
      preparation.run files = (middle, .ok summary) →
      ∃ matching, preparation.Matches files matching ∧
        ∀ source output, (source, output) ∈ preparation.sources.zip summary.produced →
          ∃ edited : List Text, (∀ line ∈ edited, '\n' ∉ line) ∧
            middle.HoldsText output (Text.ofLines edited) ∧
            (Separate files middle (preparation.sources.zip summary.produced) →
              ∃ lines, files.readLines source.path = .ok lines ∧
                edited = lines.map (Rule.chain matching preparation.rules)) ∧
            (middle.readLines output = .ok edited ↔
              ∀ line ∈ edited, line.getLast? ≠ some '\r') ∧
            ∀ (after : FileSystem) (copy : Path), IdleCopy middle after output copy →
              (after.HoldsText copy (Text.ofLines edited) ↔
                ∀ line ∈ edited, line.getLast? ≠ some '\r') := by
  constructor
  · intro files source t holds
    refine ⟨_, HoldsText.readLines holds, fun before middle first written => ?_⟩
    have left := holdsText_of_writeLines written
    refine ⟨left, _, HoldsText.readLines left, fun before' after second writtenBack => ?_⟩
    have leftBack := holdsText_of_writeLines writtenBack
    rw [Text.ofLines_lines] at leftBack
    rw [← ofLines_lines_twice_iff]
    exact ⟨leftBack.unique, fun same => same ▸ leftBack⟩
  · intro files middle settings preparation summary prepared ran
    obtain ⟨corpus, editor, read, generated, -⟩ := run_eq_ok ran
    have made := ofSettings_eq_ok prepared
    refine ⟨fun rule => (PlannedRule.ofRule (Indexing.ofFiles corpus).index
      preparation.settings.declarationAware rule).matching, ?_, ?_⟩
    · intro rule
      rw [PlannedRule.matching_ofRule_iff, Indexing.contains_ofFiles_iff, read.declared_iff]
    · intro source output listed
      obtain ⟨given, whole, holds⟩ :=
        generateSources_written generated output (List.of_mem_zip listed).2
      have unbroken : ∀ planned ∈ (Editor.ofRules (Indexing.ofFiles corpus).index
          preparation.rules preparation.settings.declarationAware).plan, planned.rule.Clear := by
        intro planned member
        obtain ⟨rule, isRule, rfl⟩ := List.mem_map.mp member
        exact made.clear rule isRule
      have clear := newline_not_mem_editedLines unbroken whole
      refine ⟨_, clear, holds, ?_, ?_, ?_⟩
      · intro separate
        obtain ⟨lines, location, readSource, left⟩ :=
          generateSources_separate generated read.readable separate _ listed
        have wholeSource := newline_not_mem_of_readLines readSource
        refine ⟨lines, readSource, ?_⟩
        rw [(Text.ofLines_inj clear (newline_not_mem_editedLines unbroken wholeSource)).mp
          (holds.unique ⟨location, left⟩)]
        exact List.map_congr_left fun line _ => editLine_ofRules _ _ _ line
      · rw [HoldsText.readLines holds, Except.ok.injEq, Text.lines_ofLines_eq_self_iff]
        exact forall₂_congr fun line member => and_iff_right (clear line member)
      · exact fun after copy copied => copied.holdsText_iff clear holds

namespace Worn

def files : FileSystem :=
  .ofTree [
    (⟨"in"⟩, .directory),
    (⟨"out"⟩, .directory),
    (⟨"rules"⟩, .file (encode "\x7b\"from\":\"a\",\"to\":\"b\",\"multiple\":true\x7d")),
    (⟨"in/x.kt"⟩, .file (encode "a\r\r\n"))]

def settings : Settings :=
  { Settings.default with
    sourceRoot := ⟨"in"⟩
    sourceList := ⟨"in"⟩
    destinationRoot := ⟨"out"⟩
    ruleFile := ⟨"rules"⟩ }

def preparation : Preparation :=
  ⟨settings, ⟨"/in"⟩, [⟨⟨"in/x.kt"⟩, ".kt"⟩], [⟨"a", "b", .all⟩], 0⟩

def summary : Summary := ⟨1, 1, 0, 0, [⟨"out/x.swift"⟩], [⟨"a", .literal, ⟨1, 1⟩, none⟩]⟩

def again : Preparation where
  settings :=
    { settings with
      sourceRoot := ⟨"out"⟩
      sourceList := ⟨"out"⟩
      sourceExtension := "swift" }
  sourceRoot := ⟨"/out"⟩
  sources := [⟨⟨"out/x.swift"⟩, ".swift"⟩]
  rules := [⟨"a", "b", .all⟩]
  refused := 0

def summaryAgain : Summary := ⟨1, 1, 0, 0, [⟨"out/x.swift"⟩], [⟨"a", .literal, ⟨0, 0⟩, none⟩]⟩

def output : Location := [⟨"x.swift", by decide⟩, ⟨"out", by decide⟩]

set_option maxRecDepth 10000 in
theorem prepared : (ofSettings files settings).result = .ok preparation := by
  cbv

theorem ran : preparation.run files = ((preparation.run files).1, .ok summary) :=
  Prod.ext rfl (by decide +kernel)

theorem ranAgain : again.run (preparation.run files).1 =
    ((again.run (preparation.run files).1).1, .ok summaryAgain) := by
  have told : (again.run (preparation.run files).1).2 = .ok summaryAgain := by decide +kernel
  rw [← told]

theorem leads : (preparation.run files).1.locate ⟨"out/x.swift"⟩ =
    .ok (output, .file (encode "b\r\n")) := by decide +kernel

end Worn

/-- The second carriage return is lost on the way back from the output, to a reader and to a second
run. -/
theorem output_worn :
    Text.ofLines (Text.lines (Text.ofLines (Text.lines "a\r\r\n"))) ≠
      Text.ofLines (Text.lines "a\r\r\n") ∧
    ∃ middle after, Worn.preparation.run Worn.files = (middle, .ok Worn.summary) ∧
      Worn.again.run middle = (after, .ok Worn.summaryAgain) ∧
      (∀ statistics ∈ Worn.summaryAgain.statistics, statistics.isUnused = true) ∧
      middle.HoldsText ⟨"out/x.swift"⟩ "b\r\n" ∧
      middle.readLines ⟨"out/x.swift"⟩ = .ok ["b"] ∧
      after.HoldsText ⟨"out/x.swift"⟩ "b\n" :=
  ⟨by decide, _, _, Worn.ran, Worn.ranAgain, by decide, ⟨_, Worn.leads⟩, by decide +kernel,
    Worn.output, by decide +kernel⟩

/-- The output holds the edited line but gives back another, and a run in place takes the carriage
return from it. -/
theorem output_stays_iff_worn :
    ∃ middle after, Worn.preparation.run Worn.files = (middle, .ok Worn.summary) ∧
      Worn.again.run middle = (after, .ok Worn.summaryAgain) ∧
      (∃ matching, (["b\r"] : List Text) =
        (["a\r"] : List Text).map (Rule.chain matching Worn.preparation.rules)) ∧
      middle.readLines ⟨"out/x.swift"⟩ ≠ .ok (["b\r"] : List Text) ∧
      ¬ after.HoldsText ⟨"out/x.swift"⟩ "b\r\n" := by
  obtain ⟨matching, -, outputs⟩ := output_stays_iff.2 _ _ _ _ _ Worn.prepared Worn.ran
  obtain ⟨edited, clear, left, chained, readBack, copies⟩ :=
    outputs _ _ (List.mem_singleton_self _)
  have lines : edited = (["b\r"] : List Text) :=
    (Text.ofLines_inj clear (by decide)).mp (left.unique ⟨_, Worn.leads⟩)
  subst lines
  have itself : FileSystem.SameFile (Worn.preparation.run Worn.files).1 ⟨"out/x.swift"⟩
      ⟨"out/x.swift"⟩ := ⟨_, _, Worn.leads, Worn.leads⟩
  have inPlace : IdleCopy (Worn.preparation.run Worn.files).1
      (Worn.again.run (Worn.preparation.run Worn.files).1).1 ⟨"out/x.swift"⟩ ⟨"out/x.swift"⟩ :=
    ⟨Worn.again, _, _, Worn.ranAgain, by decide, List.pairwise_singleton _ _,
      List.mem_singleton_self _, itself⟩
  obtain ⟨original, read, edits⟩ := chained (List.pairwise_singleton _ _)
  have given : Worn.files.readLines ⟨"in/x.kt"⟩ = .ok ["a\r"] := by decide +kernel
  cases given.symm.trans read
  refine ⟨_, _, Worn.ran, Worn.ranAgain, ⟨matching, edits⟩, ?_, ?_⟩
  · rw [Ne, readBack]
    decide
  · exact fun same => absurd ((copies _ _ inPlace).mp same) (by decide)

end Preparation

end TreeMigration
