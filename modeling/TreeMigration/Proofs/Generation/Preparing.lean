import TreeMigration.Preparation
import TreeMigration.Proofs.SourceList.Admission

/-!
What a successful preparation has found out: the settings were sound, the source root is canonical,
the sources are those of the list and the rules those of the rule file.

`MadeFrom` has a field for each, and is obtained by taking the chain of steps apart from the front
(`ofSettings_eq_ok`). Later modules start from it and never look at the preparation again. The
warnings of a preparation are not among its fields, since nothing depends on them.
-/
namespace TreeMigration

/-- Settings are accepted exactly if every path leads to what it should. -/
theorem Settings.check_eq_ok_iff {settings : Settings} {files : FileSystem} :
    settings.check files = .ok () ↔
      files.isDirectory settings.sourceRoot = true ∧ files.pathExists settings.sourceList = true ∧
      files.isDirectory settings.destinationRoot = true ∧ files.isFile settings.ruleFile = true ∧
      ∀ root, settings.referenceRoot = some root → files.isDirectory root = true := by
  have accepted : settings.check files = .ok () ↔ settings.misconfiguration? files = none := by
    unfold check
    split
    · rename_i fault
      simp [fault]
    · rename_i fine
      simp [fine]
  rw [accepted, misconfiguration?]
  cases files.isDirectory settings.sourceRoot <;> cases files.pathExists settings.sourceList <;>
    cases files.isDirectory settings.destinationRoot <;> cases files.isFile settings.ruleFile <;>
    simp

namespace Preparation

/-- What a preparation owes to the files and the settings it was made from. -/
structure MadeFrom (files : FileSystem) (settings : Settings) (preparation : Preparation) :
    Prop where
  sound : settings.check files = .ok ()
  kept : preparation.settings = settings
  sourceRoot : files.canonical settings.sourceRoot = .ok preparation.sourceRoot
  sources : (SourceList.resolve files settings.sourceList settings.sourceExtension).result =
    .ok preparation.sources
  rules : ∃ lines, files.readLines settings.ruleFile = .ok lines ∧
    preparation.rules = (RuleCollection.ofLines lines).rules

theorem ofSettings_eq_ok {files : FileSystem} {settings : Settings} {preparation : Preparation}
    (prepared : (ofSettings files settings).result = .ok preparation) :
    MadeFrom files settings preparation := by
  obtain ⟨⟨⟩, sound, prepared⟩ := Noted.bind_result_eq_ok.mp prepared
  obtain ⟨sourceRoot, canonical, prepared⟩ := Noted.bind_result_eq_ok.mp prepared
  obtain ⟨sources, resolved, prepared⟩ := Noted.bind_result_eq_ok.mp prepared
  obtain ⟨collection, collected, prepared⟩ := Noted.bind_result_eq_ok.mp prepared
  obtain ⟨lines, read, collected⟩ := Noted.bind_result_eq_ok.mp collected
  obtain ⟨⟨⟩, -, collected⟩ := Noted.bind_result_eq_ok.mp collected
  cases collected
  split at prepared
  · cases prepared
  · cases prepared
    exact ⟨sound, rfl, onPath_eq_ok_iff.mp canonical, resolved, lines, read, rfl⟩

end Preparation

end TreeMigration
