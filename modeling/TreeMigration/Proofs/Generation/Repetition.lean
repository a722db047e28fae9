import TreeMigration.Proofs.Editing.Order
import TreeMigration.Proofs.FileSystem.Encoding
import TreeMigration.Proofs.Generation.Separation
import TreeMigration.Proofs.SourceList.Growth

/-!
Two runs compared, the second on the files that the first one left and into another destination
tree. They share the source root and the rules, and if they also have the same source files, they
index the same names, plan the rules alike and leave outputs of the same names with the same
contents.

`Rerun` collects the conditions on the settings; they are decidable for given files, so that an
example can be checked. `SameWork` is what is used of them: both preparations have one source root
and one list of rules, and every source of the second has the absolute path of one of the first. The
files differ by what the first run left in its destination tree, which lies apart from all that the
second one reads.

`exists_counterpart` pairs the outputs. The second output and the first continue their destination
roots by the same names because both come from one absolute path, and they hold the same text
because both runs plan the rules alike (`plan_alike`). A listed path that first leads somewhere in
the second run is excluded by `AddsNone` and not by the settings: it may lead through a directory
which the first run has made.
-/
namespace TreeMigration

/-- The settings of a run and of another on the files that it left, which differ in that the second
goes into another destination tree and is compared with that of the first. There are no links, and
the source tree, the list file, the rule file and the two destination trees lie apart. -/
structure Rerun (files middle : FileSystem) (settings again : Settings) : Prop where
  same : again = { settings with
    destinationRoot := again.destinationRoot
    referenceRoot := some settings.destinationRoot }
  linkFree : files.LinkFree
  plain : '/' ∉ settings.targetExtension
  sources : files.Apart settings.sourceRoot settings.destinationRoot
  list : files.isFile settings.sourceList = true →
    files.Apart settings.sourceList settings.destinationRoot
  rules : files.Apart settings.ruleFile settings.destinationRoot
  sourcesAgain : middle.Apart settings.sourceRoot again.destinationRoot
  destinations : middle.Apart settings.destinationRoot again.destinationRoot

instance decidableRerun (files middle : FileSystem) (settings again : Settings) :
    Decidable (Rerun files middle settings again) :=
  decidable_of_iff
    (again = { settings with
        destinationRoot := again.destinationRoot
        referenceRoot := some settings.destinationRoot } ∧
      files.LinkFree ∧ '/' ∉ settings.targetExtension ∧
      files.Apart settings.sourceRoot settings.destinationRoot ∧
      (files.isFile settings.sourceList = true →
        files.Apart settings.sourceList settings.destinationRoot) ∧
      files.Apart settings.ruleFile settings.destinationRoot ∧
      middle.Apart settings.sourceRoot again.destinationRoot ∧
      middle.Apart settings.destinationRoot again.destinationRoot)
    ⟨fun ⟨same, linkFree, plain, sources, list, rules, sourcesAgain, destinations⟩ =>
      ⟨same, linkFree, plain, sources, list, rules, sourcesAgain, destinations⟩,
    fun rerun => ⟨rerun.same, rerun.linkFree, rerun.plain, rerun.sources, rerun.list, rerun.rules,
      rerun.sourcesAgain, rerun.destinations⟩⟩

namespace Preparation

open FileSystem

variable {files middle later : FileSystem} {top : Location} {preparation again : Preparation}

/-- Two preparations, the second of them made when the tree had grown at a location, for the same
work: the sources of the second are those of the first. -/
structure SameWork (files middle : FileSystem) (top : Location) (preparation again : Preparation) :
    Prop where
  grown : GrownBelow top files middle
  sourceRoot : again.sourceRoot = preparation.sourceRoot
  sourceExtension : again.settings.sourceExtension = preparation.settings.sourceExtension
  targetExtension : again.settings.targetExtension = preparation.settings.targetExtension
  rules : again.rules = preparation.rules
  declarationAware : again.settings.declarationAware = preparation.settings.declarationAware
  outside : ∀ source ∈ preparation.sources, ∀ location entry,
    files.locate source.path = .ok (location, entry) → ¬ top <:+ location
  kept : ∀ source ∈ preparation.sources, source ∈ again.sources
  known : ∀ source ∈ again.sources, ∃ earlier ∈ preparation.sources,
    middle.canonical source.path = middle.canonical earlier.path
  absolute : ∀ source ∈ again.sources, ∃ absolute, middle.canonical source.path = .ok absolute

namespace SameWork

variable (work : SameWork files middle top preparation again)
include work

/-- A source of the second run gives the lines of one of the first. -/
theorem exists_earlier {source : SourceFile} (member : source ∈ again.sources) {lines : List Text}
    (read : middle.readLines source.path = .ok lines)
    (readable : ∀ earlier ∈ preparation.sources, ∃ given,
      files.readLines earlier.path = .ok given) :
    ∃ earlier ∈ preparation.sources,
      files.canonical earlier.path = middle.canonical source.path ∧
      files.readLines earlier.path = .ok lines := by
  obtain ⟨earlier, listed, same⟩ := work.known source member
  obtain ⟨given, readBefore⟩ := readable earlier listed
  obtain ⟨location, content, located, -⟩ := readLines_eq_ok_iff.mp readBefore
  have locatedLater := work.grown.locate located (work.outside earlier listed location _ located)
  obtain ⟨place, written, found, -⟩ := readLines_eq_ok_iff.mp read
  obtain ⟨absolute, isSource⟩ := work.absolute source member
  have isEarlier := same ▸ isSource
  obtain rfl := Location.path_injective ((eq_path_of_canonical found isSource).symm.trans
    (eq_path_of_canonical locatedLater isEarlier))
  cases entry_eq_of_locate locatedLater found
  have readLater := work.grown.readLines readBefore (work.outside earlier listed)
  have one : middle.SameFile earlier.path source.path := ⟨_, content, locatedLater, found⟩
  have again := one.readLines readLater
  rw [read, Except.ok.injEq] at again
  subst again
  exact ⟨earlier, listed, by rw [same, canonical_of_grown work.grown.grown located], readBefore⟩

/-- Both runs read the same declarations, so they plan the rules alike. -/
theorem plan_alike {corpus corpus' : List SourceText}
    (read : ReadAs files preparation.sources corpus)
    (read' : ReadAs middle again.sources corpus') :
    List.Forall₂ PlannedRule.Alike (preparation.plan corpus) (again.plan corpus') := by
  have known : ∀ name, (Indexing.ofFiles corpus).index.contains name =
      (Indexing.ofFiles corpus').index.contains name := by
    intro name
    rw [Bool.eq_iff_iff, Indexing.contains_ofFiles_iff, Indexing.contains_ofFiles_iff,
      read.declared_iff, read'.declared_iff]
    constructor
    · rintro ⟨source, member, lines, given, declared⟩
      exact ⟨source, work.kept source member, lines,
        work.grown.readLines given (work.outside source member), declared⟩
    · rintro ⟨source, member, lines, given, declared⟩
      obtain ⟨earlier, listed, -, before⟩ := work.exists_earlier member given read.readable
      exact ⟨earlier, listed, lines, before, declared⟩
  rw [plan, plan, work.rules, work.declarationAware]
  induction preparation.rules with
  | nil => exact .nil
  | cons rule others ih => exact .cons (PlannedRule.alike_ofRule known _ rule) ih

/-- Every output of the second run has a counterpart that the first left: it continues the first
destination root by the same names, and holds the same text. -/
theorem exists_counterpart {top' : Location} {corpus corpus' : List SourceText}
    {produced produced' : List Path}
    (leaves : preparation.LeavesOutputs files middle top corpus produced)
    (leaves' : again.LeavesOutputs middle later top' corpus' produced')
    {destination : Path} (member : destination ∈ produced') :
    ∃ counterpart names t, names ≠ [] ∧
      destination.components = (again.settings.destinationRoot.parts.lead,
        again.settings.destinationRoot.parts.names ++ names) ∧
      counterpart.components = (preparation.settings.destinationRoot.parts.lead,
        preparation.settings.destinationRoot.parts.names ++ names) ∧
      later.HoldsText destination t ∧
      ∃ location, top <:+ location ∧
        middle.locate counterpart = .ok (location, .file (encode t)) := by
  obtain ⟨source, pair'⟩ := (exists_mem_zip leaves'.renamed.length_eq).2 destination member
  obtain ⟨directories', stem', lines, place, renames', read, -, holds'⟩ := leaves'.output pair'
  obtain ⟨earlier, listed, same, readBefore⟩ :=
    work.exists_earlier (List.of_mem_zip pair').1 read leaves.read.readable
  obtain ⟨counterpart, pair⟩ := (exists_mem_zip leaves.renamed.length_eq).1 earlier listed
  obtain ⟨directories, stem, given, location, renames, readGiven, inside, holds⟩ :=
    leaves.output pair
  obtain rfl := Except.ok.inj (readBefore.symm.trans readGiven)
  obtain ⟨rfl, rfl⟩ := renames.unique renames' work.sourceRoot.symm work.sourceExtension.symm same
  have edited := editedLines_congr (work.plan_alike leaves.read leaves'.read) lines
  refine ⟨counterpart, directories ++ [stem ++ withDot preparation.settings.targetExtension],
    _, by simp, ?_, renames.components, ⟨place, holds'⟩, location, inside, ?_⟩
  · rw [← work.targetExtension]
    exact renames'.components
  · rw [← edited]
    exact holds

end SameWork

/-- The listed paths that led nowhere when a run was prepared lead to no source files later but
those that the run had. -/
def AddsNone (preparation : Preparation) (files middle : FileSystem) : Prop :=
  ∀ path, SourceList.Listed files preparation.settings.sourceList path →
    files.pathExists path = false →
    ∀ source ∈ SourceList.below middle (withDot preparation.settings.sourceExtension) path,
      ∃ earlier ∈ preparation.sources,
        middle.canonical source.path = middle.canonical earlier.path

/-- The sources of a run that leaves outputs are outside every tree apart from the source tree. -/
theorem LeavesOutputs.outside {settings : Settings} {corpus : List SourceText}
    {produced : List Path} {tree : Path} {place : Location} {entry : Entry}
    (leaves : preparation.LeavesOutputs files middle top corpus produced)
    (made : MadeFrom files settings preparation) (apart : files.Apart settings.sourceRoot tree)
    (found : files.locate tree = .ok (place, entry)) :
    ∀ source ∈ preparation.sources, ∀ location entry,
      files.locate source.path = .ok (location, entry) → ¬ place <:+ location := by
  intro source member location entry located
  obtain ⟨_, -, _, _, renames⟩ := exists_of_mem_left leaves.renamed member
  obtain ⟨root, rootFound, within, -⟩ := renames.below.locate made located
  exact not_suffix_of_apart (apart _ _ _ _ rootFound found) within

/-- A second run that finishes has the work of the first, if none of the listed paths leads to
further sources by then. -/
theorem sameWork_of_rerun {settings settings' : Settings} {top' : Location}
    {corpus corpus' : List SourceText} {produced produced' : List Path}
    (rerun : Rerun files middle settings settings') (made : MadeFrom files settings preparation)
    (made' : MadeFrom middle settings' again)
    (leaves : preparation.LeavesOutputs files middle top corpus produced)
    (leaves' : again.LeavesOutputs middle later top' corpus' produced')
    (addsNone : preparation.AddsNone files middle) :
    SameWork files middle top preparation again := by
  have root := leaves.root
  have sameSettings := rerun.same
  have kept := made.kept
  have kept' := made'.kept
  subst kept kept'
  obtain ⟨-, isList, -⟩ := Settings.check_eq_ok_iff.mp made.sound
  obtain ⟨listLocation, listEntry, listFound⟩ := pathExists_iff.mp isList
  obtain ⟨rootLocation, rootFound⟩ := isDirectory_iff.mp (roots_of_check made.sound).1
  obtain ⟨_, rootLater, -⟩ := locate_of_grown leaves.grown.grown rootFound
  have listed : ∀ path, SourceList.Listed middle preparation.settings.sourceList path ↔
      SourceList.Listed files preparation.settings.sourceList path := by
    refine fun path => SourceList.listed_iff_of_later leaves.grown listFound ?_
    rintro content rfl
    have isFile := isFile_iff.mpr ⟨listLocation, content, listFound⟩
    exact (rerun.list isFile _ _ _ _ listFound root).2
  have member : ∀ source, source ∈ again.sources ↔ ∃ path,
      SourceList.Listed files preparation.settings.sourceList path ∧
      source ∈ SourceList.below middle (withDot preparation.settings.sourceExtension) path := by
    intro source
    rw [SourceList.mem_resolve_iff made'.sources, sameSettings]
    simp only [listed]
  have outside := leaves.outside made rerun.sources root
  refine ⟨leaves.grown, ?_, by rw [sameSettings], by rw [sameSettings], ?_, by rw [sameSettings],
    outside, ?_, ?_, ?_⟩
  · have isRootLater := made'.sourceRoot
    rw [sameSettings, canonical_of_grown leaves.grown.grown rootFound] at isRootLater
    exact Except.ok.inj (isRootLater.symm.trans made.sourceRoot)
  · obtain ⟨lines, read, rules⟩ := made.rules
    obtain ⟨lines', read', rules'⟩ := made'.rules
    have readLater := leaves.grown.readLines read
      fun location entry located => (rerun.rules _ _ _ _ located root).2
    rw [sameSettings] at read'
    cases readLater.symm.trans read'
    rw [rules, rules']
  · intro source isSource
    obtain ⟨path, isListed, below⟩ := (SourceList.mem_resolve_iff made.sources).mp isSource
    have belowLater := SourceList.mem_below_of_grown leaves.grown.grown below
    exact (member source).mpr ⟨path, isListed, belowLater⟩
  · intro source isSource
    obtain ⟨path, isListed, below⟩ := (member source).mp isSource
    cases found : files.pathExists path with
    | false => exact addsNone path isListed found source below
    | true =>
      obtain ⟨location, entry, located⟩ := pathExists_iff.mp found
      obtain ⟨_, -, _, _, renames⟩ := exists_of_mem_left leaves'.renamed isSource
      obtain ⟨place, _, placed⟩ := leaves'.read.located source isSource
      obtain ⟨base, baseFound, within, -⟩ := renames.below.locate made' placed
      rw [sameSettings] at baseFound
      cases rootLater.symm.trans baseFound
      have out := not_suffix_of_apart (rerun.sources _ _ _ _ rootFound root) within
      have before := SourceList.mem_below_of_later leaves.grown leaves.linkFree located placed out
        below
      exact ⟨source, (SourceList.mem_resolve_iff made.sources).mpr ⟨path, isListed, before⟩, rfl⟩
  · intro source isSource
    obtain ⟨_, -, _, _, renames⟩ := exists_of_mem_left leaves'.renamed isSource
    obtain ⟨_, _, -, canonical, -⟩ := renames.below
    exact ⟨_, canonical⟩

end Preparation

end TreeMigration
