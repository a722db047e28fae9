import TreeMigration.Proofs.FileSystem.Subtree
import TreeMigration.Proofs.Generation.Collision
import TreeMigration.Proofs.SourceList.Admission

/-!
A run without links whose destination tree is apart from its source tree. Every source has an output
of its own, under the name it has with the other extension, so the outputs hold what was made of
their sources, and nothing outside the destination tree is changed.

The conditions of the general statement about runs are about where outputs lead at the end; here
they follow from the settings. `Renames` says of an output that it stands below the destination root
under the names of its source, with the other extension on the last one. So an output is in the
destination tree and no source is (`Renames.not_sameFile`), and two outputs are one file only if
their sources are (`Renames.sameFile`), as a name without its extension is found again from the
renamed one.

`LeavesOutputs` is what comes of it and what a comparison of two runs starts from. The target
extension is asked to be no path, since one with a slash would put outputs into further directories.
-/
namespace TreeMigration

/-- Names that begin with those of a location lead below it. -/
theorem Location.suffix_of_names {top location : Location} {names : List Text}
    (split : location.names = top.names ++ names) :
    ∃ inner : Location, inner.names = names ∧ location = inner ++ top := by
  obtain ⟨front, back, whole, begins, rest⟩ := List.map_eq_append_iff.mp split
  have same : front.reverse = top := names_injective (by
    rw [Location.names, List.reverse_reverse]
    exact begins)
  refine ⟨back.reverse, ?_, ?_⟩
  · rw [Location.names, List.reverse_reverse]
    exact rest
  · rw [← same, ← List.reverse_append, ← whole, List.reverse_reverse]

theorem Location.names_append (inner outer : Location) :
    Location.names (inner ++ outer) = outer.names ++ inner.names := by
  simp [Location.names]

theorem not_mem_withDot {extension : Text} (plain : '/' ∉ extension) : '/' ∉ withDot extension := by
  unfold withDot
  split
  · exact plain
  · simpa using plain

theorem SourceList.hasEnding_iff {extension : Text} {path : Path} :
    hasEnding extension path = true ↔
      ∃ last, path.fileName? = some last ∧ extension <:+ last := by
  rw [hasEnding]
  cases path.fileName? <;> simp

namespace FileSystem

/-- Without links a file is at the name that its path ends in. -/
theorem fileName_of_locate {files : FileSystem} (free : files.LinkFree) {path : Path}
    {location : Location} {entry : Entry} (located : files.locate path = .ok (location, entry))
    {last : Text} (named : path.fileName? = some last) :
    ∃ above : Location, location.names = above.names ++ [last] := by
  obtain ⟨isLast, noDots⟩ := Option.filter_eq_some_iff.mp named
  obtain ⟨names, whole⟩ := List.getLast?_eq_some_iff.mp isLast
  have listed : last ∈ path.parts.names := by simp [whole]
  obtain ⟨segment, counts⟩ := List.mem_filter.mp listed
  have counts : PathParts.isVoid last = false := by simpa using counts
  have ordinary : ∀ other ∈ [last],
      PathParts.isVoid other = false ∧ other ≠ ['.', '.'] ∧ '/' ∉ other := by
    simpa [counts, path.parts_spelled.unmarked last segment] using noDots
  obtain ⟨inner, same, leads⟩ := foldl_after_names ordinary
    ((names.filterMap Step.ofSegment).foldl Step.after (files.origin path.isAbsolute))
  obtain ⟨-, -, rfl, -⟩ := locate_linkFree free located
  refine ⟨(names.filterMap Step.ofSegment).foldl Step.after (files.origin path.isAbsolute), ?_⟩
  rw [target, Path.moves, whole, List.filterMap_append, List.foldl_append, leads,
    Location.names_append, same]

end FileSystem

namespace Preparation

open FileSystem

variable {files after : FileSystem} {settings : Settings} {preparation : Preparation}

/-- A source file is located below the source root. -/
theorem Below.locate {source : SourceFile} {names : List Text} {location : Location}
    {entry : Entry} (made : MadeFrom files settings preparation)
    (below : preparation.Below files source names)
    (found : files.locate source.path = .ok (location, entry)) :
    ∃ root, files.locate settings.sourceRoot = .ok (root, .directory) ∧ root <:+ location ∧
      location.names = root.names ++ names := by
  obtain ⟨root, place, sourceRoot, canonical, split⟩ := below
  obtain ⟨top, rootFound⟩ := isDirectory_iff.mp (roots_of_check made.sound).1
  obtain rfl := Location.path_injective
    (sourceRoot.symm.trans (eq_path_of_canonical rootFound made.sourceRoot))
  obtain rfl := Location.path_injective (eq_path_of_canonical found canonical)
  obtain ⟨inner, -, whole⟩ := Location.suffix_of_names split
  exact ⟨root, rootFound, ⟨inner, whole.symm⟩, split⟩

/-- An output under the destination root is named like its source, but for the extension. -/
structure Renames (preparation : Preparation) (files : FileSystem) (source : SourceFile)
    (destination : Path) (directories : List Text) (stem : Text) : Prop where
  below : preparation.Below files source
    (directories ++ [stem ++ withDot preparation.settings.sourceExtension])
  components : destination.components = (preparation.settings.destinationRoot.parts.lead,
    preparation.settings.destinationRoot.parts.names ++
      (directories ++ [stem ++ withDot preparation.settings.targetExtension]))
  ordinary : Ordinary (directories ++ [stem ++ withDot preparation.settings.targetExtension])

/-- Outputs of one file are the same path. -/
theorem Renames.unique {other : Preparation} {later : FileSystem} {source source' : SourceFile}
    {destination destination' : Path} {directories directories' : List Text} {stem stem' : Text}
    (renames : preparation.Renames files source destination directories stem)
    (renames' : other.Renames later source' destination' directories' stem')
    (sameRoot : preparation.sourceRoot = other.sourceRoot)
    (sameExtension : preparation.settings.sourceExtension = other.settings.sourceExtension)
    (same : files.canonical source.path = later.canonical source'.path) :
    directories = directories' ∧ stem = stem' := by
  obtain ⟨root, location, sourceRoot, canonical, split⟩ := renames.below
  obtain ⟨root', location', sourceRoot', canonical', split'⟩ := renames'.below
  obtain rfl := Location.path_injective (sourceRoot.symm.trans (sameRoot.trans sourceRoot'))
  rw [canonical, canonical', Except.ok.injEq] at same
  obtain rfl := Location.path_injective same
  rw [split, sameExtension] at split'
  obtain ⟨inDirectories, ends⟩ := List.append_inj' (List.append_cancel_left split') rfl
  exact ⟨inDirectories, List.append_cancel_right (List.singleton_inj.mp ends)⟩

/-- A finished run without links gives every source an output named like it. -/
theorem renames_of_run (free : files.LinkFree) (laterFree : after.LinkFree)
    (plain : '/' ∉ settings.targetExtension) {summary : Summary}
    (prepared : (ofSettings files settings).result = .ok preparation)
    (ran : preparation.run files = (after, .ok summary)) :
    ∀ pair ∈ preparation.sources.zip summary.produced, ∃ directories stem,
      preparation.Renames files pair.1 pair.2 directories stem := by
  rintro ⟨source, destination⟩ member
  have made := ofSettings_eq_ok prepared
  obtain ⟨corpus, edited, read, generated, -⟩ := run_eq_ok ran
  obtain ⟨i, here⟩ := List.mem_iff_getElem?.mp member
  obtain ⟨isSource, isProduced⟩ := List.getElem?_zip_eq_some.mp here
  obtain ⟨names, output, below, mirrors, whole⟩ := mirrors_of_run prepared ran isSource isProduced
  obtain ⟨goal, place, content, leads⟩ :=
    (List.forall₂_iff_zip.mp (generateSources_mapped generated read.located)).2 member
  have admitted := SourceList.admitted_of_resolve made.sources source (List.of_mem_zip member).1
  obtain ⟨location, given, found⟩ := read.located source (List.of_mem_zip member).1
  obtain ⟨root, -, -, split⟩ := below.locate made found
  obtain ⟨last, named, ending⟩ := SourceList.hasEnding_iff.mp admitted.ending
  obtain ⟨above, ends⟩ := fileName_of_locate free found named
  rw [← made.kept] at mirrors whole
  cases mirrors with
  | @kept directories name noEnding =>
    -- the source was admitted for the ending that this name does not have
    rw [split, ← List.append_assoc] at ends
    obtain ⟨-, same⟩ := List.append_inj' ends rfl
    rw [List.singleton_inj.mp same, made.kept] at noEnding
    exact absurd ending noEnding
  | @renamed directories stem counts =>
    have ordinary := below.ordinary
    have unmarked : '/' ∉ stem ++ withDot preparation.settings.targetExtension := by
      have inStem := (ordinary (stem ++ withDot preparation.settings.sourceExtension) (by simp)).2.2
      rw [List.mem_append, not_or] at inStem ⊢
      exact ⟨inStem.1, not_mem_withDot (made.kept ▸ plain)⟩
    have isLast := counts [] _ (Text.splitOn_of_not_mem unmarked)
    have one : Path.namesIn (stem ++ withDot preparation.settings.targetExtension) =
        [stem ++ withDot preparation.settings.targetExtension] := by
      rw [Path.namesIn, Text.splitOn_of_not_mem unmarked,
        List.filter_cons_of_pos (by simp [isLast]), List.filter_nil]
    rw [one] at whole
    have notUp := last_ne_dots_of_locate laterFree leads
      ((congrArg Prod.snd whole).trans (List.append_assoc _ directories _).symm)
    refine ⟨directories, stem, below, whole, ?_⟩
    intro segment listed
    rcases List.mem_append.mp listed with inFront | isEnd
    · exact ordinary segment (List.mem_append_left _ inFront)
    · rw [List.mem_singleton.mp isEnd]
      exact ⟨isLast, notUp, unmarked⟩

/-- An output is in the destination tree, at the names that it mirrors. -/
theorem Renames.place {top : Location} (grown : Grown files after) (laterFree : after.LinkFree)
    (root : files.locate preparation.settings.destinationRoot = .ok (top, .directory))
    {source : SourceFile} {destination : Path} {directories : List Text} {stem : Text}
    {place : Location} {entry : Entry}
    (renames : preparation.Renames files source destination directories stem)
    (leads : after.locate destination = .ok (place, entry)) :
    ∃ inner : Location,
      inner.names = directories ++ [stem ++ withDot preparation.settings.targetExtension] ∧
      place = inner ++ top := by
  obtain ⟨_, rootLater, -⟩ := locate_of_grown grown root
  obtain ⟨-, -, rfl, -⟩ := locate_linkFree laterFree rootLater
  obtain ⟨-, -, rfl, -⟩ := locate_linkFree laterFree leads
  exact target_below after renames.components renames.ordinary

/-- Where the trees are apart, no output is a source file. -/
theorem Renames.not_sameFile {top : Location} (grown : Grown files after)
    (laterFree : after.LinkFree) (made : MadeFrom files settings preparation)
    (root : files.locate preparation.settings.destinationRoot = .ok (top, .directory))
    (apart : files.Apart settings.sourceRoot preparation.settings.destinationRoot)
    {source other : SourceFile} {destination : Path} {directories names : List Text} {stem : Text}
    (renames : preparation.Renames files source destination directories stem)
    (below : preparation.Below files other names)
    (located : ∃ location content, files.locate other.path = .ok (location, .file content)) :
    ¬ after.SameFile destination other.path := by
  rintro ⟨place, content, leads, leads'⟩
  obtain ⟨inner, -, there⟩ := renames.place grown laterFree root leads
  obtain ⟨location, given, found⟩ := located
  obtain ⟨base, baseFound, within, -⟩ := below.locate made found
  obtain ⟨_, foundLater, -⟩ := locate_of_grown grown found
  cases foundLater.symm.trans leads'
  exact not_suffix_of_apart (apart _ _ _ _ baseFound root) within ⟨inner, there.symm⟩

/-- Outputs that are one file belong to one source. -/
theorem Renames.sameFile {top : Location} (grown : Grown files after) (laterFree : after.LinkFree)
    (made : MadeFrom files settings preparation)
    (root : files.locate preparation.settings.destinationRoot = .ok (top, .directory))
    {source other : SourceFile} {destination destination' : Path}
    {directories directories' : List Text} {stem stem' : Text}
    (renames : preparation.Renames files source destination directories stem)
    (renames' : preparation.Renames files other destination' directories' stem')
    (located : ∃ location content, files.locate source.path = .ok (location, .file content))
    (located' : ∃ location content, files.locate other.path = .ok (location, .file content))
    (same : after.SameFile destination destination') : files.SameFile source.path other.path := by
  obtain ⟨place, _, leads, leads'⟩ := same
  obtain ⟨inner, named, there⟩ := renames.place grown laterFree root leads
  obtain ⟨inner', named', there'⟩ := renames'.place grown laterFree root leads'
  obtain rfl := List.append_cancel_right (there.symm.trans there')
  rw [named] at named'
  obtain ⟨rfl, ends⟩ := List.append_inj' named' rfl
  obtain rfl := List.append_cancel_right (List.singleton_inj.mp ends)
  obtain ⟨location, content, found⟩ := located
  obtain ⟨location', content', found'⟩ := located'
  obtain ⟨base, baseFound, -, split⟩ := renames.below.locate made found
  obtain ⟨base', baseFound', -, split'⟩ := renames'.below.locate made found'
  cases baseFound.symm.trans baseFound'
  obtain rfl := Location.names_injective (split.trans split'.symm)
  cases entry_eq_of_locate found found'
  exact ⟨_, content, found, found'⟩

/-- The rules of a run as planned against the lines that its sources give. -/
def plan (preparation : Preparation) (corpus : List SourceText) : List PlannedRule :=
  preparation.rules.map (PlannedRule.ofRule (Indexing.ofFiles corpus).index
    preparation.settings.declarationAware)

/-- What a finished run leaves: changes in the destination tree alone, and there an output for each
source that is named like it and holds its edited lines. -/
structure LeavesOutputs (preparation : Preparation) (files after : FileSystem) (top : Location)
    (corpus : List SourceText) (produced : List Path) : Prop where
  root : files.locate preparation.settings.destinationRoot = .ok (top, .directory)
  grown : GrownBelow top files after
  linkFree : after.LinkFree
  read : ReadAs files preparation.sources corpus
  renamed : List.Forall₂ (fun source destination => ∃ directories stem,
    preparation.Renames files source destination directories stem) preparation.sources produced
  delivered : ∀ pair ∈ preparation.sources.zip produced,
    Delivered (preparation.plan corpus) files after pair

/-- Each source has an output in the destination tree, which holds its edited lines. -/
theorem LeavesOutputs.output {top : Location} {corpus : List SourceText} {produced : List Path}
    (leaves : preparation.LeavesOutputs files after top corpus produced) {pair : SourceFile × Path}
    (member : pair ∈ preparation.sources.zip produced) :
    ∃ directories stem lines location,
      preparation.Renames files pair.1 pair.2 directories stem ∧
      files.readLines pair.1.path = .ok lines ∧ top <:+ location ∧
      after.locate pair.2 = .ok (location, .file (encode
        (Text.ofLines (editedLines (preparation.plan corpus) lines)))) := by
  obtain ⟨directories, stem, renames⟩ := (List.forall₂_iff_zip.mp leaves.renamed).2 member
  obtain ⟨lines, location, read, holds⟩ := leaves.delivered pair member
  obtain ⟨inner, -, there⟩ := renames.place leaves.grown.grown leaves.linkFree leaves.root holds
  exact ⟨directories, stem, lines, location, renames, read, ⟨inner, there.symm⟩, holds⟩

/-- A run that finishes leaves its outputs, if there are no links, the target extension is no path
and the source tree is apart from the destination tree. -/
theorem leavesOutputs_of_run (free : files.LinkFree) (plain : '/' ∉ settings.targetExtension)
    (apart : files.Apart settings.sourceRoot settings.destinationRoot) {summary : Summary}
    (prepared : (ofSettings files settings).result = .ok preparation)
    (ran : preparation.run files = (after, .ok summary)) :
    ∃ top corpus, preparation.LeavesOutputs files after top corpus summary.produced := by
  have made := ofSettings_eq_ok prepared
  obtain ⟨-, -, isDestination, -⟩ := Settings.check_eq_ok_iff.mp made.sound
  obtain ⟨top, root⟩ := isDirectory_iff.mp isDestination
  rw [← made.kept] at root
  obtain ⟨corpus, edited, read, generated, -⟩ := run_eq_ok ran
  obtain ⟨counted, confined⟩ := generateSources_confined generated
  have grown := confined.grown
  have laterFree := confined.linkFree free
  have renamed : List.Forall₂ (fun source destination => ∃ directories stem,
      preparation.Renames files source destination directories stem)
      preparation.sources summary.produced :=
    List.forall₂_iff_zip.mpr ⟨counted.symm, fun member =>
      renames_of_run free laterFree plain prepared ran _ member⟩
  have grownBelow : GrownBelow top files after := by
    refine confined.grownBelow free root ?_
    intro destination isProduced
    obtain ⟨source, -, directories, stem, renames⟩ := exists_of_mem_right renamed isProduced
    exact ⟨_, renames.ordinary, renames.components⟩
  refine ⟨top, corpus, root, grownBelow, laterFree, read, renamed,
    generateSources_delivered generated read.readable ?_ ?_⟩
  · intro destination isProduced source isSource
    obtain ⟨_, -, _, _, renames⟩ := exists_of_mem_right renamed isProduced
    obtain ⟨_, -, _, _, renames'⟩ := exists_of_mem_left renamed isSource
    exact renames.not_sameFile grown laterFree made root (made.kept ▸ apart) renames'.below
      (read.located source isSource)
  · intro first isFirst second isSecond same
    obtain ⟨_, _, renames⟩ := (List.forall₂_iff_zip.mp renamed).2 isFirst
    obtain ⟨_, _, renames'⟩ := (List.forall₂_iff_zip.mp renamed).2 isSecond
    exact renames.sameFile grown laterFree made root renames'
      (read.located first.1 (List.of_mem_zip isFirst).1)
      (read.located second.1 (List.of_mem_zip isSecond).1) same

end Preparation

end TreeMigration
