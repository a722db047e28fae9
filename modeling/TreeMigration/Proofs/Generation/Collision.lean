import TreeMigration.Proofs.Generation.Mirroring
import TreeMigration.Proofs.Generation.Correctness
import Mathlib

/-!
Outputs that fall on each other. Renaming loses the source extension, so a source that keeps its
name can have the output of one that is renamed; a target extension that begins with a dot and a
slash turns the stem into a directory, which a hidden source can be in already. There is no other
way.

`Clash` lists the ways, each by the names that lead to the two sources. That there are no others is
shown on names (`Mirrors.eq_iff`): two outputs agree only if their names do, one name after the
other, and the last ones are compared by the pieces into which a target extension with slashes
divides them. The four cases are those of which of the two sources is renamed.

A source keeps its name if the name does not end in the source extension. Since a source is listed
for that extension, this happens only through a link, whose target is named otherwise; the example
at the end of the module has such a link.
-/
namespace TreeMigration

/-- Two sources, by the names that lead to them, of which the first is renamed onto the output of
the second. -/
inductive Clash (extension target : Text) : List Text → List Text → Prop where
  | kept {directories others : List Text} {stem name : Text} (plain : ¬ extension <:+ name)
    (same : directories ++ Path.namesIn (stem ++ target) = others ++ [name]) :
    Clash extension target (directories ++ [stem ++ extension]) (others ++ [name])
  | dotted {directories : List Text} {stem : Text} (slashed : ['.', '/'] <+: target) :
    Clash extension target (directories ++ [stem ++ ['.'], extension])
      (directories ++ [stem ++ extension])

theorem Text.splitOn_append_of_not_mem {mark : Char} {front t first : Text} {rest : List Text}
    (unmarked : mark ∉ front) (divided : splitOn mark t = first :: rest) :
    splitOn mark (front ++ t) = (front ++ first) :: rest := by
  induction front with
  | nil => exact divided
  | cons c later ih =>
    simp only [List.mem_cons, not_or] at unmarked
    rw [List.cons_append, splitOn, if_neg fun same => unmarked.1 same.symm, ih unmarked.2]
    rfl

namespace Mirrors

variable {extension target : Text}

theorem eq_kept {directories output : List Text} {name : Text} (plain : ¬ extension <:+ name)
    (mirrors : Mirrors extension target (directories ++ [name]) output) :
    output = directories ++ [name] := by
  generalize whole : directories ++ [name] = names at mirrors
  cases mirrors with
  | kept => rfl
  | renamed ends =>
    obtain ⟨-, same⟩ := List.append_inj' whole rfl
    cases same
    exact absurd (List.suffix_append _ _) plain

theorem eq_renamed {directories output : List Text} {stem : Text}
    (mirrors : Mirrors extension target (directories ++ [stem ++ extension]) output) :
    output = directories ++ Path.namesIn (stem ++ target) := by
  generalize whole : directories ++ [stem ++ extension] = names at mirrors
  cases mirrors with
  | kept plain =>
    obtain ⟨-, same⟩ := List.append_inj' whole rfl
    cases same
    exact absurd (List.suffix_append _ _) plain
  | renamed ends =>
    obtain ⟨rfl, same⟩ := List.append_inj' whole rfl
    obtain ⟨rfl, -⟩ := List.append_inj' (List.cons.inj same).1 rfl
    rfl

end Mirrors

/-- A stem before a target extension: only the first piece of the extension joins it. -/
theorem Path.namesIn_stem_append {stem target first : Text} {rest : List Text}
    (unmarked : '/' ∉ stem) (divided : Text.splitOn '/' target = first :: rest) :
    namesIn (stem ++ target) = (if PathParts.isVoid (stem ++ first) then [] else [stem ++ first]) ++
      rest.filter (!PathParts.isVoid ·) := by
  rw [namesIn, Text.splitOn_append_of_not_mem unmarked divided, List.filter_cons]
  cases PathParts.isVoid (stem ++ first) with
  | true => rfl
  | false => rfl

/-- The last segment of a renamed name counts; so if the one with the stem in it does not, the stem
is empty and the target extension goes on after a dot. -/
theorem stem_eq_nil_of_isVoid {stem target first : Text} {rest : List Text}
    (unmarked : '/' ∉ stem) (normal : target = [] ∨ ∃ more, target = '.' :: more)
    (divided : Text.splitOn '/' target = first :: rest)
    (ends : ∀ front last, Text.splitOn '/' (stem ++ target) = front ++ [last] →
      PathParts.isVoid last = false)
    (void : PathParts.isVoid (stem ++ first) = true) :
    stem = [] ∧ first = ['.'] ∧ ['.', '/'] <+: target := by
  have pieces := Text.splitOn_append_of_not_mem unmarked divided
  have further : rest ≠ [] := by
    rintro rfl
    rw [ends [] _ pieces] at void
    cases void
  have whole : first ++ ['/'] ++ Text.join ['/'] rest = target := by
    rw [← Text.join_cons _ _ further, ← divided, Text.join_splitOn]
  have filled : first ≠ [] := by
    rintro rfl
    rcases normal with empty | ⟨more, dotted⟩
    · simp [empty] at whole
    · simp [dotted] at whole
  have dot : stem ++ first = ['.'] := by
    simpa [PathParts.isVoid, filled] using void
  obtain ⟨rfl, rfl⟩ : stem = [] ∧ first = ['.'] := by
    cases stem with
    | nil => exact ⟨rfl, dot⟩
    | cons c later =>
      obtain ⟨-, empty⟩ := List.cons.inj dot
      exact absurd (List.append_eq_nil_iff.mp empty).2 filled
  exact ⟨rfl, rfl, _, whole⟩

/-- Two renamed sources with one output are one source, or the stem of one is a directory that the
other is in. -/
theorem eq_or_dotted {extension target stem stem' : Text} {directories others : List Text}
    (unmarked : '/' ∉ stem) (unmarked' : '/' ∉ stem')
    (normal : target = [] ∨ ∃ more, target = '.' :: more)
    (ends : ∀ front last, Text.splitOn '/' (stem ++ target) = front ++ [last] →
      PathParts.isVoid last = false)
    (ends' : ∀ front last, Text.splitOn '/' (stem' ++ target) = front ++ [last] →
      PathParts.isVoid last = false)
    (same : directories ++ Path.namesIn (stem ++ target) =
      others ++ Path.namesIn (stem' ++ target)) :
    directories ++ [stem ++ extension] = others ++ [stem' ++ extension] ∨
      Clash extension target (directories ++ [stem ++ extension]) (others ++ [stem' ++ extension]) ∨
      Clash extension target (others ++ [stem' ++ extension])
        (directories ++ [stem ++ extension]) := by
  cases divided : Text.splitOn '/' target with
  | nil => exact absurd divided (Text.splitOn_ne_nil '/' target)
  | cons first rest =>
    rw [Path.namesIn_stem_append unmarked divided, Path.namesIn_stem_append unmarked' divided,
      ← List.append_assoc, ← List.append_assoc] at same
    have front := List.append_cancel_right same
    cases void : PathParts.isVoid (stem ++ first) with
    | true =>
      obtain ⟨rfl, rfl, slashed⟩ := stem_eq_nil_of_isVoid unmarked normal divided ends void
      cases void' : PathParts.isVoid (stem' ++ ['.']) with
      | true =>
        obtain ⟨rfl, -, -⟩ := stem_eq_nil_of_isVoid unmarked' normal divided ends' void'
        simp only [void, if_true, List.append_nil] at front
        exact .inl (by rw [front])
      | false =>
        simp only [void, void', if_true, Bool.false_eq_true, if_false, List.append_nil] at front
        rw [front, List.append_assoc]
        exact .inr (.inl (.dotted slashed))
    | false =>
      cases void' : PathParts.isVoid (stem' ++ first) with
      | true =>
        obtain ⟨rfl, rfl, slashed⟩ := stem_eq_nil_of_isVoid unmarked' normal divided ends' void'
        simp only [void, void', if_true, Bool.false_eq_true, if_false, List.append_nil] at front
        rw [← front, List.append_assoc]
        exact .inr (.inr (.dotted slashed))
      | false =>
        simp only [void, void', Bool.false_eq_true, if_false] at front
        obtain ⟨rfl, stems⟩ := List.append_inj' front rfl
        exact .inl (by rw [List.append_cancel_right (List.cons.inj stems).1])

/-- What falls on the output of another has the same output. -/
theorem Clash.output_eq {extension target : Text} {names others output output' : List Text}
    (clash : Clash extension target names others) (ordinary : Ordinary names)
    (mirrors : Mirrors extension target names output)
    (mirrors' : Mirrors extension target others output') : output = output' := by
  cases clash with
  | kept plain same => rw [mirrors.eq_renamed, mirrors'.eq_kept plain, same]
  | @dotted directories stem slashed =>
    obtain ⟨more, rfl⟩ := slashed
    obtain ⟨counts, -, unmarked⟩ := ordinary (stem ++ ['.']) (by simp)
    have directory : Path.namesIn (stem ++ ['.']) = [stem ++ ['.']] := by
      rw [Path.namesIn, Text.splitOn_of_not_mem unmarked]
      simp [counts]
    have divided : ∀ front : Text, Path.namesIn (front ++ (['.', '/'] ++ more)) =
        Path.namesIn (front ++ ['.']) ++ Path.namesIn more := by
      intro front
      rw [← Path.namesIn_append]
      simp
    have split : directories ++ [stem ++ ['.'], extension] =
        (directories ++ [stem ++ ['.']]) ++ [[] ++ extension] := by simp
    rw [split] at mirrors
    rw [mirrors.eq_renamed, mirrors'.eq_renamed, divided, divided, directory, List.append_assoc]
    rfl

/-- Outputs are the same exactly if the sources are or one falls on the other. -/
theorem Mirrors.eq_iff {extension target : Text} {names others output output' : List Text}
    (normal : target = [] ∨ ∃ more, target = '.' :: more)
    (ordinary : Ordinary names) (ordinary' : Ordinary others)
    (mirrors : Mirrors extension target names output)
    (mirrors' : Mirrors extension target others output') :
    output = output' ↔
      names = others ∨ Clash extension target names others ∨ Clash extension target others names := by
  constructor
  · intro same
    cases mirrors with
    | kept plain =>
      cases mirrors' with
      | kept plain' => exact .inl same
      | renamed ends => exact .inr (.inr (.kept plain same.symm))
    | @renamed directories stem ends =>
      cases mirrors' with
      | kept plain' => exact .inr (.inl (.kept plain' same))
      | @renamed directories' stem' ends' =>
        have unmarked := (ordinary (stem ++ extension) (by simp)).2.2
        have unmarked' := (ordinary' (stem' ++ extension) (by simp)).2.2
        simp only [List.mem_append, not_or] at unmarked unmarked'
        exact eq_or_dotted unmarked.1 unmarked'.1 normal ends ends' same
  · rintro (rfl | clash | clash)
    · cases mirrors with
      | kept plain => exact (mirrors'.eq_kept plain).symm
      | renamed ends => exact mirrors'.eq_renamed.symm
    · exact clash.output_eq ordinary mirrors mirrors'
    · exact (clash.output_eq ordinary' mirrors' mirrors).symm

namespace Preparation

open FileSystem

/-- The output of a source falls on that of another, for no other reason than their names. -/
def FallsOn (preparation : Preparation) (files : FileSystem) (source other : SourceFile) : Prop :=
  ∃ names others, preparation.Below files source names ∧ preparation.Below files other others ∧
    Clash (withDot preparation.settings.sourceExtension)
      (withDot preparation.settings.targetExtension) names others

theorem Below.fallsOn_iff {preparation : Preparation} {files : FileSystem}
    {source other : SourceFile} {names others : List Text}
    (below : preparation.Below files source names)
    (below' : preparation.Below files other others) :
    preparation.FallsOn files source other ↔
      Clash (withDot preparation.settings.sourceExtension)
        (withDot preparation.settings.targetExtension) names others := by
  constructor
  · rintro ⟨names', others', same, same', clash⟩
    rw [(below.canonical_eq_iff same).mp rfl, (below'.canonical_eq_iff same').mp rfl]
    exact clash
  · exact fun clash => ⟨names, others, below, below', clash⟩

/-- What a finished run knows of an output: the source it belongs to and the names it mirrors. -/
theorem mirrors_of_run {files after : FileSystem} {settings : Settings}
    {preparation : Preparation} {summary : Summary}
    (prepared : (ofSettings files settings).result = .ok preparation)
    (ran : preparation.run files = (after, .ok summary)) {i : Nat} {source : SourceFile}
    {destination : Path} (here : preparation.sources[i]? = some source)
    (there : summary.produced[i]? = some destination) :
    ∃ names output, preparation.Below files source names ∧
      Mirrors (withDot settings.sourceExtension) (withDot settings.targetExtension) names output ∧
      destination.components = (settings.destinationRoot.parts.lead,
        settings.destinationRoot.parts.names ++ output) := by
  have made := ofSettings_eq_ok prepared
  obtain ⟨corpus, edited, read, generated, -⟩ := run_eq_ok ran
  obtain ⟨-, mapped⟩ := List.forall₂_iff_zip.mp (generateSources_mapped generated read.located)
  have member : (source, destination) ∈ preparation.sources.zip summary.produced :=
    List.mem_of_getElem? (List.getElem?_zip_eq_some.mpr ⟨here, there⟩)
  obtain ⟨goal, place, content, leads⟩ := mapped member
  have listed := List.mem_of_getElem? here
  obtain ⟨location, original, found⟩ := read.located source listed
  have carried := (SourceList.admitted_of_resolve made.sources source listed).carried
  rw [← carried]
  exact destination_mirrors made found goal leads

/-- Two outputs of a finished run are the same path exactly if they belong to one source file or one
falls on the other. -/
theorem produced_eq_iff {files after : FileSystem} {settings : Settings}
    {preparation : Preparation} {summary : Summary}
    (prepared : (ofSettings files settings).result = .ok preparation)
    (ran : preparation.run files = (after, .ok summary)) :
    ∀ (i j : Nat) source other destination again,
      preparation.sources[i]? = some source → summary.produced[i]? = some destination →
      preparation.sources[j]? = some other → summary.produced[j]? = some again →
      (destination.components = again.components ↔
        files.canonical source.path = files.canonical other.path ∨
          preparation.FallsOn files source other ∨ preparation.FallsOn files other source) := by
  intro i j source other destination again here there here' there'
  obtain ⟨names, output, below, mirrors, same⟩ := mirrors_of_run prepared ran here there
  obtain ⟨others, output', below', mirrors', same'⟩ := mirrors_of_run prepared ran here' there'
  rw [below.canonical_eq_iff below', below.fallsOn_iff below', below'.fallsOn_iff below,
    (ofSettings_eq_ok prepared).kept, ← mirrors.eq_iff (withDot_begins _) below.ordinary
      below'.ordinary mirrors', same, same', Prod.mk.injEq]
  simp only [true_and, List.append_cancel_left_eq]

namespace Linked

/-- A source file, and a link to one that is named like the first one's output. -/
def files : FileSystem :=
  .ofTree [
    (⟨"src"⟩, .directory),
    (⟨"out"⟩, .directory),
    (⟨"rules"⟩, .file (encode "\x7b\"from\":\"a\",\"to\":\"b\",\"multiple\":true\x7d")),
    (⟨"src/x.kt"⟩, .file (encode "a")),
    (⟨"src/x.swift"⟩, .file (encode "c")),
    (⟨"src/y.kt"⟩, .link "x.swift")]

def settings : Settings :=
  { Settings.default with
    sourceRoot := ⟨"src"⟩
    sourceList := ⟨"src"⟩
    destinationRoot := ⟨"out"⟩
    ruleFile := ⟨"rules"⟩ }

def preparation : Preparation :=
  ⟨settings, ⟨"/src"⟩, [⟨⟨"src/x.kt"⟩, ".kt"⟩, ⟨⟨"src/y.kt"⟩, ".kt"⟩], [⟨"a", "b", .all⟩], 0⟩

def summary : Summary :=
  ⟨2, 1, 0, 0, [⟨"out/x.swift"⟩, ⟨"out/x.swift"⟩], [⟨"a", .literal, ⟨1, 1⟩, none⟩]⟩

set_option maxRecDepth 10000 in
theorem prepared : (ofSettings files settings).result = .ok preparation := by
  cbv

set_option maxRecDepth 10000 in
theorem ran : preparation.run files = ((preparation.run files).1, .ok summary) := by
  have result : (preparation.run files).2 = .ok summary := by decide +kernel
  rw [← result]

set_option maxRecDepth 10000 in
theorem canonical_ne : files.canonical ⟨"src/x.kt"⟩ ≠ files.canonical ⟨"src/y.kt"⟩ := by
  decide +kernel

end Linked

/-- The link is followed to a name without the source extension, which the first source is renamed
to. -/
theorem produced_eq_iff_linked :
    Linked.preparation.FallsOn Linked.files ⟨⟨"src/x.kt"⟩, ".kt"⟩ ⟨⟨"src/y.kt"⟩, ".kt"⟩ ∨
      Linked.preparation.FallsOn Linked.files ⟨⟨"src/y.kt"⟩, ".kt"⟩ ⟨⟨"src/x.kt"⟩, ".kt"⟩ :=
  ((produced_eq_iff Linked.prepared Linked.ran 0 1 _ _ _ _ rfl rfl rfl rfl).mp rfl).resolve_left
    Linked.canonical_ne

/-- A run can produce one path for two source files. -/
theorem one_output_for_two_sources :
    (ofSettings Linked.files Linked.settings).result = .ok Linked.preparation ∧
      Linked.preparation.run Linked.files =
        ((Linked.preparation.run Linked.files).1, .ok Linked.summary) ∧
      Linked.summary.produced = [⟨"out/x.swift"⟩, ⟨"out/x.swift"⟩] ∧
      Linked.files.canonical ⟨"src/x.kt"⟩ ≠ Linked.files.canonical ⟨"src/y.kt"⟩ :=
  ⟨Linked.prepared, Linked.ran, rfl, Linked.canonical_ne⟩

end Preparation

end TreeMigration
