import TreeMigration.Proofs.Declaration.Corpus
import TreeMigration.Proofs.FileSystem.Canonical
import TreeMigration.Proofs.Generation.Delivery
import Mathlib.Data.List.Forall2

/-!
The two passes over the source files. The first reads them all into one index; in the second every
source is read again between writes, and still gives what it gave at first if no output leads to it.

`ReadAs` pairs the source files with the lines they give, and is what a finished first pass has
established (`index_eq_ok`). The second pass is an induction on the sources with one step lemma,
`generateSources_cons`. Four things are carried through it, each with a statement of its own: the
frame of the files (`generateSources_confined`), where the outputs are (`Mapped`), that sources stay
as they were read (`Separate`), and what each output holds (`Delivered`).

The invariant that needs an idea is the last one. An output written later may lead to the same file
as an earlier one, which then holds what was written last; since the two come from one source, that
is the same text (`Delivered.of_later`). Where the outputs lead is asked of the files at the end,
when all of them are there.
-/
namespace TreeMigration

theorem exists_of_mem_left {α β : Type} {related : α → β → Prop} {as : List α} {bs : List β}
    (pairwise : List.Forall₂ related as bs) {a : α} (member : a ∈ as) : ∃ b ∈ bs, related a b := by
  induction pairwise with
  | nil => cases member
  | cons first later ih =>
    rcases List.mem_cons.mp member with rfl | member
    · exact ⟨_, List.mem_cons_self, first⟩
    · obtain ⟨b, listed, holds⟩ := ih member
      exact ⟨b, List.mem_cons_of_mem _ listed, holds⟩

theorem exists_of_mem_right {α β : Type} {related : α → β → Prop} {as : List α} {bs : List β}
    (pairwise : List.Forall₂ related as bs) {b : β} (member : b ∈ bs) : ∃ a ∈ as, related a b :=
  exists_of_mem_left pairwise.flip member

/-- In lists of one length every item is paired with one of the other list. -/
theorem exists_mem_zip {α β : Type} {as : List α} {bs : List β} (same : as.length = bs.length) :
    (∀ a ∈ as, ∃ b, (a, b) ∈ as.zip bs) ∧ ∀ b ∈ bs, ∃ a, (a, b) ∈ as.zip bs := by
  have paired : List.Forall₂ (fun a b => (a, b) ∈ as.zip bs) as bs :=
    List.forall₂_iff_zip.mpr ⟨same, id⟩
  constructor
  · intro a member
    obtain ⟨b, -, pair⟩ := exists_of_mem_left paired member
    exact ⟨b, pair⟩
  · intro b member
    obtain ⟨a, -, pair⟩ := exists_of_mem_right paired member
    exact ⟨a, pair⟩

namespace Preparation

open FileSystem

/-- The lines that some source files give, file by file. -/
def ReadAs (files : FileSystem) (sources : List SourceFile) (corpus : List SourceText) : Prop :=
  List.Forall₂ (fun source text => text.1 = source.path ∧
    files.readLines source.path = .ok text.2) sources corpus

theorem indexSources_eq_ok {files : FileSystem} {indexing result : Indexing}
    {sources : List SourceFile} (done : indexSources files indexing sources = .ok result) :
    ∃ corpus, ReadAs files sources corpus ∧
      result = corpus.foldl (fun indexing file => indexing.insertFile file.1 file.2) indexing := by
  induction sources generalizing indexing with
  | nil =>
    cases done
    exact ⟨[], .nil, rfl⟩
  | cons source later ih =>
    obtain ⟨lines, read, done⟩ := bind_eq_ok.mp done
    obtain ⟨corpus, readLater, finished⟩ := ih done
    exact ⟨(source.path, lines) :: corpus, .cons ⟨rfl, read⟩ readLater, finished⟩

/-- A finished first pass has read every source file and indexed just their lines. -/
theorem index_eq_ok {preparation : Preparation} {files : FileSystem} {indexing : Indexing}
    (done : preparation.index files = .ok indexing) :
    ∃ corpus, ReadAs files preparation.sources corpus ∧ indexing = Indexing.ofFiles corpus :=
  indexSources_eq_ok done

theorem ReadAs.readable {files : FileSystem} {sources : List SourceFile}
    {corpus : List SourceText} (read : ReadAs files sources corpus) :
    ∀ source ∈ sources, ∃ lines, files.readLines source.path = .ok lines := by
  intro source listed
  obtain ⟨text, -, -, given⟩ := exists_of_mem_left read listed
  exact ⟨text.2, given⟩

/-- A name is declared in the corpus exactly if some source file gives a line that declares it. -/
theorem ReadAs.declared_iff {files : FileSystem} {sources : List SourceFile}
    {corpus : List SourceText} (read : ReadAs files sources corpus) {name : Text} :
    (∃ file ∈ corpus, name.DeclaredIn file.2) ↔
      ∃ source ∈ sources, ∃ lines, files.readLines source.path = .ok lines ∧
        name.DeclaredIn lines := by
  induction read with
  | nil => simp
  | cons first later ih =>
    simp only [List.mem_cons, exists_eq_or_imp, ih, first.2, Except.ok.injEq,
      exists_eq_left']

/-- Every source file can be found, though perhaps not read. -/
def Located (files : FileSystem) (sources : List SourceFile) : Prop :=
  ∀ source ∈ sources, ∃ location content, files.locate source.path = .ok (location, .file content)

theorem Located.of_grown {files later : FileSystem} {sources : List SourceFile}
    (located : Located files sources) (grown : Grown files later) : Located later sources := by
  intro source listed
  obtain ⟨location, content, leads⟩ := located source listed
  obtain ⟨entry, leadsLater, alike⟩ := locate_of_grown grown leads
  cases alike with
  | same => exact ⟨location, content, leadsLater⟩
  | contents _ new => exact ⟨location, new, leadsLater⟩

theorem ReadAs.located {files : FileSystem} {sources : List SourceFile} {corpus : List SourceText}
    (read : ReadAs files sources corpus) : Located files sources := by
  intro source listed
  obtain ⟨lines, readSource⟩ := read.readable source listed
  obtain ⟨location, content, leads, -⟩ := readLines_eq_ok_iff.mp readSource
  exact ⟨location, content, leads⟩

/-- Where a source file's output goes does not change once the file can be found. -/
theorem destination_of_grown {preparation : Preparation} {files later : FileSystem}
    (grown : Grown files later) {source : SourceFile} {location : Location} {entry : Entry}
    (leads : files.locate source.path = .ok (location, entry)) :
    preparation.destination later source = preparation.destination files source := by
  rw [destination, destination, canonical_of_grown grown leads]

/-- A step of the second pass and what is left to do. -/
theorem generateSources_cons {preparation : Preparation} {files after : FileSystem}
    {editor edited : Editor} {source : SourceFile} {later : List SourceFile} {produced : List Path}
    (done : preparation.generateSources files editor (source :: later) =
      (after, .ok (edited, produced))) :
    ∃ original destination changed rest,
      files.readLines source.path = .ok original ∧
      preparation.destination files source = .ok destination ∧
      deliver files destination (editedLines editor.plan original) = (changed, .ok ()) ∧
      preparation.generateSources changed (editor.editLines original).1 later =
        (after, .ok (edited, rest)) ∧
      produced = destination :: rest := by
  rw [generateSources] at done
  split at done
  · cases done
  · rename_i next lines destination begun
    obtain ⟨original, read, rfl, rfl, goal⟩ := editSource_eq_ok begun
    split at done
    · cases done
    · rename_i changed delivered
      generalize shape : preparation.generateSources changed (editor.editLines original).1 later =
        ending at done
      obtain ⟨last, result⟩ := ending
      cases result with
      | error failure => cases done
      | ok finished =>
        cases done
        exact ⟨original, destination, changed, finished.2, read, goal, delivered, shape, rfl⟩

/-- A finished second pass has one output for each source, and has changed nothing but the files
that outputs lead to and missing directories above them. -/
theorem generateSources_confined {preparation : Preparation} {files after : FileSystem}
    {editor edited : Editor} {sources : List SourceFile} {produced : List Path}
    (done : preparation.generateSources files editor sources = (after, .ok (edited, produced))) :
    produced.length = sources.length ∧
      Confined produced (produced.flatMap Path.ancestors) files after := by
  induction sources generalizing files editor produced with
  | nil =>
    cases done
    exact ⟨rfl, Confined.refl _⟩
  | cons source later ih =>
    obtain ⟨original, destination, changed, rest, -, -, delivered, finished, rfl⟩ :=
      generateSources_cons done
    obtain ⟨counted, confined⟩ := ih finished
    have first := deliver_confined delivered
    refine ⟨by simp [counted], ?_⟩
    refine (first.mono ?_ ?_).trans (confined.mono ?_ ?_)
    · simp
    · exact fun above listed => List.mem_flatMap.mpr ⟨destination, List.mem_cons_self, listed⟩
    · exact List.subset_cons_self _ _
    · rw [List.flatMap_cons]
      exact List.subset_append_right _ _

/-- The outputs are where the sources' output goes, and all of them lead to files at the end. -/
def Mapped (preparation : Preparation) (files after : FileSystem) (sources : List SourceFile)
    (produced : List Path) : Prop :=
  List.Forall₂ (fun source destination => preparation.destination files source = .ok destination ∧
    ∃ location content, after.locate destination = .ok (location, .file content)) sources produced

theorem generateSources_mapped {preparation : Preparation} {files after : FileSystem}
    {editor edited : Editor} {sources : List SourceFile} {produced : List Path}
    (done : preparation.generateSources files editor sources = (after, .ok (edited, produced)))
    (located : Located files sources) : preparation.Mapped files after sources produced := by
  induction sources generalizing files editor produced with
  | nil =>
    cases done
    exact .nil
  | cons source later ih =>
    obtain ⟨original, destination, changed, rest, -, goal, delivered, finished, rfl⟩ :=
      generateSources_cons done
    have grown := (deliver_confined delivered).grown
    have locatedLater : Located files later :=
      fun other listed => located other (List.mem_cons_of_mem _ listed)
    refine .cons ⟨goal, ?_⟩ ?_
    · obtain ⟨location, leads⟩ := locate_of_deliver delivered
      obtain ⟨entry, leadsAfter, alike⟩ :=
        locate_of_grown (generateSources_confined finished).2.grown leads
      cases alike with
      | same => exact ⟨location, _, leadsAfter⟩
      | contents _ new => exact ⟨location, new, leadsAfter⟩
    · have rest := (List.forall₂_and_left _ _).mpr
        ⟨locatedLater, ih finished (locatedLater.of_grown grown)⟩
      refine rest.imp ?_
      rintro other destination ⟨⟨location, content, found⟩, mapped, leads⟩
      rw [destination_of_grown grown found] at mapped
      exact ⟨mapped, leads⟩

/-- What a finished second pass leaves of one source: its output holds the edited lines that the
source gave in the first place. -/
def Delivered (plan : List PlannedRule) (files after : FileSystem) (pair : SourceFile × Path) :
    Prop :=
  ∃ lines location, files.readLines pair.1.path = .ok lines ∧
    after.locate pair.2 = .ok (location, .file (encode (Text.ofLines (editedLines plan lines))))

/-- A delivery leaves alone the lines of a source that its output does not lead to. -/
theorem readLines_of_deliver {files changed after : FileSystem} {destination path : Path}
    {lines given : List Text} (delivered : deliver files destination lines = (changed, .ok ()))
    (grown : Grown changed after) (apart : ¬ after.SameFile destination path)
    (read : files.readLines path = .ok given) : changed.readLines path = .ok given := by
  refine (deliver_confined delivered).readLines read ?_
  intro written isFirst same
  rw [List.mem_singleton.mp isFirst] at same
  exact apart (SameFile.of_grown grown same)

/-- An output that is written again later is one of the same source, so it gets the same lines. -/
theorem Delivered.of_later {plan : List PlannedRule} {files changed after : FileSystem}
    {source : SourceFile} {destination : Path} {original : List Text} {location : Location}
    {later : List (SourceFile × Path)} {made : List Path}
    (read : files.readLines source.path = .ok original)
    (leads : changed.locate destination =
      .ok (location, .file (encode (Text.ofLines (editedLines plan original)))))
    (confined : Confined (later.map Prod.snd) made changed after)
    (delivered : ∀ pair ∈ later, Delivered plan changed after pair)
    (undisturbed : ∀ pair ∈ later, ∀ lines,
      files.readLines pair.1.path = .ok lines → changed.readLines pair.1.path = .ok lines)
    (shared : ∀ pair ∈ later, after.SameFile destination pair.2 →
      files.SameFile source.path pair.1.path) :
    Delivered plan files after (source, destination) := by
  refine ⟨original, location, read, confined.locate_file leads ?_⟩
  intro again isLater content there same
  obtain ⟨second, member, rfl⟩ := List.mem_map.mp isLater
  obtain ⟨lines, location', readSecond, holds⟩ := delivered second member
  rw [there] at holds
  cases holds
  have one := shared second member ⟨location, _, same, there⟩
  have readAgain := undisturbed second member original (one.readLines read)
  rw [readSecond] at readAgain
  cases readAgain
  rfl

/-- Outputs that leave the sources after their own as they are: none leads to the file of one, and
two lead to one file only if their sources do. -/
def Separate (files after : FileSystem) (outputs : List (SourceFile × Path)) : Prop :=
  outputs.Pairwise fun first second => ¬ after.SameFile first.2 second.1.path ∧
    (after.SameFile first.2 second.2 → files.SameFile first.1.path second.1.path)

theorem generateSources_separate {preparation : Preparation} {files after : FileSystem}
    {editor edited : Editor} {sources : List SourceFile} {produced : List Path}
    (done : preparation.generateSources files editor sources = (after, .ok (edited, produced)))
    (readable : ∀ source ∈ sources, ∃ lines, files.readLines source.path = .ok lines)
    (separate : Separate files after (sources.zip produced)) :
    ∀ pair ∈ sources.zip produced, Delivered editor.plan files after pair := by
  induction sources generalizing files editor produced with
  | nil => simp
  | cons source later ih =>
    obtain ⟨original, destination, changed, rest, read, -, delivered, finished, rfl⟩ :=
      generateSources_cons done
    obtain ⟨counted, confined⟩ := generateSources_confined finished
    have grown := (deliver_confined delivered).grown
    obtain ⟨first, separateLater⟩ := List.pairwise_cons.mp separate
    -- the delivery disturbs no later source, so the rest is read as it was before
    have undisturbed : ∀ other ∈ later, ∀ lines,
        files.readLines other.path = .ok lines → changed.readLines other.path = .ok lines := by
      intro other listed lines
      obtain ⟨_, pair⟩ := (exists_mem_zip counted.symm).1 other listed
      exact readLines_of_deliver delivered confined.grown (first _ pair).1
    have readableLater : ∀ other ∈ later, ∃ lines, files.readLines other.path = .ok lines :=
      fun other listed => readable other (List.mem_cons_of_mem _ listed)
    have tail : ∀ pair ∈ later.zip rest, Delivered editor.plan changed after pair := by
      rw [← (editor.editLines_spec original).2.2.1]
      refine ih finished ?_ ?_
      · intro other listed
        obtain ⟨lines, readOther⟩ := readableLater other listed
        exact ⟨lines, undisturbed other listed lines readOther⟩
      · exact separateLater.imp fun pair =>
          ⟨pair.1, fun same => SameFile.of_grown grown (pair.2 same)⟩
    intro pair listed
    rcases List.mem_cons.mp listed with rfl | listed
    · obtain ⟨location, leads⟩ := locate_of_deliver delivered
      have whole : (later.zip rest).map Prod.snd = rest := List.map_snd_zip (by omega)
      refine .of_later read leads (whole.symm ▸ confined) tail ?_ ?_
      · exact fun second member => undisturbed second.1 (List.of_mem_zip member).1
      · exact fun second member => (first second member).2
    · obtain ⟨lines, location, readLater, holds⟩ := tail pair listed
      have member := (List.of_mem_zip listed).1
      obtain ⟨before, readBefore⟩ := readableLater pair.1 member
      have same := undisturbed pair.1 member before readBefore
      rw [readLater] at same
      cases same
      exact ⟨lines, location, readBefore, holds⟩

/-- Outputs apart from all sources are separate if those with one file come from one. -/
theorem generateSources_delivered {preparation : Preparation} {files after : FileSystem}
    {editor edited : Editor} {sources : List SourceFile} {produced : List Path}
    (done : preparation.generateSources files editor sources = (after, .ok (edited, produced)))
    (readable : ∀ source ∈ sources, ∃ lines, files.readLines source.path = .ok lines)
    (apart : ∀ destination ∈ produced, ∀ source ∈ sources,
      ¬ after.SameFile destination source.path)
    (shared : ∀ first ∈ sources.zip produced, ∀ second ∈ sources.zip produced,
      after.SameFile first.2 second.2 → files.SameFile first.1.path second.1.path) :
    ∀ pair ∈ sources.zip produced, Delivered editor.plan files after pair := by
  refine generateSources_separate done readable (List.pairwise_of_forall_mem_list ?_)
  intro first isFirst second isSecond
  exact ⟨apart _ (List.of_mem_zip isFirst).2 _ (List.of_mem_zip isSecond).1,
    shared first isFirst second isSecond⟩

/-- A finished second pass has worked on all sources and tells what its editor has counted. -/
theorem generate_eq_ok {preparation : Preparation} {files after : FileSystem} {indexing : Indexing}
    {summary : Summary} (done : preparation.generate files indexing = (after, .ok summary)) :
    ∃ edited, preparation.generateSources files (Editor.ofRules indexing.index preparation.rules
        preparation.settings.declarationAware) preparation.sources =
      (after, .ok (edited, summary.produced)) ∧
      summary.statistics = edited.statistics ∧ summary.filesProcessed = indexing.files := by
  unfold generate at done
  dsimp only at done
  generalize shape : preparation.generateSources files (Editor.ofRules indexing.index
    preparation.rules preparation.settings.declarationAware) preparation.sources = ending at done
  obtain ⟨last, result⟩ := ending
  cases result with
  | error failure => cases done
  | ok finished =>
    cases done
    exact ⟨finished.1, rfl, rfl, rfl⟩

/-- A finished run is made of a first pass over the whole corpus and a second pass with the rules
planned against it. -/
theorem run_eq_ok {preparation : Preparation} {files after : FileSystem} {summary : Summary}
    (ran : preparation.run files = (after, .ok summary)) :
    ∃ corpus edited, ReadAs files preparation.sources corpus ∧
      preparation.generateSources files
          (Editor.ofRules (Indexing.ofFiles corpus).index preparation.rules
            preparation.settings.declarationAware) preparation.sources =
        (after, .ok (edited, summary.produced)) ∧
      summary.filesProcessed = preparation.sources.length := by
  unfold run at ran
  split at ran
  · cases ran
  · rename_i indexing indexed
    obtain ⟨corpus, read, rfl⟩ := index_eq_ok indexed
    obtain ⟨edited, generated, -, processed⟩ := generate_eq_ok ran
    refine ⟨corpus, edited, read, generated, ?_⟩
    rw [processed, Indexing.files_ofFiles]
    exact read.length_eq.symm

end Preparation

end TreeMigration
