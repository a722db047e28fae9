import TreeMigration.Proofs.Generation.Mirroring
import TreeMigration.Proofs.Path.Continuing

/-!
Outputs and references mirror the source tree. A source file in some directories below the source
root has its output in the same directories below the destination root, under the same name but for
the extension, and its reference likewise below the reference root. So no two source files have one
output.

`SourceAt` says where a source stands: the directories down from the top of the source tree and the
stem of its name. How the root is spelled, and through which links it leads, has no part in the
answer, as everything goes by the absolute path (`SourceAt.exists_destination`).

That absolute path need not exist. A source that is read by a short path can stand so deep that its
absolute path reaches the limit, and then it has no destination; where the source tree has no links,
the length of the absolute path decides. The last part of the module has such a source, in a tree
made of directories with the longest names there are.
-/
namespace TreeMigration

/-- The path, as seen from the root of a tree, of a file in some directories. -/
def filePath (directories : List Text) (stem extension : Text) : Path :=
  PathParts.path ⟨.bare, directories ++ [stem ++ extension]⟩

theorem parts_of_ordinary {names : List Text} (ordinary : Ordinary names) :
    (PathParts.path ⟨.bare, names⟩).parts = ⟨.bare, names⟩ := by
  refine PathParts.parts_path ⟨fun segment member => (ordinary segment member).2.2, ?_⟩ (by simp)
  rintro -
  cases names with
  | nil => simp
  | cons first rest =>
    have counts := (ordinary first List.mem_cons_self).1
    simpa [PathParts.isVoid] using counts

/-- A file seen from a root has the names of the root and then its own. -/
theorem components_join_filePath {root : Path} {directories : List Text} {stem extension : Text}
    (ordinary : Ordinary (directories ++ [stem ++ extension])) :
    (root.join (filePath directories stem extension)).components =
      (root.parts.lead, root.parts.names ++ (directories ++ [stem ++ extension])) := by
  have parts := parts_of_ordinary ordinary
  have names : (filePath directories stem extension).parts.names =
      directories ++ [stem ++ extension] := by
    rw [Path.names_eq]
    exact namesIn_path_of_ordinary ordinary
  rw [Path.components_join_of_bare (by rw [filePath, parts]), names]

namespace Preparation

open FileSystem

/-- A source leads to a location in some directories below the top of the source tree, and the name
of the file there ends in the source extension and is a name with the target extension too. -/
structure SourceAt (preparation : Preparation) (files : FileSystem) (top location : Location)
    (source : SourceFile) (directories : List Text) (stem : Text) : Prop where
  extension : source.extension = withDot preparation.settings.sourceExtension
  leads : ∃ content, files.locate source.path = .ok (location, .file content)
  named : location.names = top.names ++ (directories ++ [stem ++ source.extension])
  renames : Ordinary [stem ++ withDot preparation.settings.targetExtension]

section SourceAt

variable {preparation : Preparation} {files : FileSystem} {top location : Location}
  {source : SourceFile} {directories : List Text} {stem : Text}

theorem SourceAt.ordinary
    (at' : preparation.SourceAt files top location source directories stem) :
    Ordinary (directories ++ [stem ++ source.extension]) := by
  intro segment member
  exact Location.ordinary_of_mem_names (at'.named ▸ List.mem_append_right _ member)

/-- The names of the output are those of the source with the extension swapped. -/
theorem SourceAt.ordinary_renamed
    (at' : preparation.SourceAt files top location source directories stem) :
    Ordinary (directories ++ [stem ++ withDot preparation.settings.targetExtension]) := by
  intro segment member
  rcases List.mem_append.mp member with inside | last
  · exact at'.ordinary segment (List.mem_append_left _ inside)
  · exact at'.renames segment last

/-- A source file in the source tree that has an absolute path has an output, in the same place of
the destination tree. -/
theorem SourceAt.exists_destination
    (at' : preparation.SourceAt files top location source directories stem)
    (sourceRoot : preparation.sourceRoot = Location.path top)
    (absolute : files.canonical source.path = .ok (Location.path location)) :
    ∃ destination, preparation.destination files source = .ok destination ∧
      destination.components =
        (preparation.settings.destinationRoot.join
          (filePath directories stem (withDot preparation.settings.targetExtension))).components := by
  have continues : (Location.path location).components =
      ((Location.path top).parts.lead,
        (Location.path top).parts.names ++ (directories ++ [stem ++ source.extension])) := by
    rw [Path.components, Location.names_parts_path, Location.names_parts_path, at'.named,
      Location.parts_path, Location.parts_path]
  obtain ⟨relative, stripped, bare, named⟩ := Path.stripPrefix?_of_continues continues
  obtain ⟨-, noDots, -⟩ := at'.ordinary (stem ++ source.extension) (by simp)
  have fileName : relative.fileName? = some (stem ++ source.extension) := by
    simp [Path.fileName?, named, noDots]
  have suffix : source.extension.isSuffixOf? (stem ++ source.extension) = some stem :=
    List.isSuffixOf?_eq_some_iff_append_eq.mpr rfl
  have goal : preparation.destination files source =
      .ok ((preparation.settings.destinationRoot.join relative).withFileName
        (stem ++ withDot preparation.settings.targetExtension)) := by
    rw [destination, absolute, onPath_eq_ok_iff.mpr rfl]
    simp only [bind, Except.bind, sourceRoot, stripped, mirrored, fileName, Option.bind_some,
      suffix]
  have joined := @Path.components_join_of_bare preparation.settings.destinationRoot _ bare
  obtain ⟨lead, names⟩ := Prod.mk.inj joined
  rw [named, ← List.append_assoc] at names
  obtain ⟨name, same⟩ := Name.exists_text_eq (at'.renames _ List.mem_cons_self)
  refine ⟨_, goal, ?_⟩
  rw [← same, Path.components_withFileName_of_name names noDots, same, lead,
    components_join_filePath at'.ordinary_renamed, List.append_assoc]

/-- An output is told from the absolute path of its source. -/
theorem SourceAt.absolute_of_destination
    (at' : preparation.SourceAt files top location source directories stem) {destination : Path}
    (goal : preparation.destination files source = .ok destination) :
    files.canonical source.path = .ok (Location.path location) := by
  obtain ⟨content, leads⟩ := at'.leads
  obtain ⟨absolute, found, -⟩ := bind_eq_ok.mp goal
  rw [onPath_eq_ok_iff] at found
  rw [found, eq_path_of_canonical leads found]

end SourceAt

/-- Destinations and references mirror the source tree, however its root is spelled. A path down from
the root leads to a file exactly if the file stands where the names say and the path is possible.

A source file whose path has an absolute path has a destination, which is the destination root joined
with the file's path in the source tree, its extension swapped; below the same destination root that
has a reference path, which is any reference root joined with the same path. Only an absolute path
that is too long, the file's own or one on the way to it, keeps a source file from having a
destination; on a path down from the root only that of the file can. Different source files have
different destinations. -/
theorem destination_mirrors_source_tree {preparation : Preparation} {files : FileSystem}
    {top : Location}
    (root : files.locate preparation.settings.sourceRoot = .ok (top, .directory))
    (absolute : files.canonical preparation.settings.sourceRoot = .ok preparation.sourceRoot)
    (free : files.LinkFreeBelow top) :
    (∀ relative : Path, relative.GoesDown → ∀ location content,
      files.locate (preparation.settings.sourceRoot.join relative) =
          .ok (location, .file content) ↔
        location.names = top.names ++ relative.parts.names ∧
          files.entry? location = some (.file content) ∧ relative.EndsInName ∧
          '\x00' ∉ (preparation.settings.sourceRoot.join relative).text ∧
          Text.byteSize (preparation.settings.sourceRoot.join relative).text < pathLimit ∧
          ∀ segment ∈ relative.parts.names, Text.byteSize segment ≤ nameLimit) ∧
    (∀ location source directories stem,
      preparation.SourceAt files top location source directories stem →
      (files.canonical source.path = .ok (Location.path location) ∧
        ∃ destination, preparation.destination files source = .ok destination ∧
          destination.components =
            (preparation.settings.destinationRoot.join (filePath directories stem
              (withDot preparation.settings.targetExtension))).components ∧
          ∀ referenceRoot, ∃ reference,
            Comparison.referencePath preparation.settings.destinationRoot referenceRoot
              destination = .ok reference ∧
            reference.components =
              (referenceRoot.join (filePath directories stem
                (withDot preparation.settings.targetExtension))).components) ∨
      (files.canonical source.path = .error .nameTooLong ∧
        preparation.destination files source = .error (.file source.path .nameTooLong))) ∧
    (∀ location source directories stem relative,
      preparation.SourceAt files top location source directories stem → relative.GoesDown →
      source.path = preparation.settings.sourceRoot.join relative →
      ((∃ destination, preparation.destination files source = .ok destination) ↔
        Text.byteSize (Location.path location).text < pathLimit)) ∧
    (∀ location source directories stem location' source' directories' stem',
      preparation.SourceAt files top location source directories stem →
      preparation.SourceAt files top location' source' directories' stem' → location ≠ location' →
      ∀ destination destination', preparation.destination files source = .ok destination →
        preparation.destination files source' = .ok destination' →
        destination.components ≠ destination'.components) := by
  have sourceRoot := eq_path_of_canonical root absolute
  refine ⟨?_, ?_, ?_, ?_⟩
  · intro relative goes location content
    exact locate_join_eq_file_iff root free goes
  · intro location source directories stem at'
    obtain ⟨content, leads⟩ := at'.leads
    rcases canonical_of_locate leads with found | long
    · refine .inl ⟨found, ?_⟩
      obtain ⟨destination, goal, same⟩ := at'.exists_destination sourceRoot found
      refine ⟨destination, goal, same, fun referenceRoot => ?_⟩
      rw [components_join_filePath at'.ordinary_renamed] at same
      rw [components_join_filePath at'.ordinary_renamed]
      exact Comparison.referencePath_of_continues same referenceRoot
    · refine .inr ⟨long, ?_⟩
      rw [destination, long]
      rfl
  · intro location source directories stem relative at' goes spelled
    obtain ⟨content, leads⟩ := at'.leads
    rw [← canonical_join_eq_ok_iff root absolute free goes (spelled ▸ leads), ← spelled]
    constructor
    · rintro ⟨destination, goal⟩
      exact at'.absolute_of_destination goal
    · intro found
      obtain ⟨destination, goal, -⟩ := at'.exists_destination sourceRoot found
      exact ⟨destination, goal⟩
  · intro location source directories stem location' source' directories' stem' at' other apart
      destination destination' goal goal' equal
    obtain ⟨_, found, same⟩ :=
      at'.exists_destination sourceRoot (at'.absolute_of_destination goal)
    obtain ⟨_, found', same'⟩ :=
      other.exists_destination sourceRoot (other.absolute_of_destination goal')
    cases goal.symm.trans found
    cases goal'.symm.trans found'
    rw [same, same', components_join_filePath at'.ordinary_renamed,
      components_join_filePath other.ordinary_renamed] at equal
    have names := List.append_cancel_left (Prod.mk.inj equal).2
    obtain ⟨rfl, last⟩ := List.append_inj' names rfl
    obtain rfl := List.append_cancel_right (List.singleton_inj.mp last)
    apply apart
    apply Location.names_injective
    rw [at'.named, other.named, at'.extension, other.extension]

namespace Winding

/-- A source tree beside a link to the directory that it is in. -/
def files : FileSystem :=
  .ofTree [
    (⟨"real"⟩, .directory),
    (⟨"way"⟩, .link "./real"),
    (⟨"real/src"⟩, .directory),
    (⟨"real/src/a.kt"⟩, .directory),
    (⟨"real/src/a.kt/b.kt.kt"⟩, .file (encode "x")),
    (⟨"real/src/.kt"⟩, .file (encode "y"))]

def real : Name := ⟨"real", by decide⟩

def src : Name := ⟨"src", by decide⟩

/-- The source root is spelled through the link, with slashes and dots to spare. -/
def preparation : Preparation where
  settings :=
    { Settings.default with
      sourceRoot := ⟨"way/.//src/a.kt/..//"⟩
      destinationRoot := ⟨"./out//"⟩
      sourceExtension := "kt"
      targetExtension := "swift" }
  sourceRoot := ⟨"/real/src"⟩
  sources := [⟨⟨"way/src/a.kt//b.kt.kt"⟩, ".kt"⟩, ⟨⟨"real/src/./.kt"⟩, ".kt"⟩]
  rules := []
  refused := 0

def inner : Location := [⟨"b.kt.kt", by decide⟩, ⟨"a.kt", by decide⟩, src, real]

def outer : Location := [⟨".kt", by decide⟩, src, real]

/-- A file in a directory whose name ends like a source file. -/
theorem inner_at : preparation.SourceAt files [src, real] inner
    ⟨⟨"way/src/a.kt//b.kt.kt"⟩, ".kt"⟩ ["a.kt"] "b.kt" where
  extension := by decide
  leads := ⟨encode "x", by decide +kernel⟩
  named := by decide
  renames := by
    unfold Ordinary
    decide

/-- A file whose name is the extension alone. -/
theorem outer_at : preparation.SourceAt files [src, real] outer
    ⟨⟨"real/src/./.kt"⟩, ".kt"⟩ [] [] where
  extension := by decide
  leads := ⟨encode "y", by decide +kernel⟩
  named := by decide
  renames := by
    unfold Ordinary
    decide

end Winding

/-- Only the last extension is swapped, and the reference root may be the empty path. -/
theorem destination_mirrors_source_tree_winding :
    Winding.files.LinkFreeBelow [Winding.src, Winding.real] ∧
    (∃ destination, Winding.preparation.destination Winding.files
        ⟨⟨"way/src/a.kt//b.kt.kt"⟩, ".kt"⟩ = .ok destination ∧
      destination.components = (PathLead.current, (["out", "a.kt", "b.kt.swift"] : List Text)) ∧
      ∃ reference, Comparison.referencePath ⟨"./out//"⟩ ⟨[]⟩ destination = .ok reference ∧
        reference.components = (PathLead.bare, (["a.kt", "b.kt.swift"] : List Text))) ∧
    ∀ destination destination',
      Winding.preparation.destination Winding.files ⟨⟨"way/src/a.kt//b.kt.kt"⟩, ".kt"⟩ =
        .ok destination →
      Winding.preparation.destination Winding.files ⟨⟨"real/src/./.kt"⟩, ".kt"⟩ =
        .ok destination' →
      destination.components ≠ destination'.components := by
  have root : Winding.files.locate Winding.preparation.settings.sourceRoot =
      .ok ([Winding.src, Winding.real], .directory) := by decide +kernel
  have absolute : Winding.files.canonical Winding.preparation.settings.sourceRoot =
      .ok Winding.preparation.sourceRoot := by decide +kernel
  have found : Winding.files.canonical ⟨"way/src/a.kt//b.kt.kt"⟩ =
      .ok (Location.path Winding.inner) := by decide +kernel
  have free : Winding.files.LinkFreeBelow [Winding.src, Winding.real] := by decide +kernel
  obtain ⟨-, mirrors, -, apart⟩ := destination_mirrors_source_tree root absolute free
  obtain ⟨-, destination, goal, same, references⟩ :=
    (mirrors _ _ _ _ Winding.inner_at).resolve_right fun ⟨failed, _⟩ => by
      cases found.symm.trans failed
  obtain ⟨reference, found, beside⟩ := references ⟨[]⟩
  refine ⟨free, ⟨destination, goal, ?_, reference, found, ?_⟩, ?_⟩
  · rw [same]
    decide +kernel
  · rw [beside]
    decide +kernel
  · exact apart _ _ _ _ _ _ _ _ Winding.inner_at Winding.outer_at (by decide)

namespace Deep

def long : Name := ⟨List.replicate 255 'd', by decide +kernel⟩

def src : Name := ⟨"src", by decide⟩

def script : Name := ⟨"x.kt", by decide⟩

/-- So many directories, each in the one before. -/
def directories : Nat → FileSystem
  | 0 => .empty
  | depth + 1 => (directories depth).place (List.replicate depth long) long .directory

def top : Location := src :: List.replicate 15 long

/-- A source tree in a deep directory, which relative paths start from. -/
def files : FileSystem :=
  ((((directories 15).place (List.replicate 15 long) src .directory).place top long
    .directory).place (long :: top) script (.file (encode "x"))).enter (List.replicate 15 long)

def source : SourceFile := ⟨⟨"src/" ++ long.text ++ "/x.kt"⟩, ".kt"⟩

def preparation : Preparation where
  settings :=
    { Settings.default with
      sourceRoot := ⟨"src"⟩
      destinationRoot := ⟨"out"⟩
      sourceExtension := "kt"
      targetExtension := "swift" }
  sourceRoot := Location.path top
  sources := [source]
  rules := []
  refused := 0

/-- The file stands in the source tree, and its path there is a short one. -/
theorem source_at : preparation.SourceAt files top (script :: long :: top) source [long.text] "x"
    where
  extension := by decide
  leads := ⟨encode "x", by decide +kernel⟩
  named := by decide +kernel
  renames := by
    unfold Ordinary
    decide

end Deep

/-- A source file in a source tree without links can have no destination, because its absolute path
is too long. -/
theorem no_destination_deep :
    Deep.files.locate Deep.preparation.settings.sourceRoot = .ok (Deep.top, .directory) ∧
    Deep.files.canonical Deep.preparation.settings.sourceRoot =
      .ok Deep.preparation.sourceRoot ∧
    Deep.files.LinkFreeBelow Deep.top ∧
    Deep.preparation.SourceAt Deep.files Deep.top (Deep.script :: Deep.long :: Deep.top)
      Deep.source [Deep.long.text] "x" ∧
    Deep.preparation.destination Deep.files Deep.source =
      .error (.file Deep.source.path .nameTooLong) :=
  ⟨by decide +kernel, by decide +kernel, by decide +kernel, Deep.source_at, by decide +kernel⟩

end Preparation

end TreeMigration
