import TreeMigration.Proofs.FileSystem.LinkFree
import TreeMigration.Proofs.SourceList.Growth
import Mathlib

/-!
What a list file gives. Each line gives its own source files, whatever stands on the others, so the
lines of two lists one after the other give what the two lists give; and of the lines that name
nothing only those that are not blank are told, each with its number.

`LineGives` says what one line gives by what its path leads to, and has a case for each: a blank
line, a path that leads to nothing, a directory, a file with the ending and any other file.
`lineGives_iff` says that this is what stands at and below the path on the line, blanks around it
left out. Warnings are then counted by line: `mem_warnings_iff` gives the numbers of the lines that
name nothing, and `nodup_warnings` that none is told twice.

A link that leads nowhere counts as nothing. This uses that a path never ends on a link when all
links are followed (`ne_link_of_locate`), which for a relative path needs that it goes at least one
step.
-/
namespace TreeMigration

namespace FileSystem

variable {files : FileSystem}

/-- A walk that goes at least one step does not end at a link. -/
theorem Walks.ne_link {links : Nat} {slashed ending : Bool} {location reached : Location}
    {steps : List Step}
    (walks : Walks files true links slashed location steps (.present reached ending))
    (start : steps = [] → ∀ target, files.entry? location ≠ some (.link target)) (target : Text) :
    files.entry? reached ≠ some (.link target) := by
  generalize shape : Found.present reached ending = found at walks
  induction walks with
  | done =>
    cases shape
    exact start rfl target
  | stay directory rest ih =>
    refine ih ?_ shape
    intro _ other
    rw [directory]
    simp
  | up directory rest ih =>
    refine ih ?_ shape
    intro _ other
    rw [directory_tail directory]
    simp
  | absent => cases shape
  | passed directory short link pass => cases pass
  | follow directory short link follows rest ih =>
    refine ih ?_ shape
    intro _ other
    split
    · rintro ⟨⟩
    · rw [directory]
      simp
  | into directory short held plain rest ih =>
    refine ih ?_ shape
    intro _ other
    rw [held]
    exact fun same => plain other (Option.some.inj same)

/-- A path that does not start at the root goes at least one step. -/
theorem steps_ne_nil_of_relative {path : Path} (spelled : path.text ≠ [])
    (relative : path.isAbsolute = false) : (Route.ofText path.text).steps ≠ [] := by
  cases divided : Text.splitOn '/' path.text with
  | nil => exact absurd divided (Text.splitOn_ne_nil '/' path.text)
  | cons first rest =>
    have filled : first ≠ [] := by
      rintro rfl
      have lead := Path.lead_eq divided spelled
      rw [PathLead.ofFirst, if_pos rfl, path.lead_eq_root_iff, relative] at lead
      cases lead
    have unmarked : '/' ∉ first := Text.not_mem_of_mem_splitOn (divided ▸ List.mem_cons_self)
    have asked : ∃ step, Step.ofSegment first = some step := by
      unfold Step.ofSegment
      split
      · exact ⟨_, rfl⟩
      · split
        · exact ⟨_, rfl⟩
        · rw [dif_pos ⟨filled, unmarked⟩]
          exact ⟨_, rfl⟩
    obtain ⟨step, asked⟩ := asked
    rw [Route.ofText, divided, List.filterMap_cons_some asked]
    exact List.cons_ne_nil _ _

/-- A path leads to what a link leads to, and not to the link. -/
theorem ne_link_of_locate {path : Path} {location : Location} {entry : Entry}
    (located : files.locate path = .ok (location, entry)) (target : Text) :
    entry ≠ .link target := by
  rintro rfl
  obtain ⟨way, slashed, routed, walked, here, -⟩ := locate_eq_ok_iff.mp located
  obtain ⟨spelled, rfl⟩ := eq_ofText_of_route routed
  refine (walkFrom_eq_ok_iff.mp walked).ne_link ?_ target here
  intro none other
  have absolute : (Route.ofText path.text).absolute = true := by
    by_contra relative
    exact steps_ne_nil_of_relative spelled (Bool.not_eq_true _ ▸ relative) none
  rw [absolute]
  rintro ⟨⟩

end FileSystem

namespace SourceList

open FileSystem

variable {files : FileSystem} {extension : Text}

/-- The line is not blank and leads to nothing; a link that leads to nothing counts as nothing. -/
def NamesNothing (files : FileSystem) (line : Text) : Prop :=
  Text.trim line ≠ [] ∧ ∀ found, files.locate ⟨Text.trim line⟩ ≠ .ok found

/-- What a line of a list file gives. -/
inductive LineGives (files : FileSystem) (extension line : Text) : List SourceFile → Prop
  | blank (empty : Text.trim line = []) : LineGives files extension line []
  | missing (nothing : NamesNothing files line) : LineGives files extension line []
  | directory {top : Location} {sources : List SourceFile}
      (located : files.locate ⟨Text.trim line⟩ = .ok (top, .directory))
      (resolved : resolve files ⟨Text.trim line⟩ extension = pure sources) :
      LineGives files extension line sources
  | file {location : Location} {content : ByteArray}
      (located : files.locate ⟨Text.trim line⟩ = .ok (location, .file content))
      (ending : hasEnding (withDot extension) ⟨Text.trim line⟩ = true) :
      LineGives files extension line [⟨⟨Text.trim line⟩, withDot extension⟩]
  | otherFile {location : Location} {content : ByteArray}
      (located : files.locate ⟨Text.trim line⟩ = .ok (location, .file content))
      (notEnding : hasEnding (withDot extension) ⟨Text.trim line⟩ = false) :
      LineGives files extension line []

theorem below_of_nowhere {path : Path} (nowhere : ∀ found, files.locate path ≠ .ok found) :
    below files extension path = [] := by
  rw [List.eq_nil_iff_forall_not_mem]
  intro source member
  obtain ⟨location, entry, located⟩ := exists_locate_of_mem_below member
  exact nowhere _ located

theorem nowhere_of_missing {path : Path} (missing : ¬ files.pathExists path = true) :
    ∀ found, files.locate path ≠ .ok found :=
  fun _ located => missing (pathExists_iff.mpr ⟨_, _, located⟩)

theorem nowhere_of_empty {t : Text} (empty : t = []) :
    ∀ found, files.locate ⟨t⟩ ≠ .ok found :=
  fun _ located => text_ne_nil_of_locate located empty

/-- A line gives what is at and below the path on it. -/
theorem lineGives_iff {line : Text} {part : List SourceFile} :
    LineGives files extension line part ↔
      part = below files (withDot extension) ⟨Text.trim line⟩ := by
  constructor
  · intro gives
    cases gives with
    | blank empty => exact (below_of_nowhere (nowhere_of_empty empty)).symm
    | missing nothing => exact (below_of_nowhere nothing.2).symm
    | directory located resolved =>
      have directory := isDirectory_iff.mpr ⟨_, located⟩
      rw [resolve, if_pos directory] at resolved
      exact (Except.ok.inj (congrArg Noted.result resolved)).symm
    | file located ending =>
      rw [below, if_pos (isFile_iff.mpr ⟨_, _, located⟩), if_pos ending]
    | otherFile located notEnding =>
      rw [below, if_pos (isFile_iff.mpr ⟨_, _, located⟩),
        if_neg (by rw [notEnding]; exact Bool.false_ne_true)]
  · rintro rfl
    by_cases empty : Text.trim line = []
    · rw [below_of_nowhere (nowhere_of_empty empty)]
      exact .blank empty
    cases located : files.locate ⟨Text.trim line⟩ with
    | error cause =>
      have nowhere : ∀ found, files.locate ⟨Text.trim line⟩ ≠ .ok found := by simp [located]
      rw [below_of_nowhere nowhere]
      exact .missing ⟨empty, nowhere⟩
    | ok found =>
      obtain ⟨location, entry⟩ := found
      cases entry with
      | directory => exact .directory located (if_pos (isDirectory_iff.mpr ⟨_, located⟩))
      | file content =>
        rw [below, if_pos (isFile_iff.mpr ⟨_, _, located⟩)]
        split
        · rename_i ending
          exact .file located ending
        · rename_i notEnding
          exact .otherFile located (Bool.not_eq_true _ ▸ notEnding)
      | link target => exact absurd rfl (ne_link_of_locate located target)

/-- A line that leads to nothing gives nothing, however it is told. -/
theorem ofListLines_cons (list : Path) (number : Nat) (line : Text) (later : List Text) :
    (ofListLines files extension list number (line :: later)).2 =
      below files extension ⟨Text.trim line⟩ ++
        (ofListLines files extension list (number + 1) later).2 := by
  rw [ofListLines]
  split
  · rename_i empty
    rw [below_of_nowhere (nowhere_of_empty (List.isEmpty_iff.mp empty)), List.nil_append]
  · split
    · rfl
    · rename_i missing
      rw [below_of_nowhere (nowhere_of_missing missing), List.nil_append]

/-- The lines of a list file give their source files one after the other. -/
theorem ofListLines_snd (list : Path) (number : Nat) (lines : List Text) :
    (ofListLines files extension list number lines).2 =
      lines.flatMap fun line => below files extension ⟨Text.trim line⟩ := by
  induction lines generalizing number with
  | nil => rfl
  | cons line later ih => rw [ofListLines_cons, ih, List.flatMap_cons]

/-- A line is told exactly if it is not blank and leads to nothing. -/
theorem warnings_cons (list : Path) (number : Nat) (line : Text) (later : List Text) :
    NamesNothing files line ∧ (ofListLines files extension list number (line :: later)).1 =
        .missingEntry list number (Text.trim line) ::
          (ofListLines files extension list (number + 1) later).1 ∨
      ¬ NamesNothing files line ∧ (ofListLines files extension list number (line :: later)).1 =
        (ofListLines files extension list (number + 1) later).1 := by
  rw [ofListLines]
  split
  · rename_i empty
    exact .inr ⟨fun nothing => nothing.1 (List.isEmpty_iff.mp empty), rfl⟩
  · rename_i filled
    split
    · rename_i present
      obtain ⟨location, entry, located⟩ := pathExists_iff.mp present
      exact .inr ⟨fun nothing => nothing.2 _ located, rfl⟩
    · rename_i missing
      have notBlank : Text.trim line ≠ [] := fun empty => filled (List.isEmpty_iff.mpr empty)
      exact .inl ⟨⟨notBlank, nowhere_of_missing missing⟩, rfl⟩

/-- The lines that name nothing are told with their numbers. -/
theorem mem_warnings_iff {list : Path} {number : Nat} {lines : List Text} {warning : Warning} :
    warning ∈ (ofListLines files extension list number lines).1 ↔
      ∃ index line, lines[index]? = some line ∧ NamesNothing files line ∧
        warning = .missingEntry list (number + index) (Text.trim line) := by
  induction lines generalizing number with
  | nil => simp [ofListLines]
  | cons line later ih =>
    have further : (∃ index other, later[index]? = some other ∧ NamesNothing files other ∧
          warning = .missingEntry list (number + 1 + index) (Text.trim other)) ↔
        ∃ index other, (line :: later)[index + 1]? = some other ∧ NamesNothing files other ∧
          warning = .missingEntry list (number + (index + 1)) (Text.trim other) := by
      simp only [List.getElem?_cons_succ, Nat.add_assoc, Nat.add_comm 1]
    rcases warnings_cons list number line later with ⟨nothing, told⟩ | ⟨something, untold⟩
    · rw [told, List.mem_cons, ih, further]
      constructor
      · rintro (rfl | ⟨index, other, here, nothing, rfl⟩)
        · exact ⟨0, line, rfl, nothing, rfl⟩
        · exact ⟨index + 1, other, here, nothing, rfl⟩
      · rintro ⟨index, other, here, nothing, rfl⟩
        cases index with
        | zero =>
          cases here
          exact .inl rfl
        | succ index => exact .inr ⟨index, other, here, nothing, rfl⟩
    · rw [untold, ih, further]
      constructor
      · rintro ⟨index, other, here, nothing, rfl⟩
        exact ⟨index + 1, other, here, nothing, rfl⟩
      · rintro ⟨index, other, here, nothing, rfl⟩
        cases index with
        | zero =>
          cases here
          exact absurd nothing something
        | succ index => exact ⟨index, other, here, nothing, rfl⟩

/-- No line is told twice. -/
theorem nodup_warnings (files : FileSystem) (extension : Text) (list : Path) (number : Nat)
    (lines : List Text) : (ofListLines files extension list number lines).1.Nodup := by
  induction lines generalizing number with
  | nil => exact List.nodup_nil
  | cons line later ih =>
    rcases @warnings_cons files extension list number line later with ⟨-, told⟩ | ⟨-, untold⟩
    · rw [told]
      refine List.nodup_cons.mpr ⟨?_, ih (number + 1)⟩
      intro again
      obtain ⟨index, other, -, -, same⟩ := mem_warnings_iff.mp again
      injection same with _ numbers
      omega
    · rw [untold]
      exact ih (number + 1)

/-! ## The whole list file -/

theorem not_isDirectory_of_isFile {path : Path} (file : files.isFile path = true) :
    ¬ files.isDirectory path = true := by
  intro directory
  obtain ⟨_, _, located⟩ := isFile_iff.mp file
  obtain ⟨_, leads⟩ := isDirectory_iff.mp directory
  cases located.symm.trans leads

/-- A list file gives what its lines give. -/
theorem resolve_of_lines {list : Path} {lines : List Text}
    (read : files.readLines list = .ok lines) :
    (resolve files list extension).warnings =
        (ofListLines files (withDot extension) list 1 lines).1 ∧
      (resolve files list extension).result =
        .ok (lines.flatMap fun line => below files (withDot extension) ⟨Text.trim line⟩) := by
  obtain ⟨location, content, located, -⟩ := readLines_eq_ok_iff.mp read
  have file := isFile_iff.mpr ⟨_, _, located⟩
  rw [resolve, if_neg (not_isDirectory_of_isFile file), if_pos file, read, ← ofListLines_snd list 1]
  exact ⟨List.append_nil _, rfl⟩

theorem exists_lines_of_resolve {list : Path} {sources : List SourceFile}
    (file : files.isFile list = true)
    (resolved : (resolve files list extension).result = .ok sources) :
    ∃ lines, files.readLines list = .ok lines ∧
      sources = lines.flatMap fun line => below files (withDot extension) ⟨Text.trim line⟩ := by
  have found := resolved
  rw [resolve, if_neg (not_isDirectory_of_isFile file), if_pos file] at found
  obtain ⟨lines, read, -⟩ := Noted.bind_result_eq_ok.mp found
  have whole := (@resolve_of_lines files extension _ _ read).2
  exact ⟨lines, read, Except.ok.inj (resolved.symm.trans whole)⟩

def namesSomething (files : FileSystem) (line : Text) : Bool :=
  files.pathExists ⟨Text.trim line⟩

/-- Lines that lead to nothing can be left out. -/
theorem flatMap_filter_namesSomething (lines : List Text) :
    ((lines.filter (namesSomething files)).flatMap fun line =>
        below files extension ⟨Text.trim line⟩) =
      lines.flatMap fun line => below files extension ⟨Text.trim line⟩ := by
  induction lines with
  | nil => rfl
  | cons line later ih =>
    rw [List.filter_cons]
    split
    · rw [List.flatMap_cons, List.flatMap_cons, ih]
    · rename_i missing
      rw [List.flatMap_cons, below_of_nowhere (nowhere_of_missing missing), List.nil_append, ih]

theorem exists_parts (lines : List Text) :
    ∃ parts, List.Forall₂ (LineGives files extension) lines parts ∧
      (lines.flatMap fun line => below files (withDot extension) ⟨Text.trim line⟩) =
        parts.flatten := by
  refine ⟨lines.map fun line => below files (withDot extension) ⟨Text.trim line⟩, ?_, rfl⟩
  rw [List.forall₂_map_right_iff]
  exact List.forall₂_same.mpr fun line _ => lineGives_iff.mpr rfl

/-- A list file gives what its lines give, one after the other and repeats kept, and tells each line
that is not blank and names nothing, once and by its number. So lists whose lines follow one another
give source files that do, lines that name nothing can be left out, and all that is given are
existing files with the ending. -/
theorem resolve_list {files : FileSystem} {list : Path} {extension : Text}
    {sources : List SourceFile} (file : files.isFile list = true)
    (resolved : (resolve files list extension).result = .ok sources) :
    ∃ lines, files.readLines list = .ok lines ∧
      (∃ parts, List.Forall₂ (LineGives files extension) lines parts ∧
        sources = parts.flatten) ∧
      ((resolve files list extension).warnings.Nodup ∧
        ∀ warning, warning ∈ (resolve files list extension).warnings ↔
          ∃ index line, lines[index]? = some line ∧ NamesNothing files line ∧
            warning = .missingEntry list (index + 1) (Text.trim line)) ∧
      (∀ first second firstLines secondLines, files.readLines first = .ok firstLines →
        files.readLines second = .ok secondLines → lines = firstLines ++ secondLines →
        ∃ before after, (resolve files first extension).result = .ok before ∧
          (resolve files second extension).result = .ok after ∧ sources = before ++ after) ∧
      (∀ other kept, files.readLines other = .ok kept →
        kept.filter (namesSomething files) = lines.filter (namesSomething files) →
        (resolve files other extension).result = .ok sources) ∧
      ∀ source ∈ sources, Admitted files (withDot extension) source := by
  obtain ⟨lines, read, rfl⟩ := exists_lines_of_resolve file resolved
  refine ⟨lines, read, exists_parts lines, ?_, ?_, ?_, admitted_of_resolve resolved⟩
  · rw [(resolve_of_lines read).1]
    exact ⟨nodup_warnings _ _ _ _ _,
      fun _ => by simp only [mem_warnings_iff, Nat.add_comm 1]⟩
  · rintro first second firstLines secondLines readFirst readSecond rfl
    exact ⟨_, _, (resolve_of_lines readFirst).2, (resolve_of_lines readSecond).2,
      List.flatMap_append⟩
  · intro other kept readOther same
    rw [(resolve_of_lines readOther).2, ← flatMap_filter_namesSomething kept, same,
      flatMap_filter_namesSomething]

namespace Repeating

def tree : FileSystem :=
  .ofTree [
    (⟨"src"⟩, .directory),
    (⟨"src/x.kt"⟩, .file (encode "1")),
    (⟨"src/notes.txt"⟩, .file (encode "2")),
    (⟨"broken.kt"⟩, .link "nowhere"),
    (⟨"list"⟩, .file (encode " src/x.kt\n\nbroken.kt\nsrc/notes.txt\nsrc\n \ngone \nsrc/x.kt"))]

def lines : List Text :=
  [" src/x.kt", "", "broken.kt", "src/notes.txt", "src", " ", "gone ", "src/x.kt"]

def sources : List SourceFile :=
  [⟨⟨"src/x.kt"⟩, ".kt"⟩, ⟨⟨"src/x.kt"⟩, ".kt"⟩, ⟨⟨"src/x.kt"⟩, ".kt"⟩]

end Repeating

theorem resolve_list_repeating :
    Repeating.tree.isFile ⟨"list"⟩ = true ∧
    (resolve Repeating.tree ⟨"list"⟩ "kt").result = .ok Repeating.sources ∧
    (∃ parts, List.Forall₂ (LineGives Repeating.tree "kt") Repeating.lines parts ∧
      Repeating.sources = parts.flatten) ∧
    .missingEntry ⟨"list"⟩ 3 "broken.kt" ∈ (resolve Repeating.tree ⟨"list"⟩ "kt").warnings ∧
    .missingEntry ⟨"list"⟩ 7 "gone" ∈ (resolve Repeating.tree ⟨"list"⟩ "kt").warnings := by
  have file : Repeating.tree.isFile ⟨"list"⟩ = true := by decide +kernel
  have resolved : (resolve Repeating.tree ⟨"list"⟩ "kt").result = .ok Repeating.sources := by
    cbv
  have written : Repeating.tree.readLines ⟨"list"⟩ = .ok Repeating.lines := by decide +kernel
  have broken := @nowhere_of_missing Repeating.tree ⟨"broken.kt"⟩ (by decide +kernel)
  have gone := @nowhere_of_missing Repeating.tree ⟨"gone"⟩ (by decide +kernel)
  obtain ⟨lines, read, gives, ⟨-, told⟩, -⟩ := resolve_list file resolved
  cases written.symm.trans read
  exact ⟨file, resolved, gives, (told _).mpr ⟨2, _, rfl, ⟨by decide, broken⟩, rfl⟩,
    (told _).mpr ⟨6, _, rfl, ⟨by decide, gone⟩, rfl⟩⟩

end SourceList

end TreeMigration
