import TreeMigration.Failure

/-!
The source files of a run, in order. A directory gives the files below it, sorted by name and each
directory in the place of its name; a list file gives what its lines name, in line order.

A line of a list file is a path as a walk reads it, relative to the working directory, and may name
a directory, whose files then stand in the place of the line. Blank lines are passed over. A line
that leads nowhere is warned of with its number and gives nothing. A file is taken if its last
component ends in the extension; a link is taken for what it leads to.

`below` goes down a directory by the text of the path, which grows with every name. A path of
`pathLimit` bytes leads nowhere, so the recursion ends without any bound on the tree and also where
a link leads back up.
-/
namespace TreeMigration

/-- A source file with the ending it was admitted for. -/
structure SourceFile where
  path : Path
  extension : Text
  deriving DecidableEq, Repr

/-- An extension with its dot; the empty one stays empty. -/
def withDot (extension : Text) : Text :=
  if extension.isEmpty || extension.head? == some '.' then extension else '.' :: extension

namespace SourceList

/-- Whether the last component of a path is a name with the given ending. -/
def hasEnding (extension : Text) (path : Path) : Bool :=
  path.fileName?.any (extension.isSuffixOf ·)

/-- A path is shorter than one into it, so a path long enough leads nowhere. -/
theorem byteSize_lt_of_isDirectory {files : FileSystem} {path : Path}
    (directory : files.isDirectory path = true) :
    Text.byteSize path.text < FileSystem.pathLimit := by
  unfold FileSystem.isDirectory FileSystem.locate FileSystem.route at directory
  split at directory
  · rename_i found
    obtain ⟨route, routed, -⟩ := bind_eq_ok.mp found
    split at routed
    · simp at routed
    · split at routed
      · simp at routed
      · split at routed
        · simp at routed
        · omega
  · simp at directory

/-- The path of a name in a directory is longer than that of the directory. -/
theorem byteSize_lt_join (path : Path) (name : Name) :
    Text.byteSize path.text < Text.byteSize (path.join ⟨name.text⟩).text := by
  have positive : 0 < Text.byteSize name.text := by
    match shape : name.text with
    | [] => exact absurd shape name.ordinary.1
    | c :: rest =>
      have := Char.utf8Size_pos c
      simp only [Text.byteSize]
      omega
  have relative : (Path.mk name.text).isAbsolute = false := by
    match shape : name.text with
    | [] => rfl
    | c :: rest =>
      have absent := name.ordinary.2.2.2
      simp only [shape, List.mem_cons, not_or] at absent
      simp only [Path.isAbsolute, List.head?_cons, beq_eq_false_iff_ne, ne_eq, Option.some.injEq]
      exact fun same => absent.1 same.symm
  unfold Path.join
  rw [relative]
  simp only [Bool.false_eq_true, if_false]
  split
  · simp only [Text.byteSize_append]
    omega
  · simp only [Text.byteSize_append, Text.byteSize]
    omega

/-- The files with the given ending at and below a path, which the path itself may be. -/
def below (files : FileSystem) (extension : Text) (path : Path) : List SourceFile :=
  if files.isFile path then
    if hasEnding extension path then [⟨path, extension⟩] else []
  else if directory : files.isDirectory path = true then
    have := byteSize_lt_of_isDirectory directory
    (files.list path).flatMap fun name => below files extension (path.join ⟨name.text⟩)
  else []
termination_by FileSystem.pathLimit - Text.byteSize path.text
decreasing_by
  have := byteSize_lt_join path name
  omega

/-- What the lines of a list file give, of which the first has the given number. -/
def ofListLines (files : FileSystem) (extension : Text) (list : Path) :
    Nat → List Text → List Warning × List SourceFile
  | _, [] => ([], [])
  | number, line :: later =>
    let rest := ofListLines files extension list (number + 1) later
    let entry := Text.trim line
    if entry.isEmpty then rest
    else if files.pathExists ⟨entry⟩ then (rest.1, below files extension ⟨entry⟩ ++ rest.2)
    else (.missingEntry list number entry :: rest.1, rest.2)

def resolve (files : FileSystem) (root : Path) (extension : Text) : Noted (List SourceFile) :=
  let extension := withDot extension
  if files.isDirectory root then pure (below files extension root)
  else if files.isFile root then do
    let lines ← .ofResult (files.readLines root)
    let listed := ofListLines files extension root 1 lines
    .warn listed.1
    pure listed.2
  else .ofResult (.error (.configuration (.nothingToList root)))

end SourceList

end TreeMigration
