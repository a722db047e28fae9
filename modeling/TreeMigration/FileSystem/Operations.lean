import TreeMigration.FileSystem.Canonical

/-!
What programs do with files: ask, list, read, write, and make directories. Questions never fail; an
operation that fails reports why and leaves the files as they were, except that directories made on
the way to a deeper one stay.

Every operation is a walk followed by one look at the entry it found. Writing keeps the location: a
link is followed and its file replaced, and a file is made only where nothing but its last name is
missing. Making a directory follows no link at the end of its path. Several directories are made
from the deepest one that is there: the path itself is tried first, then the paths above it, the
nearest first, until one can be made, and from there the others in the opposite order.

The write of a file is one step here. A program that is stopped between opening a file and writing
its bytes is not modelled.
-/
namespace TreeMigration

namespace FileSystem

def pathExists (files : FileSystem) (path : Path) : Bool :=
  match files.locate path with
  | .ok _ => true
  | .error _ => false

def isDirectory (files : FileSystem) (path : Path) : Bool :=
  match files.locate path with
  | .ok (_, .directory) => true
  | _ => false

def isFile (files : FileSystem) (path : Path) : Bool :=
  match files.locate path with
  | .ok (_, .file _) => true
  | _ => false

/-- The names in the directory that a path leads to, sorted. -/
def list (files : FileSystem) (path : Path) : List Name :=
  match files.locate path with
  | .ok (location, _) => files.children location
  | .error _ => []

def decode (content : ByteArray) : Except FileError Text :=
  match String.fromUTF8? content with
  | some s => .ok s.toList
  | none => .error .notText

def encode (t : Text) : ByteArray := (String.ofList t).toUTF8

def read (files : FileSystem) (path : Path) : Except FileError Text := do
  match ← files.locate path with
  | (_, .file content) => decode content
  | _ => .error .isDirectory

/-- Makes the file that a path leads to hold just the given bytes; the file is made if only its name
is missing. -/
def writeBytes (files : FileSystem) (path : Path) (content : ByteArray) :
    Except FileError FileSystem := do
  let route ← route path
  match ← files.walk (!route.slashed) route with
  | .absent directory name slashed =>
    if slashed then .error .isDirectory else .ok (files.place directory name (.file content))
  | .present location slashed =>
    if slashed then .error .isDirectory
    else match location, files.entry? location with
      | name :: directory, some (.file _) => .ok (files.place directory name (.file content))
      | _, _ => .error .isDirectory

def write (files : FileSystem) (path : Path) (t : Text) : Except FileError FileSystem :=
  files.writeBytes path (encode t)

/-- Makes one entry where nothing is yet. -/
def make (files : FileSystem) (path : Path) (entry : Entry) : Except FileError FileSystem := do
  let route ← route path
  match ← files.walk false route with
  | .absent directory name _ => .ok (files.place directory name entry)
  | .present .. => .error .exists

def makeDirectory (files : FileSystem) (path : Path) : Except FileError FileSystem :=
  files.make path .directory

/-- Makes a directory in one that is there, unless it is there already. -/
def ensureDirectory (files : FileSystem) (path : Path) : FileSystem × Except FileError Unit :=
  match files.makeDirectory path with
  | .ok made => (made, .ok ())
  | .error cause => (files, if files.isDirectory path then .ok () else .error cause)

/-- Makes a directory with those above it that are missing, given the paths above it. Directories
already made stay when a later one fails. -/
def makeDirectoriesBelow (files : FileSystem) (path : Path) :
    List Path → FileSystem × Except FileError Unit
  | [] => if path.text.isEmpty then (files, .ok ()) else files.ensureDirectory path
  | nearest :: others =>
    if path.text.isEmpty then (files, .ok ())
    else match files.makeDirectory path with
      | .error .notFound =>
        let reached := makeDirectoriesBelow files nearest others
        match reached.2 with
        | .ok () => reached.1.ensureDirectory path
        | .error cause => (reached.1, .error cause)
      | _ => files.ensureDirectory path

def makeDirectories (files : FileSystem) (path : Path) : FileSystem × Except FileError Unit :=
  files.makeDirectoriesBelow path path.ancestors

/-- Takes out what stands at a path, a link itself and not what it leads to. -/
def delete (files : FileSystem) (path : Path) : Except FileError FileSystem := do
  let route ← route path
  match ← files.walk false route with
  | .absent .. => .error .notFound
  | .present location _ => .ok (files.remove location)

end FileSystem

end TreeMigration
