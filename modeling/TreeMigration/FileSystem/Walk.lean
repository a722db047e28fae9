import TreeMigration.FileSystem.Basic

/-!
From a path to a location. A walk goes through the tree one step at a time and follows symbolic
links, of which it meets at most forty; every operation on files starts with one.

A path is first made a `Route`: its segments, whether it starts at the root, and whether it ends in
a slash. Here the lengths are checked that the text alone decides, 4096 bytes for the path and 255
for a name. Steps are then taken by `advance`, which recurses on the steps and stops at the first
link; `walkFrom` recurses on the number of links still allowed and puts the route of a link's target
before the steps that remain. Neither recursion needs a bound on the tree, so a ring of links is met
as `tooManyLinks`.

Every step is asked of a directory, a dot and a step up included, and a walk that ends on a missing
name says where the name could be made. A slash at the end asks for a directory, also when it comes
from the target of the last link.
-/
namespace TreeMigration

inductive FileError where
  | notFound | exists | notDirectory | isDirectory | nameTooLong | tooManyLinks
  | notText | nulInName
  deriving DecidableEq, Repr

def FileError.message : FileError → Text
  | .notFound => "No such file or directory (os error 2)"
  | .exists => "File exists (os error 17)"
  | .notDirectory => "Not a directory (os error 20)"
  | .isDirectory => "Is a directory (os error 21)"
  | .nameTooLong => "File name too long (os error 36)"
  | .tooManyLinks => "Too many levels of symbolic links (os error 40)"
  | .notText => "stream did not contain valid UTF-8"
  | .nulInName => "file name contained an unexpected NUL byte"

inductive Step where
  | stay
  | up
  | into (name : Name)
  deriving DecidableEq

/-- The step that a segment of a path stands for; an empty one stands for none. -/
def Step.ofSegment (segment : Text) : Option Step :=
  if dot : segment = ['.'] then some .stay
  else if dots : segment = ['.', '.'] then some .up
  else if named : segment ≠ [] ∧ '/' ∉ segment then
    some (.into ⟨segment, named.1, dot, dots, named.2⟩)
  else none

/-- The steps a path asks for. A path that ends in a slash asks for a directory. -/
structure Route where
  absolute : Bool
  steps : List Step
  slashed : Bool
  deriving DecidableEq

def Route.ofText (t : Text) : Route :=
  ⟨t.head? == some '/', (Text.splitOn '/' t).filterMap Step.ofSegment, t.getLast? == some '/'⟩

/-- Where a walk ended: at an entry, or at a name that its directory does not have. In both cases
it is known whether a slash asked for a directory. -/
inductive Found where
  | present (location : Location) (slashed : Bool)
  | absent (directory : Location) (name : Name) (slashed : Bool)
  deriving DecidableEq

namespace FileSystem

/-- The longest name, in bytes. -/
def nameLimit : Nat := 255

/-- A path must be shorter than this, in bytes. -/
def pathLimit : Nat := 4096

def linkLimit : Nat := 40

/-- Takes the steps from a location on. At a link it hands over to `jump` with the link's directory,
its target and the remaining steps; a link at the very end is passed over if `followLast` says so. -/
def advance (files : FileSystem) (followLast slashed : Bool)
    (jump : Location → Text → List Step → Except FileError Found) :
    Location → List Step → Except FileError Found
  | location, [] => .ok (.present location slashed)
  | location, step :: later =>
    match files.entry? location with
    | none => .error .notFound
    | some .directory =>
      match step with
      | .stay => advance files followLast slashed jump location later
      | .up => advance files followLast slashed jump location.tail later
      | .into name =>
        if nameLimit < Text.byteSize name.text then .error .nameTooLong
        else match files.entry? (name :: location) with
          | none => if later.isEmpty then .ok (.absent location name slashed) else .error .notFound
          | some (.link target) =>
            if later.isEmpty && !followLast then .ok (.present (name :: location) slashed)
            else jump location target later
          | some _ => advance files followLast slashed jump (name :: location) later
    | some _ => .error .notDirectory

/-- Takes the steps from a location on and follows no more than the given number of links. -/
def walkFrom (files : FileSystem) (followLast : Bool) :
    Nat → Bool → Location → List Step → Except FileError Found
  | 0, slashed, location, steps =>
    files.advance followLast slashed (fun _ _ _ => .error .tooManyLinks) location steps
  | links + 1, slashed, location, steps =>
    files.advance followLast slashed (fun directory target later =>
      let route := Route.ofText target
      walkFrom files followLast links (slashed || (later.isEmpty && route.slashed))
        (if route.absolute then [] else directory) (route.steps ++ later)) location steps

/-- The route of a path, unless the path cannot be one of any file. -/
def route (path : Path) : Except FileError Route :=
  if path.text.isEmpty then .error .notFound
  else if path.text.contains '\x00' then .error .nulInName
  else if pathLimit ≤ Text.byteSize path.text then .error .nameTooLong
  else .ok (Route.ofText path.text)

def walk (files : FileSystem) (followLast : Bool) (route : Route) : Except FileError Found :=
  files.walkFrom followLast linkLimit route.slashed
    (if route.absolute then [] else files.workingDirectory) route.steps

/-- The location and the entry that a path leads to, all links followed. -/
def locate (files : FileSystem) (path : Path) : Except FileError (Location × Entry) := do
  let route ← route path
  match ← files.walk true route with
  | .absent .. => .error .notFound
  | .present location slashed =>
    match files.entry? location with
    | none => .error .notFound
    | some .directory => .ok (location, .directory)
    | some entry => if slashed then .error .notDirectory else .ok (location, entry)

end FileSystem

end TreeMigration
