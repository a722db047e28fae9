import TreeMigration.FileSystem.Walk

/-!
The absolute path of what a path leads to, without links and dots.

The way there is traced by asking, at each name of the path, for the entry at the absolute path
traced so far. So the lengths that count here are those of the absolute paths on the way, while the
text of the path itself may have any length; a walk looks at the text alone. Where no later name
looks into what was found, but a slash, a dot or a step up asks for a directory, the question is put
again with a slash at the end, which makes the absolute path longer by one.

A path that is short because it starts in a deep working directory, or because it goes through a
link to a deep place, may therefore have no absolute path although files can be read through it: the
question fails with `nameTooLong`. Conversely a long text with many dots may have one. Every link is
read where it stands, and as in a walk no more than forty are followed.
-/
namespace TreeMigration

def Location.path (location : Location) : Path :=
  ⟨'/' :: Text.join ['/'] (location.reverse.map Name.text)⟩

/-- Whether the steps behind a name ask for a directory without going into it. -/
def Step.askDirectory (slashed : Bool) : List Step → Bool
  | [] => slashed
  | .stay :: later => askDirectory true later
  | .up :: _ => true
  | .into _ :: _ => false

namespace FileSystem

/-- The entry at the absolute path of a name in a directory; a slash at its end asks for a
directory. -/
def probe (files : FileSystem) (directory : Location) (name : Name) (slashed : Bool) :
    Except FileError Entry :=
  if pathLimit ≤ Text.byteSize (Location.path (name :: directory)).text + slashed.toNat then
    .error .nameTooLong
  else match files.entry? directory with
    | none => .error .notFound
    | some .directory =>
      if nameLimit < Text.byteSize name.text then .error .nameTooLong
      else match files.entry? (name :: directory) with
        | none => .error .notFound
        | some entry =>
          if slashed && entry ≠ .directory then .error .notDirectory else .ok entry
    | some _ => .error .notDirectory

/-- Traces the steps from a location on. At a link it hands over to `jump` with the link's directory,
its target and the remaining steps. -/
def trace (files : FileSystem) (slashed : Bool)
    (jump : Location → Text → List Step → Except FileError Location) :
    Location → List Step → Except FileError Location
  | location, [] => .ok location
  | location, .stay :: later => trace files slashed jump location later
  | location, .up :: later => trace files slashed jump location.tail later
  | location, .into name :: later =>
    match files.probe location name false with
    | .ok (.link target) => jump location target later
    | _ =>
      match files.probe location name (Step.askDirectory slashed later) with
      | .ok _ => trace files slashed jump (name :: location) later
      | .error cause => .error cause

def traceFrom (files : FileSystem) :
    Nat → Bool → Location → List Step → Except FileError Location
  | 0, slashed, location, steps =>
    files.trace slashed (fun _ _ _ => .error .tooManyLinks) location steps
  | links + 1, slashed, location, steps =>
    files.trace slashed (fun directory target later =>
      let route := Route.ofText target
      traceFrom files links (slashed || (later.isEmpty && route.slashed))
        (if route.absolute then [] else directory) (route.steps ++ later)) location steps

/-- The absolute path, without links or dots, of what a path leads to. -/
def canonical (files : FileSystem) (path : Path) : Except FileError Path :=
  if path.text.isEmpty then .error .notFound
  else if path.text.contains '\x00' then .error .nulInName
  else
    let route := Route.ofText path.text
    let start := if route.absolute then [] else files.workingDirectory
    match files.entry? start with
    | some .directory =>
      (files.traceFrom linkLimit route.slashed start route.steps).map Location.path
    | _ => .error .notFound

end FileSystem

end TreeMigration
