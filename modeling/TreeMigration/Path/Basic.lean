import TreeMigration.Text.Basic

/-!
Paths as text. A path keeps the spelling it was given; only comparing, stripping and climbing look
at its components, in which repeated slashes and inner or trailing dots do not count.

A path is divided at its slashes into what it starts with and its segments. The start matters
because a dot at the front of a relative path is a component and any other dot is not: `./a` and `a`
are different paths, `a/./b` and `a/b` are not. Two dots are an ordinary component here, since
nothing of this looks at files; only a walk knows what they lead to.

Operations that give a path back cut or extend the text, so the spelling of what stays is kept:
`parent?` and `stripPrefix?` cut at a slash, `join` puts one in unless it is there, and
`withFileName` goes through the parent.
-/
namespace TreeMigration

structure Path where
  text : Text
  deriving DecidableEq, Repr

/-- What a path starts with, before its first segment. -/
inductive PathLead where
  /-- a slash -/
  | root
  /-- a dot standing alone -/
  | current
  /-- nothing but the segments -/
  | bare
  deriving DecidableEq, Repr

/-- A path divided at its slashes. -/
structure PathParts where
  lead : PathLead
  segments : List Text
  deriving DecidableEq, Repr

namespace PathParts

/-- A segment without a meaning of its own: an empty one or a dot. -/
def isVoid (segment : Text) : Bool := segment.isEmpty || segment == ['.']

def path (parts : PathParts) : Path :=
  match parts.lead with
  | .root => ⟨'/' :: Text.join ['/'] parts.segments⟩
  | .current => ⟨'.' :: parts.segments.flatMap ('/' :: ·)⟩
  | .bare => ⟨Text.join ['/'] parts.segments⟩

def withoutVoidEnd (segments : List Text) : List Text :=
  (segments.reverse.dropWhile isVoid).reverse

def trimmed (parts : PathParts) : PathParts := ⟨parts.lead, withoutVoidEnd parts.segments⟩

def names (parts : PathParts) : List Text := parts.segments.filter (!isVoid ·)

/-- The text after the given names and the slash behind them, void segments between them passed
over; `none` where another name or none at all stands there. -/
def stripNames : List Text → List Text → Option (List Text)
  | [], segments => some segments
  | name :: names, segments =>
    match segments.dropWhile isVoid with
    | [] => none
    | segment :: rest => if segment = name then stripNames names rest else none

/-- The paths above one whose segments, last first, are given: the nearest first. -/
def pathsAbove (lead : PathLead) : List Text → List Path
  | [] => if lead = .current then [⟨[]⟩] else []
  | segment :: before =>
    if isVoid segment then pathsAbove lead before
    else PathParts.path ⟨lead, (before.dropWhile isVoid).reverse⟩ :: pathsAbove lead before

end PathParts

namespace Path

def parts (path : Path) : PathParts :=
  match Text.splitOn '/' path.text with
  | [] => ⟨.bare, []⟩
  | [[]] => ⟨.bare, []⟩
  | [] :: segments => ⟨.root, segments⟩
  | ['.'] :: segments => ⟨.current, segments⟩
  | segments => ⟨.bare, segments⟩

/-- Paths are compared by what they start with and by the segments that count. -/
def components (path : Path) : PathLead × List Text := (path.parts.lead, path.parts.names)

def isAbsolute (path : Path) : Bool := path.text.head? == some '/'

/-- `other` seen from `path`: an absolute one stands alone, any other follows a slash. -/
def join (path other : Path) : Path :=
  if other.isAbsolute then other
  else if path.text.isEmpty || path.text.getLast? == some '/' then ⟨path.text ++ other.text⟩
  else ⟨path.text ++ '/' :: other.text⟩

/-- The paths above this one, the nearest first. -/
def ancestors (path : Path) : List Path :=
  PathParts.pathsAbove path.parts.lead path.parts.segments.reverse

/-- The path without its last component; the root and the empty path have none above them. -/
def parent? (path : Path) : Option Path := path.ancestors.head?

/-- The last component, if it is a name. -/
def fileName? (path : Path) : Option Text :=
  path.parts.names.getLast?.filter (· != ['.', '.'])

/-- Puts `name` in place of the last component if that is a name, and after it otherwise. -/
def withFileName (path : Path) (name : Text) : Path :=
  ((if path.fileName?.isSome then path.parent?.getD path else path).join ⟨name⟩)

/-- What follows the components of `base`, if the path starts with them. -/
def stripPrefix? (base path : Path) : Option Path :=
  if base.components = (.bare, []) then some path.parts.trimmed.path
  else if base.parts.lead = path.parts.lead then
    (PathParts.stripNames base.parts.names path.parts.segments).map fun segments =>
      PathParts.path ⟨.bare, PathParts.withoutVoidEnd (segments.dropWhile PathParts.isVoid)⟩
  else none

end Path

end TreeMigration
