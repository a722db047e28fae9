import TreeMigration.Identifier
import TreeMigration.Text.Reading

/-!
Declaration headers. A header is read from left to right without ever going back, except that a
receiver which turns out not to be followed by a name was the name itself.

In order, a header consists of blanks, annotations, modifiers, one keyword, and a name that may have
type parameters before it, then a receiver with a dot, and a backtick. Every part but the keyword
and the name may be missing. Each part is a `Reading`, which carries the proof that it consumed
something, and the repeated parts are `Reading.many` of one.

A bracket ends at the first closing mark, nested brackets or not, and a word ends at a blank only:
`fun interface Shape` is therefore read as a function with the name `interface`, and a receiver
whose type arguments are nested leaves its name in the place of the declared one. Reading without
going back is the same as a search over all ways to divide the line because every part takes the
longest text it can and no later part could begin inside it; the grammar that says so is stated with
the proofs.
-/
namespace TreeMigration

inductive DeclarationKind where
  | plainClass | dataClass | enumClass | interface | object | function | property | typeAlias
  deriving DecidableEq, Repr

/-- A declared name and what it names. -/
structure Header where
  name : Text
  kind : DeclarationKind
  deriving DecidableEq, Repr

namespace Header

/-- The words that may stand before a keyword. -/
def modifierWords : List Text := [
  "public", "private", "internal", "protected", "open", "abstract", "sealed", "data", "enum",
  "annotation", "inner", "override", "final", "inline", "const", "lateinit", "suspend", "operator",
  "infix", "external", "tailrec", "expect", "actual"]

/-- The words that say what is declared, each with what it declares. -/
def keywords : List (Text × DeclarationKind) := [
  ("class", .plainClass), ("interface", .interface), ("object", .object), ("fun", .function),
  ("val", .property), ("var", .property), ("typealias", .typeAlias)]

/-- What is declared after the given modifiers: of the modifiers only those that make a data or
enumeration class say anything more than the keyword does. -/
def refine (modifiers : List Text) : DeclarationKind → DeclarationKind
  | .plainClass =>
    if modifiers.contains "data" then .dataClass
    else if modifiers.contains "enum" then .enumClass
    else .plainClass
  | kind => kind

def identifier : (t : Text) → Option (Reading Text t)
  | [] => none
  | c :: rest =>
    if Identifier.isStart c then
      some ⟨c :: rest.takeWhile Identifier.isPart, rest.dropWhile Identifier.isPart,
        Nat.lt_succ_of_le (List.dropWhile_sublist _).length_le⟩
    else none

/-- At least one blank, and those after it. -/
def blanks : (t : Text) → Option (Reading Unit t)
  | [] => none
  | c :: rest =>
    if Text.isBlank c then
      some ⟨(), rest.dropWhile Text.isBlank, Nat.lt_succ_of_le (List.dropWhile_sublist _).length_le⟩
    else none

def word (t : Text) : Option (Reading Text t) := do
  let after ← blanks (t.dropWhile (!Text.isBlank ·))
  some ((after.map fun _ => t.takeWhile (!Text.isBlank ·)).within
    (List.dropWhile_sublist _).length_le)

/-- Text no longer than `t`: what is left after something optional. -/
abbrev Remainder (t : Text) := { rest : Text // rest.length ≤ t.length }

/-- What follows an optional bracket, which ends at the first closing mark; a bracket that is
opened must be closed. -/
def afterBracket (opening closing : Char) : (t : Text) → Option (Remainder t)
  | [] => some ⟨[], Nat.le_refl _⟩
  | c :: rest =>
    if c = opening then
      match shape : rest.dropWhile (· != closing) with
      | [] => none
      | _ :: after => some ⟨after, by
          have := (rest.dropWhile_sublist (· != closing)).length_le
          simp only [shape, List.length_cons] at this
          simp only [List.length_cons]
          omega⟩
    else some ⟨c :: rest, Nat.le_refl _⟩

def dotted : (t : Text) → Option (Reading Text t)
  | [] => none
  | c :: rest =>
    if c = '.' then (identifier rest).map (Reading.within (Text.length_le_cons _ _)) else none

def annotation : (t : Text) → Option (Reading Unit t)
  | [] => none
  | c :: rest =>
    if c = '@' then do
      let first ← identifier rest
      let path := Reading.many dotted first.rest
      let arguments ← afterBracket '(' ')' path.2
      let after ← blanks arguments.val
      some ((first.andThen (after.within
        (Nat.le_trans arguments.property (Reading.many_rest_length_le _ _)))).within
        (Text.length_le_cons _ _))
    else none

def modifier (t : Text) : Option (Reading Text t) := do
  let read ← word t
  if modifierWords.contains read.value then some read else none

def keyword (t : Text) : Option (Reading DeclarationKind t) := do
  let read ← word t
  let kind ← keywords.lookup read.value
  some (read.map fun _ => kind)

/-- A name, perhaps after a backtick. -/
def plainName (t : Text) : Option Text :=
  (identifier (if t.head? = some '\x60' then t.tail else t)).map Reading.value

/-- What follows a receiver and its dot. -/
def afterReceiver (t : Text) : Option Text := do
  let type ← identifier t
  let arguments ← afterBracket '<' '>' type.rest
  let rest := if arguments.val.head? = some '?' then arguments.val.tail else arguments.val
  if rest.head? = some '.' then some rest.tail else none

/-- The declared name, after the keyword and its blanks. -/
def declaredName (t : Text) : Option Text := do
  let parameters ← afterBracket '<' '>' t
  let t := if t.head? = some '<' then Text.trimStart parameters.val else t
  (afterReceiver t >>= plainName).or (plainName t)

/-- The header at the front of a line, if there is one. -/
def ofLine? (line : Text) : Option Header := do
  let annotations := Reading.many annotation (Text.trimStart line)
  let modifiers := Reading.many modifier annotations.2
  let found ← keyword modifiers.2
  let name ← declaredName found.rest
  some ⟨name, refine modifiers.1 found.value⟩

end Header

end TreeMigration
