import TreeMigration.Declaration.Header
import TreeMigration.Path.Basic

/-!
The names declared in a set of files. The first declaration of a name stays; later ones are only
counted.

An index is the list of the first declarations in the order they were found, and a lookup by name is
a search in that list. A hash table would answer the same questions; the list also answers in which
order the names came, which the statements about several files need. Every declaration keeps the
file and the line it was found on, lines counted from one.

The declarations of a file are a function of its lines alone, one header at most to a line, so the
index of several files depends on nothing but their lines and their order. `Indexing` adds the
number of files entered, which is told at the end of a run.
-/
namespace TreeMigration

/-- A name with the place, line counted from one, where it was first declared. -/
structure Declaration where
  name : Text
  kind : DeclarationKind
  file : Path
  line : Nat
  deriving DecidableEq, Repr

/-- First declarations in the order found, and how many others repeated a name. -/
structure Index where
  declarations : List Declaration
  redeclarations : Nat
  deriving DecidableEq, Repr

/-- The declarations on the lines of a file, of which the first has the given number. -/
def Declaration.ofLinesFrom (file : Path) : Nat → List Text → List Declaration
  | _, [] => []
  | number, line :: later =>
    let rest := ofLinesFrom file (number + 1) later
    match Header.ofLine? line with
    | none => rest
    | some header => ⟨header.name, header.kind, file, number⟩ :: rest

def Declaration.ofLines (file : Path) (lines : List Text) : List Declaration :=
  ofLinesFrom file 1 lines

namespace Index

def empty : Index := ⟨[], 0⟩

def find? (index : Index) (name : Text) : Option Declaration :=
  index.declarations.find? (·.name == name)

def contains (index : Index) (name : Text) : Bool := (index.find? name).isSome

def size (index : Index) : Nat := index.declarations.length

/-- Enters a declaration, or counts it if its name is known. -/
def insert (index : Index) (declaration : Declaration) : Index :=
  if index.contains declaration.name then
    { index with redeclarations := index.redeclarations + 1 }
  else { index with declarations := index.declarations ++ [declaration] }

def insertFile (index : Index) (file : Path) (lines : List Text) : Index :=
  (Declaration.ofLines file lines).foldl insert index

end Index

/-- An index that is still growing, with the number of files entered. -/
structure Indexing where
  index : Index
  files : Nat
  deriving DecidableEq, Repr

namespace Indexing

def empty : Indexing := ⟨.empty, 0⟩

def insertFile (indexing : Indexing) (file : Path) (lines : List Text) : Indexing :=
  ⟨indexing.index.insertFile file lines, indexing.files + 1⟩

end Indexing

end TreeMigration
