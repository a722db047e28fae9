import TreeMigration.Text.Basic
import TreeMigration.Unicode.Alphabetic
import TreeMigration.Unicode.Numeric

/-!
Identifiers: one definition for the header reader, which cuts names out of lines, and for the
substitution of whole identifiers, which looks at the characters around an occurrence.

A character that can begin an identifier is an alphabetic one or the underscore; inside, digits and
other numbers of any script may stand as well. Letters are those of the Unicode tables and not only
the Latin ones, while signs such as the dollar or the hyphen belong to no identifier.
`isPart_of_isStart` is all that the header reader needs to know about the two classes: an identifier
is one character of the first followed by the longest run of the second.
-/
namespace TreeMigration

namespace Identifier

open Unicode

def isStart (c : Char) : Bool := c == '_' || isAlphabetic c

def isPart (c : Char) : Bool := c == '_' || isAlphabetic c || isNumeric c

theorem isPart_of_isStart {c : Char} (start : isStart c = true) : isPart c = true := by
  simp only [isStart, isPart] at *
  simp [start]

end Identifier

/-- A bare identifier: nothing but an identifier, from the first character to the last. -/
def Text.isIdentifier : Text → Bool
  | [] => false
  | c :: rest => Identifier.isStart c && rest.all Identifier.isPart

end TreeMigration
