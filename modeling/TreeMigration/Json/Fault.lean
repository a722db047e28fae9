import TreeMigration.Json.Value

/-!
Where and why reading a JSON text failed. A fault remembers the text it left unread, so a position
needs no counter during reading: it is the length of the whole text less what was left.

Some faults are noticed by looking at the next byte and some only by having taken it, which shifts
the position told by one; `Fault.before` and `Fault.upon` are the two cases. At the end of the text
there is no byte to take, so the offset never passes the length of the text.

Columns are counted in bytes and a line feed starts the next line at column zero. The messages are
those of the causes, followed by line and column; they reach the user as part of the reason for
which a rule line was refused.
-/
namespace TreeMigration.Json

inductive Cause where
  | endInValue | endInString | endInList | endInObject
  | expectedValue | expectedWord | expectedColon | expectedListEnd | expectedObjectEnd
  | keyNotString | trailingComma | trailingCharacters
  | invalidNumber | numberOutOfRange
  | invalidEscape | controlCharacter | unpairedSurrogate | surrogateWithoutEscape
  | tooDeep
  deriving DecidableEq, Repr

def Cause.message : Cause → Text
  | .endInValue => "EOF while parsing a value"
  | .endInString => "EOF while parsing a string"
  | .endInList => "EOF while parsing a list"
  | .endInObject => "EOF while parsing an object"
  | .expectedValue => "expected value"
  | .expectedWord => "expected ident"
  | .expectedColon => "expected `:`"
  | .expectedListEnd => "expected `,` or `]`"
  | .expectedObjectEnd => "expected `,` or `\x7d`"
  | .keyNotString => "key must be a string"
  | .trailingComma => "trailing comma"
  | .trailingCharacters => "trailing characters"
  | .invalidNumber => "invalid number"
  | .numberOutOfRange => "number out of range"
  | .invalidEscape => "invalid escape"
  | .controlCharacter => "control character (\\u0000-\\u001F) found while parsing a string"
  | .unpairedSurrogate => "lone leading surrogate in hex escape"
  | .surrogateWithoutEscape => "unexpected end of hex escape"
  | .tooDeep => "recursion limit exceeded"

/-- A cause with the text that was still unread and how many bytes of it count as seen. -/
structure Fault where
  cause : Cause
  unread : Text
  seen : Nat
  deriving DecidableEq, Repr

namespace Fault

/-- A fault noticed before the next byte. -/
def before (cause : Cause) (unread : Text) : Fault := ⟨cause, unread, 0⟩

/-- A fault noticed on the next byte, if there is one. -/
def upon (cause : Cause) (unread : Text) : Fault := ⟨cause, unread, 1⟩

/-- The number of bytes of `whole` up to the fault. -/
def offset (fault : Fault) (whole : Text) : Nat :=
  min (Text.byteSize whole) (Text.byteSize whole - Text.byteSize fault.unread + fault.seen)

end Fault

/-- A line, counted from one, and the number of bytes on it before a point. -/
structure Position where
  line : Nat
  column : Nat
  deriving DecidableEq, Repr

/-- The position of a byte offset, going on from the position already reached. -/
def Position.advance : Position → Nat → Text → Position
  | reached, _, [] => reached
  | reached, offset, c :: rest =>
    if offset < c.utf8Size then ⟨reached.line, reached.column + offset⟩
    else if c = '\n' then advance ⟨reached.line + 1, 0⟩ (offset - 1) rest
    else advance ⟨reached.line, reached.column + c.utf8Size⟩ (offset - c.utf8Size) rest

def Position.ofOffset (whole : Text) (offset : Nat) : Position := advance ⟨1, 0⟩ offset whole

structure Problem where
  cause : Cause
  position : Position
  deriving DecidableEq, Repr

def Fault.inText (fault : Fault) (whole : Text) : Problem :=
  ⟨fault.cause, Position.ofOffset whole (fault.offset whole)⟩

def Problem.message (problem : Problem) : Text :=
  problem.cause.message ++ " at line " ++ Text.ofNat problem.position.line ++
    " column " ++ Text.ofNat problem.position.column

end TreeMigration.Json
