/-!
Text as the list of its characters. Rule matching, header scanning and path handling recurse on the
characters themselves; `String` appears only where text enters or leaves the library.

A character is a Unicode scalar value. Where a limit or a position is given in bytes, `byteSize`
counts those of the UTF-8 form. Blanks are the characters with the property White_Space, which the
JSON reader does not use: its format has four blanks of its own.

Lines are divided at line feeds, and a carriage return directly before a line feed belongs to the
end of the line; any other carriage return is an ordinary character. A last line without an end
counts unless it is empty. Written out, every line ends in a line feed alone. A line may itself end
in a carriage return, namely where two of them stood before the line feed; it loses that one when it
is written out and read again.
-/
namespace TreeMigration

abbrev Text := List Char

/-- Literals are read as the list of their characters. -/
instance : Coe String Text where
  coe := String.toList

namespace Text

/-- The characters with the property White_Space. -/
def isBlank (c : Char) : Bool :=
  let code := c.toNat
  decide (0x9 ≤ code ∧ code ≤ 0xD) || decide (0x2000 ≤ code ∧ code ≤ 0x200A) ||
    [0x20, 0x85, 0xA0, 0x1680, 0x2028, 0x2029, 0x202F, 0x205F, 0x3000].contains code

def trimStart (t : Text) : Text := t.dropWhile isBlank

def trimEnd (t : Text) : Text := (t.reverse.dropWhile isBlank).reverse

def trim (t : Text) : Text := trimEnd (trimStart t)

/-- Length in bytes of the UTF-8 form. -/
def byteSize : Text → Nat
  | [] => 0
  | c :: rest => c.utf8Size + byteSize rest

theorem byteSize_append (s t : Text) : byteSize (s ++ t) = byteSize s + byteSize t := by
  induction s with
  | nil => simp [byteSize]
  | cons c rest ih =>
    rw [List.cons_append, byteSize, byteSize, ih]
    omega

def ofNat (n : Nat) : Text := Nat.toDigits 10 n

/-- Whether a text stands no later than another in the order of texts, character by character. This is
also the order of their UTF-8 bytes. -/
def noLater (s t : Text) : Bool := !decide (t < s)

/-- The parts between the occurrences of `mark`: always at least one. -/
def splitOn (mark : Char) : Text → List Text
  | [] => [[]]
  | c :: rest =>
    if c = mark then [] :: splitOn mark rest
    else match splitOn mark rest with
      | [] => [[c]]
      | part :: parts => (c :: part) :: parts

/-- The parts with `separator` between each two. -/
def join (separator : Text) (parts : List Text) : Text := separator.intercalate parts

/-- The lines of a text, without their ends: a line feed, with a carriage return directly before it.
A last line without an end counts unless it is empty. -/
def lines : Text → List Text
  | [] => []
  | c :: rest =>
    if c = '\n' then [] :: lines rest
    else if c = '\r' ∧ rest.head? = some '\n' then lines rest
    else match lines rest with
      | [] => [[c]]
      | line :: later => (c :: line) :: later

/-- The text of the given lines, each with a line feed at its end. -/
def ofLines (lines : List Text) : Text := lines.flatMap (· ++ ['\n'])

end Text

end TreeMigration
