import TreeMigration.Json.Fault
import TreeMigration.Text.Reading

/-!
String literals, from after the opening quote to the closing one. Characters above the basic plane
may be written as a pair of surrogate escapes; a surrogate on its own is refused, so every text read
is a sequence of characters.

An escape is a backslash with one of eight characters, or with `u` and four hexadecimal digits in
either case. A leading surrogate takes the next escape as its other half, and what is reported
depends on where that fails: at the backslash, at the `u`, or at a code that is no second half.
Control characters below the space have to be escaped and are refused when they stand bare, while
any other character, the delete character included, stands for itself.

`body` recurses on the length of the text, which every character and every escape shortens.
-/
namespace TreeMigration.Json.StringLiteral

def hexValue? (c : Char) : Option Nat :=
  if c.isDigit then some (c.toNat - '0'.toNat)
  else if 'a' ≤ c ∧ c ≤ 'f' then some (c.toNat - 'a'.toNat + 10)
  else if 'A' ≤ c ∧ c ≤ 'F' then some (c.toNat - 'A'.toNat + 10)
  else none

def hexNumber? (a b c d : Char) : Option Nat := do
  let a ← hexValue? a
  let b ← hexValue? b
  let c ← hexValue? c
  let d ← hexValue? d
  some (((a * 16 + b) * 16 + c) * 16 + d)

def hexDigits (t : Text) : Except Fault (Reading Nat t) :=
  if Text.byteSize t < 4 then .error (.before .endInString [])
  else match t with
    | a :: b :: c :: d :: rest =>
      match hexNumber? a b c d with
      | some code => .ok ⟨code, rest, by simp only [List.length_cons]; omega⟩
      | none => .error ⟨.invalidEscape, a :: b :: c :: d :: rest, 4⟩
    | _ => .error ⟨.invalidEscape, t, 4⟩

/-- Whether the code is the first half of a pair. -/
def isLeading (code : Nat) : Bool := decide (0xD800 ≤ code ∧ code ≤ 0xDBFF)

def isTrailing (code : Nat) : Bool := decide (0xDC00 ≤ code ∧ code ≤ 0xDFFF)

/-- One of the characters of a text, which must stand next. -/
def expectMark (mark : Char) (t : Text) : Except Fault (Reading Unit t) :=
  match t with
  | [] => .error (.before .endInString [])
  | c :: rest =>
    if c = mark then .ok ⟨(), rest, Nat.lt_succ_self _⟩
    else .error (.upon .surrogateWithoutEscape (c :: rest))

/-- The character of a code escape, from its first digit on; a leading surrogate takes the escape
after it as its other half. -/
def codeEscape (t : Text) : Except Fault (Reading Char t) := do
  let first ← hexDigits t
  if isTrailing first.value then .error (.before .unpairedSurrogate first.rest)
  else if isLeading first.value then
    let slash ← expectMark '\\' first.rest
    let letter ← expectMark 'u' slash.rest
    let second ← hexDigits letter.rest
    if isTrailing second.value then
      let code := 0x10000 + (first.value - 0xD800) * 0x400 + (second.value - 0xDC00)
      .ok (first.andThen (slash.andThen (letter.andThen (second.map fun _ => Char.ofNat code))))
    else .error (.before .unpairedSurrogate second.rest)
  else .ok (first.map Char.ofNat)

def shortEscape? : Char → Option Char
  | '"' => some '"'
  | '\\' => some '\\'
  | '/' => some '/'
  | 'b' => some '\x08'
  | 'f' => some '\x0c'
  | 'n' => some '\n'
  | 'r' => some '\r'
  | 't' => some '\t'
  | _ => none

def escape (t : Text) : Except Fault (Reading Char t) :=
  match t with
  | [] => .error (.before .endInString [])
  | c :: rest =>
    match shortEscape? c with
    | some plain => .ok ⟨plain, rest, Nat.lt_succ_self _⟩
    | none =>
      if c = 'u' then (codeEscape rest).map (Reading.within (Text.length_le_cons _ _))
      else .error (.upon .invalidEscape (c :: rest))

/-- The characters up to the closing quote, escapes resolved. -/
def body (t : Text) : Except Fault (Reading Text t) :=
  match t with
  | [] => .error (.before .endInString [])
  | c :: rest =>
    if c = '"' then .ok ⟨[], rest, Nat.lt_succ_self _⟩
    else if c = '\\' then do
      let special ← escape rest
      have := special.shorter
      let later ← body special.rest
      .ok ((special.andThen (later.map (special.value :: ·))).within (Text.length_le_cons _ _))
    else if c.toNat < 0x20 then .error (.upon .controlCharacter (c :: rest))
    else do
      let later ← body rest
      .ok ((later.map (c :: ·)).within (Text.length_le_cons _ _))
termination_by t.length

end TreeMigration.Json.StringLiteral
