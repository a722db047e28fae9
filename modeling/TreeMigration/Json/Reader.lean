import TreeMigration.Json.Number
import TreeMigration.Json.StringLiteral

/-!
Reading a whole JSON text. Brackets may nest 127 deep; the allowance left is the argument on which
the reading of values recurses, and the lists inside a bracket end because every item consumes
something.

The readers follow the order in which a reader of bytes would look at the text, since the first
fault decides what is reported: a missing comma, a comma before the closing mark, a name that is no
string and a colon that is not there are different causes at different places. Blanks are skipped
before every token and are the four of the format, not those of text at large.

Members of an object are kept in the order of the text with repeated names. What the text means to
the rules is asked of the value afterwards, and a text that is JSON with anything behind it is
refused as a whole.
-/
namespace TreeMigration.Json

/-- A reader of values of one type that consumes something or reports a fault. -/
abbrev Reader (α : Type) := (t : Text) → Except Fault (Reading α t)

/-- The blanks of JSON: fewer than those of text at large. -/
def isSpace (c : Char) : Bool := c == ' ' || c == '\t' || c == '\n' || c == '\r'

def skipSpace (t : Text) : Text := t.dropWhile isSpace

theorem length_skipSpace_le (t : Text) : (skipSpace t).length ≤ t.length :=
  (t.dropWhile_sublist _).length_le

namespace Reader

variable {α : Type}

def afterSpace (read : Reader α) : Reader α := fun t =>
  (read (skipSpace t)).map (Reading.within (length_skipSpace_le t))

/-- The items of a bracket after its first one: each after a comma, up to the closing mark. -/
def laterItems (item : Reader α) (close : Char) (atEnd expected : Cause) (t : Text) :
    Except Fault (Reading (List α) t) :=
  match shape : skipSpace t with
  | [] => .error (.upon atEnd [])
  | c :: rest =>
    have bound : rest.length < t.length := by
      have := length_skipSpace_le t
      simp only [shape, List.length_cons] at this
      omega
    if c = close then .ok ⟨[], rest, bound⟩
    else if c = ',' then
      if (skipSpace rest).head? = some close then .error (.upon .trailingComma (skipSpace rest))
      else do
        let next ← item.afterSpace rest
        have := next.shorter
        let later ← laterItems item close atEnd expected next.rest
        .ok ((next.andThen (later.map (next.value :: ·))).within (Nat.le_of_lt bound))
    else .error (.upon expected (c :: rest))
termination_by t.length

/-- The items of a bracket, from after its opening mark to its closing one. -/
def items (item : Reader α) (close : Char) (atEnd expected : Cause) : Reader (List α) := fun t =>
  match shape : skipSpace t with
  | [] => .error (.upon atEnd [])
  | c :: rest =>
    if c = close then
      .ok ⟨[], rest, by
        have := length_skipSpace_le t
        simp only [shape, List.length_cons] at this
        omega⟩
    else do
      let next ← item.afterSpace t
      let later ← laterItems item close atEnd expected next.rest
      .ok (next.andThen (later.map (next.value :: ·)))

end Reader

/-- The rest of a word whose first character has been read. -/
def wordRest : Text → Text → Except Fault Text
  | [], t => .ok t
  | _ :: _, [] => .error (.before .endInValue [])
  | w :: word, c :: rest =>
    if c = w then wordRest word rest else .error (.upon .expectedWord (c :: rest))

theorem length_le_of_wordRest {word t rest : Text} (read : wordRest word t = .ok rest) :
    rest.length ≤ t.length := by
  induction word generalizing t with
  | nil => simp only [wordRest, Except.ok.injEq] at read; simp [read]
  | cons w word ih =>
    cases t with
    | nil => simp [wordRest] at read
    | cons c t =>
      simp only [wordRest] at read
      split at read
      · exact Nat.le_succ_of_le (ih read)
      · simp at read

def word (spelling : Text) (value : Value) : Reader Value
  | [] => .error (.upon .expectedValue [])
  | _ :: rest =>
    match read : wordRest spelling.tail rest with
    | .error fault => .error fault
    | .ok after => .ok ⟨value, after, Nat.lt_succ_of_le (length_le_of_wordRest read)⟩

def number : Reader Value := fun t =>
  let unsigned := if t.head? = some '-' then t.tail else t
  match read : Number.afterUnsigned unsigned with
  | .error fault => .error fault
  | .ok after =>
    .ok ⟨.number (t.take (t.length - after.length)), after, by
      have shorter := Number.length_lt_of_afterUnsigned read
      simp only [unsigned] at shorter
      split at shorter
      · simp only [List.length_tail] at shorter; omega
      · exact shorter⟩

def string : Reader Text
  | [] => .error (.upon .expectedValue [])
  | _ :: rest => (StringLiteral.body rest).map (Reading.within (Text.length_le_cons _ _))

/-- A member of an object: a name in quotes, a colon, a value. -/
def member (value : Reader Value) : Reader (Text × Value) := fun t =>
  if t.isEmpty then .error (.upon .endInValue t)
  else if t.head? ≠ some '"' then .error (.upon .keyNotString t)
  else do
    let name ← string t
    match shape : skipSpace name.rest with
    | [] => .error (.upon .endInObject [])
    | c :: rest =>
      if c = ':' then
        let contents ← value.afterSpace rest
        .ok (name.andThen ((contents.map (name.value, ·)).within (by
          have := length_skipSpace_le name.rest
          simp only [shape, List.length_cons] at this
          omega)))
      else .error (.upon .expectedColon (c :: rest))

/-- A value, in which brackets may nest as deep as the allowance. -/
def value : Nat → Reader Value
  | allowance, t =>
    match t with
    | [] => .error (.upon .endInValue [])
    | c :: rest =>
      if c = 'n' then word "null" .null (c :: rest)
      else if c = 't' then word "true" (.boolean true) (c :: rest)
      else if c = 'f' then word "false" (.boolean false) (c :: rest)
      else if c = '-' ∨ c.isDigit then number (c :: rest)
      else if c = '"' then (string (c :: rest)).map (Reading.map .string)
      else if c = '[' ∨ c = '\x7b' then
        match allowance with
        | 0 => .error (.upon .tooDeep (c :: rest))
        | allowance + 1 =>
          if c = '[' then
            ((value allowance).items ']' .endInList .expectedListEnd rest).map
              fun r => (r.map Value.array).within (Text.length_le_cons _ _)
          else
            ((member (value allowance)).items '\x7d' .endInObject .expectedObjectEnd rest).map
              fun r => (r.map Value.object).within (Text.length_le_cons _ _)
      else .error (.upon .expectedValue (c :: rest))

def depthLimit : Nat := 127

def document (t : Text) : Except Fault Value := do
  let read ← (value depthLimit).afterSpace t
  let after := skipSpace read.rest
  if after.isEmpty then .ok read.value else .error (.upon .trailingCharacters after)

/-- The value a text holds, or why and where it is not JSON. -/
def Value.ofText (t : Text) : Except Problem Value :=
  (document t).mapError (Fault.inText · t)

end TreeMigration.Json
