import TreeMigration.Text.Basic

/-!
JSON values and their printed form. An object keeps its members in the order of the text, repeated
names included, and a number keeps its literal, so nothing that was written is lost before a
question is asked of it. Asked for a member by name, an object answers with the last of that name.

The printed form puts every item of a bracket on a line of its own, two blanks deeper than the
bracket, and writes an empty bracket on one line; a member is its name, a colon and a blank before
its value. In a string literal the quote, the backslash and the control characters below the space
are escaped, five of these by a letter and the others by their code; everything else, the slash
included, stands for itself.

Printing goes through the values by mutual recursion on the value, its items and its members. That
the printed text can be read back, to the same value, is proved with the statements about printing.
-/
namespace TreeMigration.Json

inductive Value where
  | null
  | boolean (value : Bool)
  | number (literal : Text)
  | string (value : Text)
  | array (items : List Value)
  | object (members : List (Text × Value))

abbrev Members := List (Text × Value)

/-- The value of a member; of members with one name the last counts. -/
def Members.find? (members : Members) (name : Text) : Option Value :=
  members.reverse.lookup name

def Value.isString : Value → Bool
  | .string _ => true
  | _ => false

def escapedChar (c : Char) : Text :=
  if c = '"' then "\\\""
  else if c = '\\' then "\\\\"
  else if c = '\n' then "\\n"
  else if c = '\r' then "\\r"
  else if c = '\t' then "\\t"
  else if c = '\x08' then "\\b"
  else if c = '\x0c' then "\\f"
  else if c.toNat < 0x20 then
    "\\u00" ++ [Nat.digitChar (c.toNat / 16), Nat.digitChar (c.toNat % 16)]
  else [c]

def literal (t : Text) : Text := '"' :: t.flatMap escapedChar ++ ['"']

def newLine (level : Nat) : Text := '\n' :: List.replicate (2 * level) ' '

/-- The items of a bracket, each on lines of its own; an empty bracket stays on one. -/
def bracket (opening closing : Char) (level : Nat) (items : List Text) : Text :=
  if items.isEmpty then [opening, closing]
  else opening :: Text.join [','] (items.map (newLine (level + 1) ++ ·)) ++
    newLine level ++ [closing]

mutual

def Value.pretty (level : Nat) : Value → Text
  | .null => "null"
  | .boolean true => "true"
  | .boolean false => "false"
  | .number written => written
  | .string t => literal t
  | .array items => bracket '[' ']' level (Value.prettyItems (level + 1) items)
  | .object members => bracket '\x7b' '\x7d' level (Value.prettyMembers (level + 1) members)

def Value.prettyItems (level : Nat) : List Value → List Text
  | [] => []
  | item :: later => item.pretty level :: Value.prettyItems level later

def Value.prettyMembers (level : Nat) : List (Text × Value) → List Text
  | [] => []
  | (name, value) :: later =>
    (literal name ++ ": " ++ value.pretty level) :: Value.prettyMembers level later

end

end TreeMigration.Json
