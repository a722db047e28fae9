import TreeMigration.Json.Reader

/-!
Why a line that carries no rule was refused. The reason is found by reading the line as JSON and
asking, one question after the other, what keeps it from being a rule object.

The questions come in a fixed order: whether the text is JSON, whether it is an object, whether the
three members are there, whether there are others, whether their values are of the right kind, and
last whether the members stand in their order. Names are looked up with the last of a name winning,
and the names that do not belong are told sorted.

A line that answers all the questions well and still has not the form of a rule is refused for the
order of its members. That is the reason of last resort, and a line can get it for a blank in a
place where the form allows none.
-/
namespace TreeMigration

inductive Rejection where
  | emptyPattern
  | notJson (problem : Json.Problem)
  | notObject
  | missingKeys (names : List Text)
  | unexpectedKeys (names : List Text)
  | valuesNotStrings
  | multipleNotBoolean
  | keysOutOfOrder
  deriving DecidableEq, Repr

namespace Rejection

def message : Rejection → Text
  | .emptyPattern => "empty \"from\" pattern"
  | .notJson problem => "not a single-line JSON object: " ++ problem.message
  | .notObject => "expected a rule object"
  | .missingKeys names => "missing key(s): " ++ Text.join ", " names
  | .unexpectedKeys names => "unexpected key(s): " ++ Text.join ", " names
  | .valuesNotStrings => "\"from\" and \"to\" must be strings"
  | .multipleNotBoolean => "\"multiple\" must be true or false"
  | .keysOutOfOrder => "keys must appear in the order from, to, multiple"

def ruleKeys : List Text := ["from", "to", "multiple"]

/-- The values that say how often a rule applies: a truth value, bare or in quotes. -/
def isMultiple : Json.Value → Bool
  | .boolean _ => true
  | .string t => t == "true" || t == "false"
  | _ => false

/-- The first thing that keeps the members from being those of a rule. -/
def ofMembers (members : Json.Members) : Rejection :=
  let names := members.map Prod.fst
  let missing := ruleKeys.filter fun key => !names.contains key
  let extra := names.filter fun name => !ruleKeys.contains name
  if !missing.isEmpty then .missingKeys missing
  else if !extra.isEmpty then .unexpectedKeys (extra.eraseDups.mergeSort Text.noLater)
  else if !(["from", "to"] : List Text).all fun key =>
      (members.find? key).any Json.Value.isString then .valuesNotStrings
  else if !(members.find? "multiple").any isMultiple then .multipleNotBoolean
  else .keysOutOfOrder

/-- The JSON text on a rule line: what is left without outer blanks and one trailing comma. -/
def jsonPart (line : Text) : Text :=
  let trimmed := Text.trim line
  (([','] : Text).isSuffixOf? trimmed).getD trimmed

def ofLine (line : Text) : Rejection :=
  match Json.Value.ofText (jsonPart line) with
  | .error problem => .notJson problem
  | .ok (.object members) => ofMembers members
  | .ok _ => .notObject

end Rejection

end TreeMigration
