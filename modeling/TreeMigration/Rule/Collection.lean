import TreeMigration.Rule.Line
import TreeMigration.Rule.Rejection

/-!
Rules collected from lines. A line holds a rule, holds none by design (blank lines and the brackets
around the rules), or is refused with a reason; refused lines never stop the collection.

Each line is judged by itself: what a line gives does not depend on the lines around it, and the
collection is the contributions of the lines one after the other, rules and diagnostics apart. A
diagnostic keeps the line as written with its number, so that one line at most can be meant.

The form of a rule line is the business of `RuleLine.fields?`; only a line that does not have it is
read as JSON at all, to say why. A line that has the form and an empty pattern is refused too, since
an empty pattern would occur everywhere.
-/
namespace TreeMigration

/-- The lines that may stand around rules. -/
def RuleLine.isStructural (line : Text) : Bool :=
  ([[], "[", "]", "],"] : List Text).contains (Text.trim line)

/-- The rule on a line, `none` for a structural line, or why the line was refused. -/
def Rule.ofLine (line : Text) : Except Rejection (Option Rule) :=
  if RuleLine.isStructural line then .ok none
  else match RuleLine.fields? line with
    | none => .error (.ofLine line)
    | some fields =>
      let rule := fields.rule
      if rule.pattern.isEmpty then .error .emptyPattern else .ok (some rule)

/-- A refused line, with its number counted from one. -/
structure Diagnostic where
  lineNumber : Nat
  text : Text
  reason : Rejection
  deriving DecidableEq, Repr

/-- The rules found on some lines and the lines refused, both in line order. -/
structure RuleCollection where
  rules : List Rule
  diagnostics : List Diagnostic
  deriving DecidableEq, Repr

namespace RuleCollection

def ofLinesFrom : Nat → List Text → RuleCollection
  | _, [] => ⟨[], []⟩
  | number, line :: later =>
    let rest := ofLinesFrom (number + 1) later
    match Rule.ofLine line with
    | .ok none => rest
    | .ok (some rule) => ⟨rule :: rest.rules, rest.diagnostics⟩
    | .error reason => ⟨rest.rules, ⟨number, line, reason⟩ :: rest.diagnostics⟩

def ofLines (lines : List Text) : RuleCollection := ofLinesFrom 1 lines

end RuleCollection

end TreeMigration
