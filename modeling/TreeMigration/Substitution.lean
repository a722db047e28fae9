import TreeMigration.Identifier

/-!
Substitution rules, and replacing the occurrences of a pattern in one line. A line is cut at the
occurrences chosen from left to right, each the leftmost admissible one at or after the end of the
one before; the pieces between them are kept unchanged, so a replacement is never searched again.

There are two kinds of matching. Literal matching admits every occurrence. Whole identifiers admit
those with no identifier character directly before or after; whether one is admitted depends on the
line as it was, not on what replaces its neighbours. In both the occurrences chosen do not overlap,
and an occurrence that was not admitted does not hide one that begins inside it.

`Cut` is the one recursion, on the characters of the line. Replacing all occurrences, replacing the
first and counting are functions of the cut, so that what is proved of the cut holds for all three.
A rule is a pattern, a replacement and a mode; the pattern of a rule is never empty, which is seen
to where rules are read.
-/
namespace TreeMigration

/-- Which occurrences of a pattern count. -/
inductive Matching where
  | literal | wholeIdentifier
  deriving DecidableEq, Repr

inductive Mode where
  | first | all
  deriving DecidableEq, Repr

/-- Whether an occurrence may stand between the characters before and after it, where `none` is
the end of the line. -/
def Matching.admits : Matching → Option Char → Option Char → Bool
  | .literal, _, _ => true
  | .wholeIdentifier, before, after =>
    !before.any Identifier.isPart && !after.any Identifier.isPart

/-- A line without its chosen occurrences: the text before the first of them, then the text after
each. -/
structure Cut where
  start : Text
  later : List Text
  deriving DecidableEq, Repr

namespace Cut

def occurrences (cut : Cut) : Nat := cut.later.length

/-- Cuts the rest of a line, given the character before it and how many of its first characters
belong to the occurrence chosen last. -/
def ofRest (matching : Matching) (pattern : Text) : Option Char → Nat → Text → Cut
  | _, _, [] => ⟨[], []⟩
  | _, inside + 1, c :: rest => ofRest matching pattern (some c) inside rest
  | before, 0, c :: rest =>
    if pattern.isPrefixOf (c :: rest) &&
        matching.admits before ((c :: rest).drop pattern.length).head? then
      let next := ofRest matching pattern (some c) (pattern.length - 1) rest
      ⟨[], next.start :: next.later⟩
    else
      let next := ofRest matching pattern (some c) 0 rest
      ⟨c :: next.start, next.later⟩

/-- Cuts a line at its chosen occurrences; an empty pattern occurs nowhere. -/
def ofLine (matching : Matching) (pattern line : Text) : Cut :=
  if pattern.isEmpty then ⟨line, []⟩ else ofRest matching pattern none 0 line

def fillAll (cut : Cut) (filling : Text) : Text :=
  cut.start ++ cut.later.flatMap (filling ++ ·)

/-- Puts `filling` in place of the first occurrence and `pattern` back in place of the others. -/
def fillFirst (cut : Cut) (pattern filling : Text) : Text :=
  match cut.later with
  | [] => cut.start
  | second :: others => cut.start ++ filling ++ fillAll ⟨second, others⟩ pattern

end Cut

structure Edit where
  text : Text
  count : Nat
  deriving DecidableEq, Repr

/-- Replaces the first or all chosen occurrences of a pattern. -/
def substitute (matching : Matching) (mode : Mode) (pattern replacement line : Text) : Edit :=
  let cut := Cut.ofLine matching pattern line
  match mode with
  | .all => ⟨cut.fillAll replacement, cut.occurrences⟩
  | .first => ⟨cut.fillFirst pattern replacement, min 1 cut.occurrences⟩

/-- The text with every occurrence of a pattern replaced, from left to right. -/
def Text.replaceAll (pattern replacement t : Text) : Text :=
  (substitute .literal .all pattern replacement t).text

/-- A substitution rule: what to look for, what to put in its place, and how often on one line. -/
structure Rule where
  pattern : Text
  replacement : Text
  mode : Mode
  deriving DecidableEq, Repr

def Rule.apply (rule : Rule) (matching : Matching) (line : Text) : Edit :=
  substitute matching rule.mode rule.pattern rule.replacement line

/-- `multiple` rules replace every occurrence on a line, the others only the first. -/
def Mode.ofMultiple (multiple : Bool) : Mode := if multiple then .all else .first

end TreeMigration
