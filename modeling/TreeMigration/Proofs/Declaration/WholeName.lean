import TreeMigration.Declaration.Header
import Mathlib.Data.List.Basic

/-!
Names that stand in a line as a whole. The blanks around a name can stand in no identifier.

`Text.StandsIn` asks for an occurrence of the name with no identifier character directly before or
after it, which is what the matcher of whole identifiers admits, and `Text.ClearEnd` is the half of
it that concerns the front of the line. That no blank is an identifier character is a fact about two
tables; the blanks are few, so each is looked up (`blankCodes_outside`), instead of going through
the ranges.
-/
namespace TreeMigration

/-- A name that stands in a line as a whole: no identifier character directly before or after. -/
def Text.StandsIn (name line : Text) : Prop :=
  ∃ before after, line = before ++ name ++ after ∧
    before.getLast?.any Identifier.isPart = false ∧ after.head?.any Identifier.isPart = false

namespace Identifier

/-- The code points of the blanks, which are few enough to look up one by one. -/
def blankCodes : List Nat :=
  List.range' 0x9 5 ++ List.range' 0x2000 11 ++
    [0x20, 0x85, 0xA0, 0x1680, 0x2028, 0x2029, 0x202F, 0x205F, 0x3000]

theorem toNat_mem_blankCodes {c : Char} (blank : Text.isBlank c = true) :
    c.toNat ∈ blankCodes := by
  simp only [Text.isBlank, Bool.or_eq_true, decide_eq_true_eq, List.contains_iff_mem] at blank
  simp only [blankCodes, List.mem_append, List.mem_range'_1]
  rcases blank with (control | space) | listed
  · exact .inl (.inl (by omega))
  · exact .inl (.inr (by omega))
  · exact .inr listed

theorem blankCodes_outside : ∀ code ∈ blankCodes, code ≠ 0x5F ∧
    Unicode.alphabeticRanges.contains code = false ∧
    Unicode.numericRanges.contains code = false := by
  decide +kernel

theorem isPart_eq_false_of_isBlank {c : Char} (blank : Text.isBlank c = true) :
    isPart c = false := by
  obtain ⟨apart, letter, digit⟩ := blankCodes_outside _ (toNat_mem_blankCodes blank)
  have underscore : c ≠ '_' := by
    rintro rfl
    exact apart rfl
  simp [isPart, Unicode.isAlphabetic, Unicode.isNumeric, letter, digit, underscore]

end Identifier

/-- An end part of a line in front of which no identifier ends. -/
def Text.ClearEnd (line rest : Text) : Prop :=
  ∃ before, line = before ++ rest ∧ before.getLast?.any Identifier.isPart = false

end TreeMigration
