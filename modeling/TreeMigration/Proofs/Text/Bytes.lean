import TreeMigration.FileSystem.Operations
import Mathlib.Data.Char
import Mathlib.Data.List.Lex

/-!
Texts by their bytes. Of two characters the lesser has the lesser UTF-8 form, and neither form
begins the other, so texts are in the order of their bytes exactly if they are in the order of their
characters.

The form of one character is written as numbers in base 64 with a mark in front of each, from which
the comparison of two forms is arithmetic on their codes (`byteCodes_append_lt`). For texts it is an
induction on the characters: the first two that differ decide, in either order.

Names in a directory are sorted by their bytes where a system does the sorting, and by their
characters in the model. `bytes_lt_bytes_iff` is what makes these the same.
-/
namespace TreeMigration.Text

/-- The bytes of the UTF-8 form. -/
def bytes (t : Text) : List UInt8 := t.flatMap String.utf8EncodeChar

/-- The bytes of a character's form as numbers: digits to the base of 64 behind a mark each. -/
def byteCodes (code : Nat) : List Nat :=
  if code ≤ 127 then [code]
  else if code ≤ 2047 then [code / 64 + 192, code % 64 + 128]
  else if code ≤ 65535 then [code / 4096 + 224, code / 64 % 64 + 128, code % 64 + 128]
  else [code / 262144 + 240, code / 4096 % 64 + 128, code / 64 % 64 + 128, code % 64 + 128]

theorem map_utf8EncodeChar (c : Char) :
    (String.utf8EncodeChar c).map UInt8.toNat = byteCodes c.toNat := by
  have bound : c.toNat < 0x110000 := by
    rcases c.valid with low | ⟨-, high⟩
    · exact Nat.lt_trans low (by decide)
    · exact high
  change _ = byteCodes c.val.toNat
  change c.val.toNat < _ at bound
  unfold String.utf8EncodeChar byteCodes
  generalize c.val.toNat = code at *
  dsimp only
  split_ifs
  all_goals
    simp only [List.map_cons, List.map_nil, UInt8.toNat_ofNat', List.cons.injEq, and_true]
    omega

/-- The forms of two codes differ at some byte, and there the lesser code has the lesser byte. -/
theorem byteCodes_append_lt {code other : Nat} (less : code < other) (x y : List Nat) :
    byteCodes code ++ x < byteCodes other ++ y := by
  -- the marks keep the first bytes of forms of different lengths apart
  unfold byteCodes
  split_ifs <;> simp only [List.cons_append, List.nil_append, List.cons_lt_cons_iff] <;> omega

theorem map_bytes (t : Text) :
    (bytes t).map UInt8.toNat = t.flatMap fun c => byteCodes c.toNat := by
  rw [bytes, List.map_flatMap]
  simp only [map_utf8EncodeChar]

theorem byteCodes_ne_nil (code : Nat) : byteCodes code ≠ [] := by
  unfold byteCodes
  split_ifs <;> simp

theorem map_lt_map_iff {α β : Type} [LT α] [LT β] {f : α → β} (injective : f.Injective)
    (mono : ∀ a b, f a < f b ↔ a < b) {x y : List α} : x.map f < y.map f ↔ x < y := by
  induction x generalizing y with
  | nil => cases y <;> simp
  | cons a x ih =>
    cases y with
    | nil => simp
    | cons b y =>
      simp only [List.map_cons, List.cons_lt_cons_iff, ih, mono, injective.eq_iff]

theorem bytes_lt_of_lt {s t : Text} (less : s < t) : bytes s < bytes t := by
  rw [← map_lt_map_iff (fun _ _ => UInt8.toNat_inj.mp) (fun _ _ => UInt8.lt_iff_toNat_lt.symm),
    map_bytes, map_bytes]
  induction s generalizing t with
  | nil =>
    cases t with
    | nil => exact absurd less (List.lt_irrefl _)
    | cons d t =>
      obtain ⟨code, rest, shape⟩ := List.exists_cons_of_ne_nil (byteCodes_ne_nil d.toNat)
      rw [List.flatMap_cons, shape]
      exact List.nil_lt_cons _ _
  | cons c s ih =>
    cases t with
    | nil => exact absurd less (List.not_lt_nil _)
    | cons d t =>
      rw [List.flatMap_cons, List.flatMap_cons]
      rcases List.cons_lt_cons_iff.mp less with first | ⟨rfl, rest⟩
      · exact byteCodes_append_lt first _ _
      · exact List.append_left_lt (ih rest)

/-- Texts are in the order of their bytes exactly if they are in the order of their characters. -/
theorem bytes_lt_bytes_iff {s t : Text} : bytes s < bytes t ↔ s < t := by
  refine ⟨fun less => ?_, bytes_lt_of_lt⟩
  rcases lt_trichotomy s t with ordered | rfl | reversed
  · exact ordered
  · exact absurd less (List.lt_irrefl _)
  · exact absurd less (List.lt_asymm (bytes_lt_of_lt reversed))

theorem bytes_injective : bytes.Injective := by
  intro s t same
  rcases lt_trichotomy s t with less | equal | greater
  · exact absurd (same ▸ bytes_lt_of_lt less) (List.lt_irrefl _)
  · exact equal
  · exact absurd (same ▸ bytes_lt_of_lt greater) (List.lt_irrefl _)

theorem map_bytes_lt_map_bytes_iff {names others : List Text} :
    names.map bytes < others.map bytes ↔ names < others :=
  map_lt_map_iff bytes_injective fun _ _ => bytes_lt_bytes_iff

end TreeMigration.Text
