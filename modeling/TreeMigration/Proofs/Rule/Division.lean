import TreeMigration.Rule.Line
import Mathlib.Data.List.Basic
import Mathlib.Data.List.TakeWhile

/-!
Reading the marks of a rule line. Each step of the reader is described by the text it accepts: a
mark at the front, blanks before it, a mark that may be missing, and the longest beginning that lets
the rest be read.

Blanks before a mark are told from the mark because no mark begins with one (`Sharp`). A mark that
may be missing is written as `optional`, so a line with its choices is a text and not a set of
cases. `findSome?_divisions_eq_some_iff` describes the search: the first division that serves is the
one with the longest beginning, because the divisions come in descending order.
-/
namespace TreeMigration.RuleLine

abbrev Blanks := { t : Text // ∀ c ∈ t, Text.isBlank c = true }

def Blanks.ofText (t : Text) (blank : t.all Text.isBlank = true) : Blanks :=
  ⟨t, List.all_eq_true.mp blank⟩

def optional (present : Bool) (mark : Text) : Text := if present then mark else []

@[simp] theorem optional_true (mark : Text) : optional true mark = mark := rfl

@[simp] theorem optional_false (mark : Text) : optional false mark = [] := rfl

/-- A mark whose first character is no blank. -/
def Sharp (mark : Text) : Prop := ∃ c ∈ mark.head?, Text.isBlank c = false

theorem after?_eq_some_iff {mark t rest : Text} : after? mark t = some rest ↔ t = mark ++ rest :=
  List.isPrefixOf?_eq_some_iff_append_eq.trans eq_comm

theorem after?_append (mark rest : Text) : after? mark (mark ++ rest) = some rest :=
  after?_eq_some_iff.mpr rfl

/-- Blanks before a character that is none are the ones that are trimmed. -/
theorem trimStart_append {rest : Text} (blanks : Blanks)
    (sharp : rest.head?.any Text.isBlank = false) :
    Text.trimStart (blanks.val ++ rest) = rest := by
  rw [Text.trimStart, List.dropWhile_append_of_pos blanks.property]
  cases rest with
  | nil => rfl
  | cons c rest => exact List.dropWhile_cons_of_neg (by simpa using sharp)

/-- Trimming takes nothing but blanks. -/
theorem exists_blanks (t : Text) : ∃ blanks : Blanks, t = blanks.val ++ Text.trimStart t :=
  ⟨⟨t.takeWhile Text.isBlank, fun _ member => List.mem_takeWhile_imp member⟩,
    List.takeWhile_append_dropWhile.symm⟩

theorem afterBlanks?_eq_some_iff {mark t rest : Text} (sharp : Sharp mark) :
    afterBlanks? mark t = some rest ↔ ∃ blanks : Blanks, t = blanks.val ++ (mark ++ rest) := by
  obtain ⟨c, first, plain⟩ := sharp
  obtain ⟨mark, rfl⟩ := List.head?_eq_some_iff.mp first
  rw [afterBlanks?, after?_eq_some_iff]
  constructor
  · intro trimmed
    obtain ⟨blanks, whole⟩ := exists_blanks t
    exact ⟨blanks, by rw [whole, trimmed]⟩
  · rintro ⟨blanks, rfl⟩
    exact trimStart_append blanks (by simpa using plain)

theorem afterBlanks?_append {mark : Text} (sharp : Sharp mark)
    (blanks : Blanks) (rest : Text) :
    afterBlanks? mark (blanks.val ++ (mark ++ rest)) = some rest :=
  (afterBlanks?_eq_some_iff sharp).mpr ⟨blanks, rfl⟩

/-- A mark that begins with no blank is not found within blanks. -/
theorem not_prefix_blanks_append {mark rest : Text}
    (sharp : Sharp mark) (blanks : Blanks) (other : ¬ mark <+: rest) :
    ¬ mark <+: blanks.val ++ rest := by
  obtain ⟨c, first, plain⟩ := sharp
  obtain ⟨mark, rfl⟩ := List.head?_eq_some_iff.mp first
  obtain ⟨blanks, blank⟩ := blanks
  cases blanks with
  | nil => exact other
  | cons b blanks =>
    intro begins
    have same : c = b := (List.cons_prefix_cons.mp begins).1
    rw [same, blank b List.mem_cons_self] at plain
    cases plain

theorem exists_optional (mark t : Text) :
    ∃ present, t = optional present mark ++ afterOptional mark t := by
  unfold afterOptional
  cases found : after? mark t with
  | none => exact ⟨false, rfl⟩
  | some rest => exact ⟨true, after?_eq_some_iff.mp found⟩

theorem afterOptional_append {mark rest : Text} (present : Bool) (other : ¬ mark <+: rest) :
    afterOptional mark (optional present mark ++ rest) = rest := by
  unfold afterOptional
  cases present with
  | true =>
    rw [optional_true, after?_append]
    rfl
  | false =>
    rw [optional_false, List.nil_append]
    cases found : after? mark rest with
    | none => rfl
    | some back => exact absurd ⟨back, (after?_eq_some_iff.mp found).symm⟩ other

/-- The divisions of a text are those after a beginning without a line break. -/
theorem mem_divisions {t front back : Text} :
    (front, back) ∈ divisions t ↔ t = front ++ back ∧ '\n' ∉ front := by
  induction t generalizing front with
  | nil => cases front <;> simp [divisions]
  | cons c rest ih =>
    rw [divisions]
    split
    · rename_i lineBreak
      cases front with
      | nil => simp [eq_comm]
      | cons d front =>
        constructor
        · intro member
          cases List.mem_singleton.mp member
        · rintro ⟨whole, clear⟩
          obtain ⟨same, -⟩ := List.cons.inj whole
          rw [← same, lineBreak] at clear
          exact absurd List.mem_cons_self clear
    · rename_i plain
      rw [List.mem_append, List.mem_singleton, List.mem_map]
      cases front with
      | nil => simp [eq_comm]
      | cons d front =>
        constructor
        · rintro (⟨⟨shorter, back⟩, member, ⟨⟩⟩ | ⟨⟨⟩⟩)
          obtain ⟨rfl, clear⟩ := ih.mp member
          exact ⟨rfl, by simpa using ⟨Ne.symm plain, clear⟩⟩
        · rintro ⟨whole, clear⟩
          obtain ⟨rfl, rest⟩ := List.cons.inj whole
          rw [List.mem_cons, not_or] at clear
          exact .inl ⟨(front, back), ih.mpr ⟨rest, clear.2⟩, rfl⟩

/-- The longest beginning comes first. -/
theorem divisions_descending (t : Text) :
    (divisions t).Pairwise fun first second => second.1.length < first.1.length := by
  induction t with
  | nil => exact List.pairwise_singleton _ _
  | cons c rest ih =>
    rw [divisions]
    split
    · exact List.pairwise_singleton _ _
    · refine List.pairwise_append.mpr ⟨?_, List.pairwise_singleton _ _, ?_⟩
      · exact List.pairwise_map.mpr (ih.imp fun shorter => Nat.succ_lt_succ shorter)
      · intro division member last only
        obtain ⟨shorter, -, rfl⟩ := List.mem_map.mp member
        cases List.mem_singleton.mp only
        exact Nat.succ_pos _

/-- The first division that serves is the one with the longest beginning. -/
theorem findSome?_divisions_eq_some_iff {α : Type} {read : Text × Text → Option α} {t : Text}
    {value : α} :
    (divisions t).findSome? read = some value ↔ ∃ front back, t = front ++ back ∧ '\n' ∉ front ∧
      read (front, back) = some value ∧
      ∀ longer rest, t = longer ++ rest → '\n' ∉ longer → front.length < longer.length →
        read (longer, rest) = none := by
  have descending := divisions_descending t
  constructor
  · intro found
    obtain ⟨earlier, ⟨front, back⟩, later, whole, reads, none⟩ :=
      List.findSome?_eq_some_iff.mp found
    have member : (front, back) ∈ divisions t := by simp [whole]
    obtain ⟨divided, clear⟩ := mem_divisions.mp member
    refine ⟨front, back, divided, clear, reads, ?_⟩
    intro longer rest dividedToo clearToo more
    have memberToo : (longer, rest) ∈ divisions t := mem_divisions.mpr ⟨dividedToo, clearToo⟩
    rw [whole] at memberToo descending
    rcases List.mem_append.mp memberToo with before | after
    · exact none _ before
    · rcases List.mem_cons.mp after with same | after
      · cases same
        exact absurd more (Nat.lt_irrefl _)
      · have less := List.rel_of_pairwise_cons (List.pairwise_append.mp descending).2.1 after
        exact absurd more (Nat.lt_asymm less)
  · rintro ⟨front, back, divided, clear, reads, longest⟩
    have member : (front, back) ∈ divisions t := mem_divisions.mpr ⟨divided, clear⟩
    obtain ⟨earlier, later, whole⟩ := List.append_of_mem member
    refine List.findSome?_eq_some_iff.mpr ⟨earlier, _, later, whole, reads, ?_⟩
    rintro ⟨longer, rest⟩ before
    rw [whole] at descending
    have more := (List.pairwise_append.mp descending).2.2 _ before _ List.mem_cons_self
    obtain ⟨dividedToo, clearToo⟩ := mem_divisions.mp
      (show (longer, rest) ∈ divisions t by rw [whole]; exact List.mem_append_left _ before)
    exact longest longer rest dividedToo clearToo more

end TreeMigration.RuleLine
