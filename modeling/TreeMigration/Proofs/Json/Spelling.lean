import TreeMigration.Proofs.Json.Parts

/-!
String literals as they are written. A literal is made of the spellings of its characters, one after
the other; the reader reads exactly these, so what it gives does not depend on what follows the
closing quote.

`SpellsChar` has a rule for each way to write one character, and `Spells` is a list of these. The
equivalence `gives_body_iff` is proved from the reader's side by recursion on the text and from the
other side by induction on the spelling. Pairs of surrogates are the one place where a character
takes two escapes; the arithmetic on their codes is in `gives_codeEscape_of_pair`.

A spelling leaves no escape open and holds no line break (`SpellsChar.encloses`), so it is enclosed
in the sense of where literals end.
-/
namespace TreeMigration.Json.StringLiteral

open Reader

/-- How one character may be written in a literal: as itself, by a letter behind a backslash, or by
its code, which takes two escapes where the code is that of a pair of surrogates. -/
inductive SpellsChar : Text → Char → Prop
  | plain {c : Char} (noQuote : c ≠ '"') (noSlash : c ≠ '\\') (noControl : ¬ c.toNat < 0x20) :
      SpellsChar [c] c
  | short {letter c : Char} (meaning : shortEscape? letter = some c) : SpellsChar ['\\', letter] c
  | code {a b c d : Char} {n : Nat} (number : hexNumber? a b c d = some n)
      (noTrailing : isTrailing n = false) (noLeading : isLeading n = false) :
      SpellsChar ['\\', 'u', a, b, c, d] (Char.ofNat n)
  | pair {a b c d e f g h : Char} {m n : Nat} (first : hexNumber? a b c d = some m)
      (leading : isLeading m = true) (second : hexNumber? e f g h = some n)
      (trailing : isTrailing n = true) :
      SpellsChar ['\\', 'u', a, b, c, d, '\\', 'u', e, f, g, h]
        (Char.ofNat (0x10000 + (m - 0xD800) * 0x400 + (n - 0xDC00)))

/-- How a text may be written in a literal: character by character. -/
inductive Spells : Text → Text → Prop
  | nil : Spells [] []
  | cons {front raw t : Text} {c : Char} (first : SpellsChar front c) (later : Spells raw t) :
      Spells (front ++ raw) (c :: t)

/-! ## The reader of literals -/

theorem byteSize_pos (c : Char) (rest : Text) :
    1 + Text.byteSize rest ≤ Text.byteSize (c :: rest) := by
  have := Char.utf8Size_pos c
  rw [Text.byteSize]
  omega

theorem gives_hexDigits_iff {t rest : Text} {n : Nat} :
    Gives hexDigits t n rest ↔
      ∃ a b c d, t = a :: b :: c :: d :: rest ∧ hexNumber? a b c d = some n := by
  constructor
  · rintro ⟨r, read, rfl, rfl⟩
    unfold hexDigits at read
    split at read
    · cases read
    · split at read
      · rename_i a b c d behind _
        split at read
        · rename_i number
          cases read
          exact ⟨a, b, c, d, rfl, number⟩
        · cases read
      · cases read
  · rintro ⟨a, b, c, d, rfl, number⟩
    have long : ¬ Text.byteSize (a :: b :: c :: d :: rest) < 4 := by
      have := byteSize_pos a (b :: c :: d :: rest)
      have := byteSize_pos b (c :: d :: rest)
      have := byteSize_pos c (d :: rest)
      have := byteSize_pos d rest
      omega
    unfold Gives hexDigits
    rw [if_neg long]
    dsimp only
    split
    · rename_i same
      obtain rfl := Option.some.inj (number.symm.trans same)
      exact ⟨_, rfl, rfl, rfl⟩
    · rename_i none
      cases number.symm.trans none

theorem gives_expectMark_iff {mark : Char} {t rest : Text} :
    Gives (expectMark mark) t () rest ↔ t = mark :: rest := by
  constructor
  · rintro ⟨r, read, -, rfl⟩
    exact expectMark_spec read
  · rintro rfl
    exact ⟨⟨(), rest, Nat.lt_succ_self _⟩, if_pos rfl, rfl, rfl⟩

theorem value_andThen {α β : Type} {t : Text} (first : Reading α t)
    (second : Reading β first.rest) :
    (first.andThen second).value = second.value := rfl

theorem value_map {α β : Type} {t : Text} (f : α → β) (r : Reading α t) :
    (r.map f).value = f r.value := rfl

theorem isLeading_eq_false_of_isTrailing {n : Nat} (trailing : isTrailing n = true) :
    isLeading n = false := by
  simp only [isTrailing, isLeading, decide_eq_true_eq, decide_eq_false_iff_not] at *
  omega

theorem gives_codeEscape_of_single {t rest : Text} {n : Nat} (digits : Gives hexDigits t n rest)
    (noTrailing : isTrailing n = false) (noLeading : isLeading n = false) :
    Gives codeEscape t (Char.ofNat n) rest := by
  obtain ⟨first, read, rfl, rfl⟩ := digits
  refine ⟨first.map Char.ofNat, bind_eq_ok.mpr ⟨first, read, ?_⟩, rfl, rfl⟩
  rw [noTrailing, noLeading]
  rfl

theorem gives_codeEscape_of_pair {t u rest : Text} {m n : Nat}
    (digits : Gives hexDigits t m ('\\' :: 'u' :: u)) (leading : isLeading m = true)
    (others : Gives hexDigits u n rest) (trailing : isTrailing n = true) :
    Gives codeEscape t (Char.ofNat (0x10000 + (m - 0xD800) * 0x400 + (n - 0xDC00))) rest := by
  obtain ⟨first, firstRead, rfl, afterFirst⟩ := digits
  obtain ⟨slash, slashRead, -, afterSlash⟩ := gives_expectMark_iff.mpr afterFirst
  obtain ⟨letter, letterRead, -, rfl⟩ := gives_expectMark_iff.mpr afterSlash
  obtain ⟨second, secondRead, rfl, rfl⟩ := others
  have noTrailing : isTrailing first.value = false := by
    cases both : isTrailing first.value with
    | false => rfl
    | true => cases leading.symm.trans (isLeading_eq_false_of_isTrailing both)
  refine ⟨first.andThen (slash.andThen (letter.andThen (second.map fun _ =>
    Char.ofNat (0x10000 + (first.value - 0xD800) * 0x400 + (second.value - 0xDC00))))),
    bind_eq_ok.mpr ⟨first, firstRead, ?_⟩, ?_, rfl⟩
  · rw [noTrailing, leading]
    refine bind_eq_ok.mpr ⟨slash, slashRead, bind_eq_ok.mpr ⟨letter, letterRead,
      bind_eq_ok.mpr ⟨second, secondRead, ?_⟩⟩⟩
    rw [trailing]
    rfl
  · rw [value_andThen, value_andThen, value_andThen, value_map]

/-- The reader of codes reads one code or, behind a leading surrogate, a second one. -/
theorem codeEscape_of_gives {t rest : Text} {c : Char} (found : Gives codeEscape t c rest) :
    (∃ n, Gives hexDigits t n rest ∧ isTrailing n = false ∧ isLeading n = false ∧
      c = Char.ofNat n) ∨
    ∃ m n u, Gives hexDigits t m ('\\' :: 'u' :: u) ∧ isLeading m = true ∧
      Gives hexDigits u n rest ∧ isTrailing n = true ∧
      c = Char.ofNat (0x10000 + (m - 0xD800) * 0x400 + (n - 0xDC00)) := by
  obtain ⟨r, read, rfl, rfl⟩ := found
  obtain ⟨first, firstRead, read⟩ := bind_eq_ok.mp read
  split at read
  · cases read
  · rename_i noTrailing
    split at read
    · rename_i leading
      obtain ⟨slash, slashRead, read⟩ := bind_eq_ok.mp read
      obtain ⟨letter, letterRead, read⟩ := bind_eq_ok.mp read
      obtain ⟨second, secondRead, read⟩ := bind_eq_ok.mp read
      split at read
      · rename_i trailing
        have isChar := congrArg Reading.value (Except.ok.inj read)
        have isRest : second.rest = r.rest := congrArg Reading.rest (Except.ok.inj read)
        rw [value_andThen, value_andThen, value_andThen, value_map] at isChar
        have paired : first.rest = '\\' :: 'u' :: letter.rest :=
          (expectMark_spec slashRead).trans (congrArg _ (expectMark_spec letterRead))
        exact .inr ⟨first.value, second.value, letter.rest, ⟨first, firstRead, rfl, paired⟩,
          leading, ⟨second, secondRead, rfl, isRest⟩, trailing, isChar.symm⟩
      · cases read
    · rename_i noLeading
      cases read
      exact .inl ⟨first.value, ⟨first, firstRead, rfl, rfl⟩, Bool.not_eq_true _ ▸ noTrailing,
        Bool.not_eq_true _ ▸ noLeading, rfl⟩

theorem gives_codeEscape_iff {t rest : Text} {c : Char} :
    Gives codeEscape t c rest ↔
      ∃ front, t = front ++ rest ∧ SpellsChar ('\\' :: 'u' :: front) c := by
  constructor
  · intro found
    rcases codeEscape_of_gives found with
      ⟨n, digits, noTrailing, noLeading, same⟩ | ⟨m, n, u, digits, leading, others, trailing, same⟩
    · obtain ⟨a, b, c, d, rfl, number⟩ := gives_hexDigits_iff.mp digits
      rw [same]
      exact ⟨[a, b, c, d], rfl, .code number noTrailing noLeading⟩
    · obtain ⟨a, b, c, d, rfl, number⟩ := gives_hexDigits_iff.mp digits
      obtain ⟨e, f, g, h, rfl, numberToo⟩ := gives_hexDigits_iff.mp others
      rw [same]
      exact ⟨[a, b, c, d, '\\', 'u', e, f, g, h], rfl, .pair number leading numberToo trailing⟩
  · rintro ⟨front, rfl, spelled⟩
    cases spelled with
    | short meaning => cases meaning
    | code number noTrailing noLeading =>
      exact gives_codeEscape_of_single (gives_hexDigits_iff.mpr ⟨_, _, _, _, rfl, number⟩)
        noTrailing noLeading
    | pair number leading numberToo trailing =>
      exact gives_codeEscape_of_pair (gives_hexDigits_iff.mpr ⟨_, _, _, _, rfl, number⟩) leading
        (gives_hexDigits_iff.mpr ⟨_, _, _, _, rfl, numberToo⟩) trailing

theorem gives_escape_iff {t rest : Text} {c : Char} :
    Gives escape t c rest ↔ ∃ front, t = front ++ rest ∧ SpellsChar ('\\' :: front) c := by
  constructor
  · rintro ⟨r, read, rfl, rfl⟩
    unfold escape at read
    split at read
    · cases read
    · rename_i letter behind
      split at read
      · rename_i meaning
        cases read
        exact ⟨[letter], rfl, .short meaning⟩
      · split at read
        · rename_i code
          obtain ⟨inner, innerRead, rfl⟩ := map_eq_ok.mp read
          obtain ⟨front, whole, spelled⟩ := gives_codeEscape_iff.mp ⟨inner, innerRead, rfl, rfl⟩
          rw [code]
          exact ⟨'u' :: front, congrArg ('u' :: ·) whole, spelled⟩
        · cases read
  · rintro ⟨front, rfl, spelled⟩
    have byCode : ∀ behind, SpellsChar ('\\' :: 'u' :: behind) c →
        Gives escape ('u' :: (behind ++ rest)) c rest := by
      intro behind spelled
      obtain ⟨inner, innerRead, isChar, isRest⟩ :=
        gives_codeEscape_iff.mpr ⟨behind, rfl, spelled⟩
      exact ⟨_, map_eq_ok.mpr ⟨inner, innerRead, rfl⟩, isChar, isRest⟩
    cases spelled with
    | plain _ noSlash => exact absurd rfl noSlash
    | @short letter _ meaning =>
      refine ⟨⟨c, rest, Nat.lt_succ_self _⟩, ?_, rfl, rfl⟩
      simp only [escape, List.singleton_append, meaning]
    | code number noTrailing noLeading => exact byCode _ (.code number noTrailing noLeading)
    | pair first leading second trailing => exact byCode _ (.pair first leading second trailing)

theorem gives_body_quote (rest : Text) : Gives body ('"' :: rest) [] rest := by
  refine ⟨⟨[], rest, Nat.lt_succ_self _⟩, ?_, rfl, rfl⟩
  rw [body]
  exact if_pos rfl

theorem gives_body_plain {c : Char} {t s rest : Text} (noQuote : c ≠ '"') (noSlash : c ≠ '\\')
    (noControl : ¬ c.toNat < 0x20) (later : Gives body t s rest) :
    Gives body (c :: t) (c :: s) rest := by
  obtain ⟨r, read, rfl, rfl⟩ := later
  refine ⟨(r.map (c :: ·)).within (Text.length_le_cons _ _), ?_, rfl, rfl⟩
  rw [body]
  refine (if_neg noQuote).trans ((if_neg noSlash).trans ((if_neg noControl).trans ?_))
  exact bind_eq_ok.mpr ⟨r, read, rfl⟩

theorem gives_body_escape {c : Char} {t u s rest : Text} (special : Gives escape t c u)
    (later : Gives body u s rest) : Gives body ('\\' :: t) (c :: s) rest := by
  obtain ⟨first, firstRead, rfl, rfl⟩ := special
  obtain ⟨r, read, rfl, rfl⟩ := later
  refine ⟨(first.andThen (r.map (first.value :: ·))).within (Text.length_le_cons _ _), ?_, rfl, rfl⟩
  rw [body]
  refine (if_neg (by decide)).trans ((if_pos rfl).trans ?_)
  exact bind_eq_ok.mpr ⟨first, firstRead, bind_eq_ok.mpr ⟨r, read, rfl⟩⟩

/-- A literal is read from after its opening quote exactly as it is written, up to the quote that
closes it. -/
theorem gives_body_iff {t s rest : Text} :
    Gives body t s rest ↔ ∃ raw, t = raw ++ '"' :: rest ∧ Spells raw s := by
  constructor
  · rintro ⟨r, read, rfl, rfl⟩
    fun_induction body t with
    | case1 => cases read
    | case2 behind =>
      cases read
      exact ⟨[], rfl, .nil⟩
    | case3 behind _ ih =>
      obtain ⟨special, specialRead, read⟩ := bind_eq_ok.mp read
      obtain ⟨later, laterRead, read⟩ := bind_eq_ok.mp read
      cases read
      obtain ⟨front, whole, first⟩ := gives_escape_iff.mp ⟨special, specialRead, rfl, rfl⟩
      obtain ⟨raw, wholeToo, spelled⟩ := ih special later laterRead
      refine ⟨('\\' :: front) ++ raw, ?_, .cons first spelled⟩
      calc '\\' :: behind = '\\' :: (front ++ special.rest) := congrArg _ whole
        _ = '\\' :: (front ++ (raw ++ '"' :: later.rest)) :=
          congrArg (fun rest => '\\' :: (front ++ rest)) wholeToo
        _ = ('\\' :: front) ++ raw ++ '"' :: later.rest := by
          simp only [List.append_assoc, List.cons_append]
    | case4 => cases read
    | case5 c behind noQuote noSlash noControl ih =>
      obtain ⟨later, laterRead, read⟩ := bind_eq_ok.mp read
      cases read
      obtain ⟨raw, whole, spelled⟩ := ih later laterRead
      exact ⟨[c] ++ raw, congrArg _ whole, .cons (.plain noQuote noSlash noControl) spelled⟩
  · rintro ⟨raw, rfl, spelled⟩
    induction spelled with
    | nil => exact gives_body_quote rest
    | @cons front raw s c first later ih =>
      rw [List.append_assoc]
      have byEscape : ∀ behind, SpellsChar ('\\' :: behind) c →
          Gives body ('\\' :: (behind ++ (raw ++ '"' :: rest))) (c :: s) rest :=
        fun behind spelled => gives_body_escape (gives_escape_iff.mpr ⟨behind, rfl, spelled⟩) ih
      cases first with
      | plain noQuote noSlash noControl => exact gives_body_plain noQuote noSlash noControl ih
      | short meaning => exact byEscape _ (.short meaning)
      | code number noTrailing noLeading => exact byEscape _ (.code number noTrailing noLeading)
      | pair first leading second trailing => exact byEscape _ (.pair first leading second trailing)

/-! ## What a written literal looks like -/

theorem isPlain_of_hexNumber? {a b c d : Char} {n : Nat} (number : hexNumber? a b c d = some n) :
    ∀ x ∈ [a, b, c, d], IsPlain x ∧ x ≠ '\n' := by
  have digit : ∀ {x : Char} {v : Nat}, hexValue? x = some v → IsPlain x ∧ x ≠ '\n' := by
    intro x v value
    refine ⟨isPlain_of_hexValue? value, ?_⟩
    rintro rfl
    cases value
  simp only [hexNumber?, Option.bind_eq_bind, Option.bind_eq_some_iff] at number
  obtain ⟨_, first, _, second, _, third, _, fourth, -⟩ := number
  simp only [List.mem_cons, List.not_mem_nil, or_false]
  rintro x (rfl | rfl | rfl | rfl)
  · exact digit first
  · exact digit second
  · exact digit third
  · exact digit fourth

/-- A written character is passed as a whole: it leaves no escape open and holds no line break. -/
theorem SpellsChar.encloses {front : Text} {c : Char} (spelled : SpellsChar front c) :
    '\n' ∉ front ∧ ∀ later, Enclosed later → Enclosed (front ++ later) := by
  cases spelled with
  | plain noQuote noSlash noControl =>
    refine ⟨?_, fun later enclosed => .plain noQuote noSlash enclosed⟩
    intro member
    rw [← List.mem_singleton.mp member] at noControl
    exact noControl (by decide)
  | @short letter _ meaning =>
    refine ⟨?_, fun later enclosed => .escape letter enclosed⟩
    simp only [List.mem_cons, List.not_mem_nil, or_false, not_or]
    refine ⟨by decide, ?_⟩
    rintro rfl
    cases meaning
  | @code a b c d _ number =>
    have plain := isPlain_of_hexNumber? number
    have clear : '\n' ∉ [a, b, c, d] := fun member => (plain _ member).2 rfl
    refine ⟨by simpa using clear, fun later enclosed => ?_⟩
    exact .escape 'u' (.append (fun x member => (plain x member).1) enclosed)
  | @pair a b c d e f g h _ _ first _ second =>
    have plain := isPlain_of_hexNumber? first
    have plainToo := isPlain_of_hexNumber? second
    have clear : '\n' ∉ [a, b, c, d] := fun member => (plain _ member).2 rfl
    have clearToo : '\n' ∉ [e, f, g, h] := fun member => (plainToo _ member).2 rfl
    refine ⟨by simpa [and_assoc] using And.intro clear clearToo, fun later enclosed => ?_⟩
    exact .escape 'u' (@Enclosed.append [a, b, c, d] _ (fun x member => (plain x member).1)
      (.escape 'u' (@Enclosed.append [e, f, g, h] _ (fun x member => (plainToo x member).1)
        enclosed)))

namespace Spells

variable {raw s : Text}

theorem enclosed (spelled : Spells raw s) : Enclosed raw := by
  induction spelled with
  | nil => exact .nil
  | cons first _ ih => exact first.encloses.2 _ ih

theorem newline_not_mem (spelled : Spells raw s) : '\n' ∉ raw := by
  induction spelled with
  | nil => exact List.not_mem_nil
  | cons first _ ih =>
    rw [List.mem_append, not_or]
    exact ⟨first.encloses.1, ih⟩

/-- Without a backslash a literal stands for itself. -/
theorem eq_of_not_mem (spelled : Spells raw s) (unescaped : '\\' ∉ raw) : raw = s := by
  induction spelled with
  | nil => rfl
  | cons first _ ih =>
    rw [List.mem_append, not_or] at unescaped
    cases first with
    | plain => exact congrArg (_ :: ·) (ih unescaped.2)
    | short => exact absurd List.mem_cons_self unescaped.1
    | code => exact absurd List.mem_cons_self unescaped.1
    | pair => exact absurd List.mem_cons_self unescaped.1

end Spells

end TreeMigration.Json.StringLiteral
