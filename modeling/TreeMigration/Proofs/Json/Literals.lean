import TreeMigration.Json.StringLiteral
import TreeMigration.Proofs.Outcome

/-!
Where a string literal ends. The reader passes escapes as a whole, code escapes with their digits
and halves of pairs together; still it ends at the first quote that no backslash precedes, counting
backslashes in pairs.

`Enclosed` describes a text between two quotes by its characters alone: plain ones, and a backslash
with whatever follows it. It does not know which escapes are allowed, and that is enough to say
where the literal ends, since no allowed escape has a quote or a backslash in it behind its second
character. Two literals at one place are the same (`Enclosed.append_inj`), so a literal that is
known to be enclosed is the one that the reader took (`rest_of_enclosed`).
-/
namespace TreeMigration.Json.StringLiteral

/-- The text may stand between two quotes as one literal: every quote and backslash in it belongs
to an escape, and no escape is left open at its end. -/
inductive Enclosed : Text → Prop
  | nil : Enclosed []
  | plain {c : Char} {rest : Text} (noQuote : c ≠ '"') (noSlash : c ≠ '\\')
      (later : Enclosed rest) : Enclosed (c :: rest)
  | escape (c : Char) {rest : Text} (later : Enclosed rest) : Enclosed ('\\' :: c :: rest)

/-- A character that is read as itself within a literal and neither ends it nor begins an escape. -/
def IsPlain (c : Char) : Prop := c ≠ '"' ∧ c ≠ '\\'

instance (c : Char) : Decidable (IsPlain c) := inferInstanceAs (Decidable (c ≠ '"' ∧ c ≠ '\\'))

theorem Enclosed.append {front rest : Text} (plain : ∀ c ∈ front, IsPlain c)
    (later : Enclosed rest) : Enclosed (front ++ rest) := by
  induction front with
  | nil => exact later
  | cons c front ih =>
    have here := plain c List.mem_cons_self
    exact .plain here.1 here.2 (ih fun d member => plain d (List.mem_cons_of_mem c member))

theorem Enclosed.of_plain {t : Text} (plain : ∀ c ∈ t, IsPlain c) : Enclosed t := by
  have enclosed := Enclosed.append plain .nil
  rwa [List.append_nil] at enclosed

/-- A quote within an enclosed text stands behind a backslash. -/
theorem Enclosed.getLast?_of_append {front behind : Text}
    (enclosed : Enclosed (front ++ '"' :: behind)) : front.getLast? = some '\\' := by
  generalize whole : front ++ '"' :: behind = t at enclosed
  induction enclosed generalizing front with
  | nil => simp at whole
  | plain noQuote _ _ ih =>
    cases front with
    | nil => exact absurd (List.cons.inj whole).1.symm noQuote
    | cons d front => simp [List.getLast?_cons, ih (List.cons.inj whole).2]
  | escape c _ ih =>
    cases front with
    | nil => exact absurd (List.cons.inj whole).1 (by decide)
    | cons d front =>
      obtain ⟨rfl, rest⟩ := List.cons.inj whole
      cases front with
      | nil => rfl
      | cons e front => simp [List.getLast?_cons, ih (List.cons.inj rest).2]

/-- A literal has one end only. -/
theorem Enclosed.append_inj {first second t u : Text} (enclosed : Enclosed first)
    (enclosedToo : Enclosed second) (same : first ++ '"' :: t = second ++ '"' :: u) :
    first = second ∧ t = u := by
  induction enclosed generalizing second with
  | nil =>
    cases enclosedToo with
    | nil => exact ⟨rfl, (List.cons.inj same).2⟩
    | plain noQuote _ _ => exact absurd (List.cons.inj same).1.symm noQuote
    | escape _ _ => exact absurd (List.cons.inj same).1 (by decide)
  | plain noQuote noSlash _ ih =>
    cases enclosedToo with
    | nil => exact absurd (List.cons.inj same).1 noQuote
    | plain _ _ laterToo =>
      obtain ⟨rfl, rest⟩ := List.cons.inj same
      obtain ⟨rfl, ends⟩ := ih laterToo rest
      exact ⟨rfl, ends⟩
    | escape _ _ => exact absurd (List.cons.inj same).1 noSlash
  | escape c _ ih =>
    cases enclosedToo with
    | nil => exact absurd (List.cons.inj same).1 (by decide)
    | plain _ noSlash _ => exact absurd (List.cons.inj same).1.symm noSlash
    | escape _ laterToo =>
      obtain ⟨rfl, rest⟩ := List.cons.inj (List.cons.inj same).2
      obtain ⟨rfl, ends⟩ := ih laterToo rest
      exact ⟨rfl, ends⟩

/-! ## What the reader passes -/

theorem isPlain_of_hexValue? {c : Char} {value : Nat} (digit : hexValue? c = some value) :
    IsPlain c := by
  constructor
  · rintro rfl
    cases digit
  · rintro rfl
    cases digit

theorem hexDigits_spec {t : Text} {r : Reading Nat t} (read : hexDigits t = .ok r) :
    ∃ digits, t = digits ++ r.rest ∧ ∀ c ∈ digits, IsPlain c := by
  unfold hexDigits at read
  split at read
  · cases read
  · split at read
    · rename_i a b c d rest _
      split at read
      · rename_i code number
        cases read
        simp only [hexNumber?, Option.bind_eq_bind, Option.bind_eq_some_iff] at number
        obtain ⟨_, first, _, second, _, third, _, fourth, -⟩ := number
        refine ⟨[a, b, c, d], rfl, ?_⟩
        simp only [List.mem_cons, List.not_mem_nil, or_false]
        rintro digit (rfl | rfl | rfl | rfl)
        · exact isPlain_of_hexValue? first
        · exact isPlain_of_hexValue? second
        · exact isPlain_of_hexValue? third
        · exact isPlain_of_hexValue? fourth
      · cases read
    · cases read

theorem expectMark_spec {mark : Char} {t : Text} {r : Reading Unit t}
    (read : expectMark mark t = .ok r) : t = mark :: r.rest := by
  unfold expectMark at read
  split at read
  · cases read
  · split at read
    · rename_i same
      cases read
      rw [same]
    · cases read

theorem codeEscape_spec {t : Text} {r : Reading Char t} (read : codeEscape t = .ok r) :
    ∃ front, t = front ++ r.rest ∧ ∀ later, Enclosed later → Enclosed (front ++ later) := by
  obtain ⟨first, firstRead, read⟩ := bind_eq_ok.mp read
  obtain ⟨digits, begins, plain⟩ := hexDigits_spec firstRead
  split at read
  · cases read
  · split at read
    · obtain ⟨slash, slashRead, read⟩ := bind_eq_ok.mp read
      obtain ⟨letter, letterRead, read⟩ := bind_eq_ok.mp read
      obtain ⟨second, secondRead, read⟩ := bind_eq_ok.mp read
      obtain ⟨digitsToo, beginsToo, plainToo⟩ := hexDigits_spec secondRead
      split at read
      · obtain rfl := Except.ok.inj read
        refine ⟨digits ++ '\\' :: 'u' :: digitsToo, ?_, ?_⟩
        · have paired : first.rest = '\\' :: 'u' :: letter.rest :=
            (expectMark_spec slashRead).trans (congrArg _ (expectMark_spec letterRead))
          calc t = digits ++ first.rest := begins
            _ = digits ++ '\\' :: 'u' :: letter.rest := congrArg _ paired
            _ = digits ++ '\\' :: 'u' :: (digitsToo ++ second.rest) :=
              congrArg (fun rest => digits ++ '\\' :: 'u' :: rest) beginsToo
            _ = (digits ++ '\\' :: 'u' :: digitsToo) ++ second.rest := by
              simp only [List.append_assoc, List.cons_append]
        · intro later enclosed
          rw [List.append_assoc]
          exact .append plain (.escape 'u' (.append plainToo enclosed))
      · cases read
    · cases read
      exact ⟨digits, begins, fun later enclosed => .append plain enclosed⟩

theorem escape_spec {t : Text} {r : Reading Char t} (read : escape t = .ok r) :
    ∃ front, t = front ++ r.rest ∧
      ∀ later, Enclosed later → Enclosed ('\\' :: (front ++ later)) := by
  unfold escape at read
  split at read
  · cases read
  · rename_i c rest
    split at read
    · cases read
      exact ⟨[c], rfl, fun later enclosed => .escape c enclosed⟩
    · split at read
      · rename_i letter
        obtain ⟨code, codeRead, rfl⟩ := map_eq_ok.mp read
        obtain ⟨front, begins, encloses⟩ := codeEscape_spec codeRead
        refine ⟨c :: front, congrArg _ begins, ?_⟩
        intro later enclosed
        exact .escape c (encloses later enclosed)
      · cases read

/-- A literal read from after its opening quote ends with the quote before what was left. -/
theorem body_spec {t : Text} {r : Reading Text t} (read : body t = .ok r) :
    ∃ raw, t = raw ++ '"' :: r.rest ∧ Enclosed raw := by
  fun_induction body t with
  | case1 => cases read
  | case2 rest =>
    cases read
    exact ⟨[], rfl, .nil⟩
  | case3 rest _ ih =>
    obtain ⟨special, specialRead, read⟩ := bind_eq_ok.mp read
    obtain ⟨later, laterRead, read⟩ := bind_eq_ok.mp read
    cases read
    obtain ⟨front, begins, encloses⟩ := escape_spec specialRead
    obtain ⟨raw, ends, enclosed⟩ := ih special laterRead
    refine ⟨'\\' :: (front ++ raw), ?_, encloses raw enclosed⟩
    calc '\\' :: rest = '\\' :: (front ++ special.rest) := congrArg _ begins
      _ = '\\' :: (front ++ (raw ++ '"' :: later.rest)) :=
        congrArg (fun behind => '\\' :: (front ++ behind)) ends
      _ = '\\' :: (front ++ raw) ++ '"' :: later.rest := by
        simp only [List.append_assoc, List.cons_append]
  | case4 => cases read
  | case5 c rest noQuote noSlash _ ih =>
    obtain ⟨later, laterRead, read⟩ := bind_eq_ok.mp read
    cases read
    obtain ⟨raw, ends, enclosed⟩ := ih laterRead
    exact ⟨c :: raw, congrArg _ ends, .plain noQuote noSlash enclosed⟩

/-- An enclosed text before a quote is the whole literal. -/
theorem rest_of_enclosed {front rest t : Text} (enclosed : Enclosed front)
    (whole : t = front ++ '"' :: rest) {r : Reading Text t} (read : body t = .ok r) :
    r.rest = rest := by
  obtain ⟨raw, same, enclosedToo⟩ := body_spec read
  exact (enclosed.append_inj enclosedToo (whole.symm.trans same)).2.symm

/-- A text without escapes is read as itself. -/
theorem value_of_plain {word rest t : Text} (plain : ∀ c ∈ word, IsPlain c)
    (whole : t = word ++ '"' :: rest) {r : Reading Text t} (read : body t = .ok r) :
    r.value = word := by
  fun_induction body t generalizing word with
  | case1 => cases read
  | case2 behind =>
    cases read
    cases word with
    | nil => rfl
    | cons c word => exact absurd (List.cons.inj whole).1.symm (plain c List.mem_cons_self).1
  | case3 =>
    cases word with
    | nil => exact absurd (List.cons.inj whole).1 (by decide)
    | cons c word => exact absurd (List.cons.inj whole).1.symm (plain c List.mem_cons_self).2
  | case4 => cases read
  | case5 c behind noQuote _ _ ih =>
    obtain ⟨later, laterRead, read⟩ := bind_eq_ok.mp read
    cases read
    cases word with
    | nil => exact absurd (List.cons.inj whole).1 noQuote
    | cons d word =>
      obtain ⟨rfl, same⟩ := List.cons.inj whole
      exact congrArg (c :: ·) (ih (fun d member => plain d (List.mem_cons_of_mem c member)) same
        laterRead)

/-- A literal that begins before a quote with no backslash before it ends there or earlier. -/
theorem ends_by {front rest t : Text} (unescaped : front.getLast? ≠ some '\\')
    (whole : t = front ++ '"' :: rest) {r : Reading Text t} (read : body t = .ok r) :
    (Enclosed front ∧ r.rest = rest) ∨
      ∃ raw behind, Enclosed raw ∧ front = raw ++ '"' :: behind ∧
        r.rest = behind ++ '"' :: rest := by
  obtain ⟨raw, same, enclosed⟩ := body_spec read
  replace same := whole.symm.trans same
  rcases List.append_eq_append_iff.mp same with ⟨beyond, longer, left⟩ | ⟨beyond, shorter, left⟩
  · cases beyond with
    | nil =>
      rw [List.append_nil] at longer
      rw [longer] at enclosed
      exact .inl ⟨enclosed, (List.cons.inj left).2.symm⟩
    | cons c beyond =>
      obtain ⟨rfl, -⟩ := List.cons.inj left
      rw [longer] at enclosed
      exact absurd enclosed.getLast?_of_append unescaped
  · cases beyond with
    | nil =>
      rw [List.append_nil] at shorter
      rw [← shorter] at enclosed
      exact .inl ⟨enclosed, (List.cons.inj left).2⟩
    | cons c beyond =>
      obtain ⟨rfl, behind⟩ := List.cons.inj left
      exact .inr ⟨raw, beyond, enclosed, shorter, behind⟩

end TreeMigration.Json.StringLiteral
