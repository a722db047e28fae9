import TreeMigration.Proofs.Json.Parts
import Mathlib.Data.List.TakeWhile

/-!
The string literals of a JSON text. Outside of them only few characters may stand, so a text that is
read as a value passes from literal to literal, and the literals passed are those of the value.

`Passes` goes from one text to an end part of it and collects the literals on the way, looking only
at whether a character may stand outside and where literals end. Every reader passes what it reads,
and `passes_value` says that the literals are the strings of the value in order, names of members
included; the induction is on the allowance of nesting, with one lemma for each reader.

The use of it is to recognise literals from outside. A quote with no backslash before it, behind
which stands what could not stand outside of literals, opens one (`Passes.outside_at`). On a rule
line whose text is an object this tells the literals from the values that the form of the line has
cut out of it.
-/
namespace TreeMigration.Json

def isOuter (c : Char) : Bool :=
  isSpace c || c.isDigit ||
    ['\x7b', '\x7d', '[', ']', ':', ',', '+', '-', '.', 'E', 't', 'r', 'u', 'e', 'f', 'a', 'l', 's',
      'n'].contains c

/-- From one text to an end part of it, outside of literals at both, with the literals between. -/
inductive Passes : Text → List Text → Text → Prop
  | done (t : Text) : Passes t [] t
  | mark {c : Char} {t rest : Text} {strings : List Text} (outer : isOuter c = true)
      (later : Passes t strings rest) : Passes (c :: t) strings rest
  | literal {t behind rest contents : Text} {strings : List Text}
      (read : Reader.Gives StringLiteral.body t contents behind)
      (later : Passes behind strings rest) : Passes ('"' :: t) (contents :: strings) rest

namespace Passes

theorem trans {t behind rest : Text} {strings others : List Text} (first : Passes t strings behind)
    (second : Passes behind others rest) : Passes t (strings ++ others) rest := by
  induction first with
  | done => exact second
  | mark outer _ ih => exact .mark outer (ih second)
  | literal read _ ih => exact .literal read (ih second)

theorem marks (front : Text) {rest : Text} (outer : ∀ c ∈ front, isOuter c = true) :
    Passes (front ++ rest) [] rest := by
  induction front with
  | nil => exact .done rest
  | cons c front ih =>
    exact .mark (outer c List.mem_cons_self)
      (ih fun d member => outer d (List.mem_cons_of_mem c member))

theorem dropWhile {p : Char → Bool} (outer : ∀ c, p c = true → isOuter c = true) (t : Text) :
    Passes t [] (t.dropWhile p) := by
  have passed : Passes (t.takeWhile p ++ t.dropWhile p) [] (t.dropWhile p) :=
    marks _ fun c member => outer c (List.mem_takeWhile_imp member)
  rwa [List.takeWhile_append_dropWhile] at passed

theorem skipSpace (t : Text) : Passes t [] (skipSpace t) :=
  dropWhile (fun c space => by rw [isOuter, space]; rfl) t

theorem digits (t : Text) : Passes t [] (t.dropWhile Char.isDigit) :=
  dropWhile (fun c digit => by rw [isOuter, digit, Bool.or_true]; rfl) t

end Passes

/-! ## Numbers -/

namespace Number

theorem isOuter_of_isDigit {c : Char} (digit : c.isDigit = true) : isOuter c = true := by
  rw [isOuter, digit, Bool.or_true]
  rfl

theorem passes_integerDigits {t read rest : Text} (found : integerDigits t = .ok (read, rest)) :
    Passes t [] rest := by
  unfold integerDigits at found
  split at found
  · cases found
  · split at found
    · rename_i zero
      split at found
      · cases found
      · cases found
        exact .mark (by rw [zero]; rfl) (.done _)
    · split at found
      · rename_i digit
        cases found
        exact .mark (isOuter_of_isDigit digit) (.digits _)
      · cases found

theorem passes_fractionDigits {t read rest : Text} (found : fractionDigits t = .ok (read, rest)) :
    Passes t [] rest := by
  unfold fractionDigits at found
  split at found
  · dsimp only at found
    split at found
    · cases found
    · cases found
      exact .mark (by decide) (.digits _)
  · cases found
    exact .done _

theorem passes_exponentDigits {growing : Bool} {value result : Nat} {t rest : Text}
    (found : exponentDigits growing value t = .ok (result, rest)) : Passes t [] rest := by
  fun_induction exponentDigits growing value t with
  | case1 =>
    cases found
    exact .done _
  | case2 value c behind digit grown small ih => exact .mark (isOuter_of_isDigit digit) (ih found)
  | case3 => cases found
  | case4 value c behind digit =>
    obtain ⟨-, rfl⟩ := Prod.mk.inj (Except.ok.inj found)
    exact .mark (isOuter_of_isDigit digit) (.digits _)
  | case5 =>
    cases found
    exact .done _

theorem passes_sign (t : Text) : Passes t [] (sign t).2 := by
  unfold sign
  split
  · exact .mark (by decide) (.done _)
  · exact .mark (by decide) (.done _)
  · exact .done _

theorem passes_exponent {significand : Nat} {t rest : Text} {power : Int}
    (found : exponent significand t = .ok (power, rest)) : Passes t [] rest := by
  unfold exponent at found
  split at found
  · cases found
    exact .done _
  · rename_i mark behind
    split at found
    · rename_i marked
      have outer : isOuter mark = true := by
        rcases marked with rfl | rfl
        · decide
        · decide
      have signed := passes_sign behind
      unfold exponentValue at found
      split at found
      · cases found
      · rename_i shape
        rw [shape] at signed
        split at found
        · obtain ⟨⟨result, after⟩, digits, found⟩ := bind_eq_ok.mp found
          obtain ⟨-, rfl⟩ := Prod.mk.inj (Except.ok.inj found)
          exact .mark outer (signed.trans (passes_exponentDigits digits))
        · cases found
    · cases found
      exact .done _

theorem passes_afterUnsigned {t rest : Text} (found : afterUnsigned t = .ok rest) :
    Passes t [] rest := by
  obtain ⟨⟨integer, afterInteger⟩, first, found⟩ := bind_eq_ok.mp found
  obtain ⟨⟨fraction, afterFraction⟩, second, found⟩ := bind_eq_ok.mp found
  obtain ⟨⟨power, after⟩, third, found⟩ := bind_eq_ok.mp found
  dsimp only at found
  split at found
  · cases found
  · cases found
    exact (passes_integerDigits first).trans
      ((passes_fractionDigits second).trans (passes_exponent third))

end Number

/-! ## Values -/

mutual

/-- The strings of a value in the order of its text, names of members included. -/
def Value.strings : Value → List Text
  | .null => []
  | .boolean _ => []
  | .number _ => []
  | .string t => [t]
  | .array items => stringsOfItems items
  | .object members => stringsOfMembers members

def stringsOfItems : List Value → List Text
  | [] => []
  | item :: later => item.strings ++ stringsOfItems later

def stringsOfMembers : Members → List Text
  | [] => []
  | (name, contents) :: later => name :: contents.strings ++ stringsOfMembers later

end

theorem stringsOfItems_eq (items : List Value) :
    stringsOfItems items = items.flatMap Value.strings := by
  induction items with
  | nil => rw [stringsOfItems, List.flatMap_nil]
  | cons item later ih => rw [stringsOfItems, ih, List.flatMap_cons]

theorem stringsOfMembers_eq (members : Members) :
    stringsOfMembers members = members.flatMap fun entry => entry.1 :: entry.2.strings := by
  induction members with
  | nil => rw [stringsOfMembers, List.flatMap_nil]
  | cons entry later ih => rw [stringsOfMembers, ih, List.flatMap_cons]

open Reader

variable {α : Type}

theorem passes_laterItems {item : Reader α} {close : Char} {atEnd expected : Cause}
    {strings : α → List Text} (outer : isOuter close = true)
    (spec : ∀ t value rest, item.Gives t value rest → Passes t (strings value) rest)
    {t rest : Text} {values : List α}
    (found : Gives (laterItems item close atEnd expected) t values rest) :
    Passes t (values.flatMap strings) rest := by
  induction values generalizing t with
  | nil =>
    rcases gives_laterItems found with ⟨shape, -⟩ | ⟨_, _, _, _, _, _, _, none⟩
    · have spaced := Passes.skipSpace t
      rw [shape] at spaced
      exact spaced.trans (.mark outer (.done rest))
    · cases none
  | cons value later ih =>
    rcases gives_laterItems found with ⟨_, none⟩ | ⟨after, _, _, _, shape, first, rest, same⟩
    · cases none
    · obtain ⟨rfl, rfl⟩ := List.cons.inj same
      have spaced := Passes.skipSpace t
      rw [shape] at spaced
      have item := (Passes.skipSpace after).trans (spec _ _ _ first)
      exact spaced.trans (.mark (by decide) (item.trans (ih rest)))

theorem passes_items {item : Reader α} {close : Char} {atEnd expected : Cause}
    {strings : α → List Text} (outer : isOuter close = true)
    (spec : ∀ t value rest, item.Gives t value rest → Passes t (strings value) rest)
    {t rest : Text} {values : List α}
    (found : Gives (items item close atEnd expected) t values rest) :
    Passes t (values.flatMap strings) rest := by
  have spaced := Passes.skipSpace t
  rcases gives_items found with ⟨shape, rfl⟩ | ⟨_, _, _, first, later, rfl⟩
  · rw [shape] at spaced
    exact spaced.trans (.mark outer (.done rest))
  · exact spaced.trans ((spec _ _ _ first).trans (passes_laterItems outer spec later))

theorem passes_member {read : Reader Value}
    (spec : ∀ t contents rest, read.Gives t contents rest → Passes t contents.strings rest)
    {t rest : Text} {entry : Text × Value} (found : Gives (member read) t entry rest) :
    Passes t (entry.1 :: entry.2.strings) rest := by
  obtain ⟨behind, afterName, afterColon, rfl, name, shape, contents⟩ := gives_member found
  have spaced := Passes.skipSpace afterName
  rw [shape] at spaced
  have later := (Passes.skipSpace afterColon).trans (spec _ _ _ contents)
  exact .literal name (spaced.trans (.mark (by decide) later))

theorem passes_number {t rest : Text} {contents : Value} (found : Gives number t contents rest) :
    Passes t contents.strings rest := by
  obtain ⟨literal, rfl, digits⟩ := gives_number found
  have passed := Number.passes_afterUnsigned digits
  rw [Value.strings]
  split at passed
  · rename_i minus
    obtain ⟨t, rfl⟩ := List.head?_eq_some_iff.mp minus
    exact .mark (by decide) passed
  · exact passed

theorem ValueParts.passes {allowance : Nat} {t rest : Text} {contents : Value}
    (parts : ValueParts allowance t contents rest)
    (nested : ∀ smaller, allowance = smaller + 1 → ∀ t contents rest,
      Gives (value smaller) t contents rest → Passes t contents.strings rest) :
    Passes t contents.strings rest := by
  cases parts with
  | null =>
    rw [Value.strings]
    exact .marks ['n', 'u', 'l', 'l'] (List.all_eq_true.mp (by decide))
  | truth =>
    rw [Value.strings]
    exact .marks ['t', 'r', 'u', 'e'] (List.all_eq_true.mp (by decide))
  | falsehood =>
    rw [Value.strings]
    exact .marks ['f', 'a', 'l', 's', 'e'] (List.all_eq_true.mp (by decide))
  | number read => exact passes_number read
  | string read =>
    rw [Value.strings]
    exact .literal read (.done rest)
  | array read =>
    rw [Value.strings, stringsOfItems_eq]
    exact .mark (by decide) (passes_items (by decide) (nested _ rfl) read)
  | object read =>
    rw [Value.strings, stringsOfMembers_eq]
    apply Passes.mark (by decide)
    exact passes_items (by decide) (fun _ _ _ entry => passes_member (nested _ rfl) entry) read

/-- A text read as a value passes the strings of that value. -/
theorem passes_value {allowance : Nat} {t rest : Text} {contents : Value}
    (found : Gives (value allowance) t contents rest) : Passes t contents.strings rest := by
  induction allowance generalizing t contents rest with
  | zero =>
    apply (gives_value found).passes
    intro smaller none
    cases none
  | succ allowance ih =>
    apply (gives_value found).passes
    intro smaller same t contents rest found
    obtain rfl := Nat.succ.inj same
    exact ih found

theorem passes_document {t : Text} {contents : Value} (found : document t = .ok contents) :
    Passes t contents.strings [] := by
  obtain ⟨rest, read, ends⟩ := document_eq_ok found
  have spaced := Passes.skipSpace rest
  rw [ends] at spaced
  have passed := (Passes.skipSpace t).trans ((passes_value read).trans spaced)
  rwa [List.nil_append, List.append_nil] at passed

/-! ## Where a text is outside of literals -/

theorem Passes.of_plain {front t : Text} {strings : List Text} (plain : '"' ∉ front)
    (passed : Passes (front ++ t) strings []) : Passes t strings [] := by
  induction front with
  | nil => exact passed
  | cons c front ih =>
    rw [List.mem_cons, not_or] at plain
    cases passed with
    | mark _ later => exact ih plain.2 later
    | literal => exact absurd rfl plain.1

theorem Passes.not_of_inner {front t : Text} {strings : List Text} (plain : '"' ∉ front)
    (inner : ∃ c ∈ front, isOuter c = false) : ¬ Passes (front ++ t) strings [] := by
  intro passed
  obtain ⟨c, member, refused⟩ := inner
  induction front with
  | nil => cases member
  | cons d front ih =>
    rw [List.mem_cons, not_or] at plain
    cases passed with
    | mark outer later =>
      rcases List.mem_cons.mp member with rfl | member
      · rw [outer] at refused
        cases refused
      · exact ih plain.2 later member
    | literal => exact plain.1 rfl

/-- A member's name and the colon after it. -/
theorem Passes.of_name {word t : Text} {strings : List Text}
    (plain : ∀ c ∈ word, StringLiteral.IsPlain c)
    (passed : Passes ('"' :: (word ++ '"' :: ':' :: t)) strings []) :
    ∃ later, strings = word :: later ∧ Passes t later [] := by
  cases passed with
  | mark outer => exact absurd outer (by decide)
  | literal read later =>
    obtain ⟨r, read, rfl, rfl⟩ := read
    have enclosed := StringLiteral.Enclosed.of_plain plain
    rw [StringLiteral.rest_of_enclosed enclosed rfl read] at later
    rw [StringLiteral.value_of_plain plain rfl read]
    cases later with
    | mark _ later => exact ⟨_, rfl, later⟩

theorem getLast?_behind (front : Text) {behind : Text} {c d : Char}
    (last : behind.getLast? = some d) :
    (front ++ c :: behind).getLast? = some d := by
  rw [List.getLast?_append, List.getLast?_cons, last]
  rfl

/-- The last quote of a text is found in one place only. -/
theorem eq_of_last_quote {first second t u : Text} (plain : '"' ∉ t) (plainToo : '"' ∉ u)
    (same : first ++ '"' :: t = second ++ '"' :: u) : first = second := by
  rcases List.append_eq_append_iff.mp same with ⟨beyond, longer, left⟩ | ⟨beyond, longer, left⟩
  · cases beyond with
    | nil => rw [longer, List.append_nil]
    | cons c beyond =>
      rw [(List.cons.inj left).2] at plain
      exact absurd (List.mem_append_right beyond List.mem_cons_self) plain
  · cases beyond with
    | nil => rw [longer, List.append_nil]
    | cons c beyond =>
      rw [(List.cons.inj left).2] at plainToo
      exact absurd (List.mem_append_right beyond List.mem_cons_self) plainToo

/-- A quote with no backslash before it opens a literal if what stands after it could not stand
outside of literals. -/
theorem Passes.outside_at {front word : Text} {strings : List Text}
    (unescaped : front.getLast? ≠ some '\\') (inside : ∀ strings, ¬ Passes word strings [])
    (passed : Passes (front ++ '"' :: word) strings []) :
    ∃ before after, strings = before ++ after ∧ Passes ('"' :: word) after [] ∧
      (before = [] → '"' ∉ front) := by
  cases front with
  | nil => exact ⟨[], strings, rfl, passed, fun _ => List.not_mem_nil⟩
  | cons c front =>
    have unescapedLater : front.getLast? ≠ some '\\' :=
      fun last => unescaped (getLast?_behind [] last)
    cases passed with
    | mark outer later =>
      obtain ⟨before, after, rfl, opens, none⟩ := outside_at unescapedLater inside later
      refine ⟨before, after, rfl, opens, ?_⟩
      intro empty member
      rcases List.mem_cons.mp member with rfl | member
      · exact absurd outer (by decide)
      · exact none empty member
    | literal read later =>
      rename_i contents strings behind
      obtain ⟨r, read, rfl, rfl⟩ := read
      rcases StringLiteral.ends_by unescapedLater rfl read with
        ⟨-, atWord⟩ | ⟨raw, between, -, rfl, earlier⟩
      · rw [atWord] at later
        exact absurd later (inside _)
      · rw [earlier] at later
        have unescapedBetween : between.getLast? ≠ some '\\' :=
          fun last => unescapedLater (getLast?_behind _ last)
        obtain ⟨before, after, rfl, opens, -⟩ := outside_at unescapedBetween inside later
        exact ⟨r.value :: before, after, rfl, opens, fun empty => nomatch empty⟩
termination_by front.length
decreasing_by
  · subst_vars; simp
  · subst_vars; simp; omega

/-- Where a literal ends, when the next one that is known of comes after a quote and other marks. -/
theorem Passes.of_contents {front gap word : Text} {strings : List Text} (plain : '"' ∉ gap)
    (unescaped : gap.getLast? ≠ some '\\') (filled : gap ≠ [])
    (inside : ∀ strings, ¬ Passes word strings [])
    (passed : Passes ('"' :: (front ++ '"' :: (gap ++ '"' :: word))) strings []) :
    ∃ contents before after, strings = contents :: (before ++ after) ∧
      Passes ('"' :: word) after [] ∧ (before = [] → StringLiteral.Enclosed front) := by
  cases passed with
  | mark outer => exact absurd outer (by decide)
  | literal read later =>
    rename_i contents strings behind
    obtain ⟨r, read, rfl, rfl⟩ := read
    have whole : front ++ '"' :: (gap ++ '"' :: word) = (front ++ '"' :: gap) ++ '"' :: word := by
      simp only [List.append_assoc, List.cons_append]
    have unescapedWhole : (front ++ '"' :: gap).getLast? ≠ some '\\' := by
      rw [getLast?_behind _ (List.getLast?_eq_some_getLast filled),
        ← List.getLast?_eq_some_getLast filled]
      exact unescaped
    rcases StringLiteral.ends_by unescapedWhole whole read with
      ⟨-, atWord⟩ | ⟨raw, between, enclosed, same, earlier⟩
    · rw [atWord] at later
      exact absurd later (inside _)
    · rw [earlier] at later
      have unescapedBetween : between.getLast? ≠ some '\\' := by
        rw [same] at unescapedWhole
        exact fun last => unescapedWhole (getLast?_behind _ last)
      obtain ⟨before, after, rfl, opens, none⟩ := outside_at unescapedBetween inside later
      refine ⟨r.value, before, after, rfl, opens, ?_⟩
      intro empty
      rw [eq_of_last_quote plain (none empty) same]
      exact enclosed

end TreeMigration.Json
