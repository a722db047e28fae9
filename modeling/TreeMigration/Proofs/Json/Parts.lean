import TreeMigration.Json.Reader
import TreeMigration.Proofs.Json.Literals

/-!
What a text must have been made of for a reader to succeed on it: one lemma for each reader, saying
which parts were read and what was left.

These are inversions. A reader that succeeded on a text has taken one of few ways, and the lemma
lists them with the readings of the parts (`gives_laterItems`, `gives_items`, `gives_member`); for
values there is one case for each kind of text, collected in `ValueParts`. Statements about what was
read are proved from them by induction on the allowance of nesting and never look at a reader again.

At the end stand the shapes that occur on rule lines: a member whose name stands behind blanks, and
a value that is a literal without an open escape.
-/
namespace TreeMigration.Json

namespace Reader

variable {α : Type}

/-- The reader succeeds on the text with this value and leaves this rest. -/
def Gives (read : Reader α) (t : Text) (value : α) (rest : Text) : Prop :=
  ∃ r, read t = .ok r ∧ r.value = value ∧ r.rest = rest

theorem gives_afterSpace_iff {read : Reader α} {t rest : Text} {value : α} :
    read.afterSpace.Gives t value rest ↔ read.Gives (skipSpace t) value rest := by
  unfold Gives afterSpace
  constructor
  · rintro ⟨r, found, rfl, rfl⟩
    obtain ⟨inner, read, rfl⟩ := map_eq_ok.mp found
    exact ⟨inner, read, rfl, rfl⟩
  · rintro ⟨inner, read, rfl, rfl⟩
    exact ⟨_, map_eq_ok.mpr ⟨inner, read, rfl⟩, rfl, rfl⟩

/-- The items after the first one end at the closing mark, or there is another after a comma. -/
theorem gives_laterItems {item : Reader α} {close : Char} {atEnd expected : Cause} {t rest : Text}
    {values : List α} (found : Gives (laterItems item close atEnd expected) t values rest) :
    (skipSpace t = close :: rest ∧ values = []) ∨
      ∃ afterComma value behind later, skipSpace t = ',' :: afterComma ∧
        item.Gives (skipSpace afterComma) value behind ∧
        Gives (laterItems item close atEnd expected) behind later rest ∧
        values = value :: later := by
  obtain ⟨r, read, rfl, rfl⟩ := found
  rw [laterItems] at read
  split at read
  · cases read
  · rename_i c behind shape
    split at read
    · rename_i closes
      cases read
      exact .inl ⟨closes ▸ shape, rfl⟩
    · split at read
      · rename_i comma
        split at read
        · cases read
        · obtain ⟨next, nextRead, read⟩ := bind_eq_ok.mp read
          obtain ⟨later, laterRead, read⟩ := bind_eq_ok.mp read
          cases read
          exact .inr ⟨behind, next.value, next.rest, later.value, by rw [shape, comma],
            gives_afterSpace_iff.mp ⟨next, nextRead, rfl, rfl⟩, ⟨later, laterRead, rfl, rfl⟩, rfl⟩
      · cases read

/-- A bracket closes at once, or holds a first item and the ones after it. -/
theorem gives_items {item : Reader α} {close : Char} {atEnd expected : Cause} {t rest : Text}
    {values : List α} (found : Gives (items item close atEnd expected) t values rest) :
    (skipSpace t = close :: rest ∧ values = []) ∨
      ∃ value behind later, item.Gives (skipSpace t) value behind ∧
        Gives (laterItems item close atEnd expected) behind later rest ∧
        values = value :: later := by
  obtain ⟨r, read, rfl, rfl⟩ := found
  unfold items at read
  split at read
  · cases read
  · rename_i c behind shape
    split at read
    · rename_i closes
      cases read
      exact .inl ⟨closes ▸ shape, rfl⟩
    · obtain ⟨next, nextRead, read⟩ := bind_eq_ok.mp read
      obtain ⟨later, laterRead, read⟩ := bind_eq_ok.mp read
      cases read
      exact .inr ⟨next.value, next.rest, later.value,
        gives_afterSpace_iff.mp ⟨next, nextRead, rfl, rfl⟩, ⟨later, laterRead, rfl, rfl⟩, rfl⟩

end Reader

open Reader

theorem gives_string {t rest value : Text} (found : Gives string t value rest) :
    ∃ c behind, t = c :: behind ∧ Gives StringLiteral.body behind value rest := by
  obtain ⟨r, read, rfl, rfl⟩ := found
  unfold string at read
  split at read
  · cases read
  · obtain ⟨inner, innerRead, rfl⟩ := map_eq_ok.mp read
    exact ⟨_, _, rfl, inner, innerRead, rfl, rfl⟩

theorem gives_member {value : Reader Value} {t rest : Text} {entry : Text × Value}
    (found : Gives (member value) t entry rest) :
    ∃ behind afterName afterColon, t = '"' :: behind ∧
      Gives StringLiteral.body behind entry.1 afterName ∧ skipSpace afterName = ':' :: afterColon ∧
      value.Gives (skipSpace afterColon) entry.2 rest := by
  obtain ⟨r, read, rfl, rfl⟩ := found
  unfold member at read
  split at read
  · cases read
  · split at read
    · cases read
    · rename_i quoted
      obtain ⟨name, nameRead, read⟩ := bind_eq_ok.mp read
      split at read
      · cases read
      · rename_i c afterColon shape
        split at read
        · rename_i colon
          obtain ⟨contents, contentsRead, read⟩ := bind_eq_ok.mp read
          cases read
          obtain ⟨d, behind, rfl, named⟩ := gives_string ⟨name, nameRead, rfl, rfl⟩
          have quote : d = '"' := by simpa using quoted
          exact ⟨behind, name.rest, afterColon, by rw [quote], named, by rw [shape, colon],
            gives_afterSpace_iff.mp ⟨contents, contentsRead, rfl, rfl⟩⟩
        · cases read

theorem eq_of_wordRest {spelling t rest : Text} (read : wordRest spelling t = .ok rest) :
    t = spelling ++ rest := by
  induction spelling generalizing t with
  | nil => exact Except.ok.inj read
  | cons w spelling ih =>
    cases t with
    | nil => cases read
    | cons c t =>
      rw [wordRest] at read
      split at read
      · rename_i same
        rw [same, ih read, List.cons_append]
      · cases read

theorem gives_word {spelling t rest : Text} {meaning value : Value}
    (found : Gives (word spelling meaning) t value rest) :
    ∃ c, t = c :: (spelling.tail ++ rest) ∧ value = meaning := by
  obtain ⟨r, read, rfl, rfl⟩ := found
  unfold word at read
  split at read
  · cases read
  · split at read
    · cases read
    · rename_i c t after passed
      cases read
      exact ⟨c, congrArg _ (eq_of_wordRest passed), rfl⟩

theorem gives_number {t rest : Text} {value : Value} (found : Gives number t value rest) :
    ∃ literal, value = .number literal ∧
      Number.afterUnsigned (if t.head? = some '-' then t.tail else t) = .ok rest := by
  obtain ⟨r, read, rfl, rfl⟩ := found
  unfold number at read
  dsimp only at read
  split at read
  · cases read
  · rename_i after passed
    cases read
    exact ⟨_, rfl, passed⟩

/-- The kinds of text a value is read from, with the readers of their parts. -/
inductive ValueParts : Nat → Text → Value → Text → Prop
  | null (allowance : Nat) (rest : Text) :
      ValueParts allowance ('n' :: 'u' :: 'l' :: 'l' :: rest) .null rest
  | truth (allowance : Nat) (rest : Text) :
      ValueParts allowance ('t' :: 'r' :: 'u' :: 'e' :: rest) (.boolean true) rest
  | falsehood (allowance : Nat) (rest : Text) :
      ValueParts allowance ('f' :: 'a' :: 'l' :: 's' :: 'e' :: rest) (.boolean false) rest
  | number {allowance : Nat} {c : Char} {t rest literal : Text}
      (read : Gives number (c :: t) (.number literal) rest) (first : c = '-' ∨ c.isDigit = true) :
      ValueParts allowance (c :: t) (.number literal) rest
  | string {allowance : Nat} {t rest contents : Text}
      (read : Gives StringLiteral.body t contents rest) :
      ValueParts allowance ('"' :: t) (.string contents) rest
  | array {allowance : Nat} {t rest : Text} {values : List Value}
      (read : Gives ((value allowance).items ']' .endInList .expectedListEnd) t values rest) :
      ValueParts (allowance + 1) ('[' :: t) (.array values) rest
  | object {allowance : Nat} {t rest : Text} {members : Members}
      (read : Gives ((member (value allowance)).items '\x7d' .endInObject .expectedObjectEnd) t
        members rest) :
      ValueParts (allowance + 1) ('\x7b' :: t) (.object members) rest

theorem gives_value {allowance : Nat} {t rest : Text} {contents : Value}
    (found : Gives (value allowance) t contents rest) :
    ValueParts allowance t contents rest := by
  obtain ⟨r, read, isValue, isRest⟩ := found
  unfold value at read
  split at read
  · cases read
  · rename_i c behind
    split at read
    · rename_i first
      obtain ⟨_, text, rfl⟩ := gives_word ⟨r, read, isValue, isRest⟩
      obtain ⟨rfl, rfl⟩ := List.cons.inj text
      subst first
      exact .null allowance rest
    split at read
    · rename_i first
      obtain ⟨_, text, rfl⟩ := gives_word ⟨r, read, isValue, isRest⟩
      obtain ⟨rfl, rfl⟩ := List.cons.inj text
      subst first
      exact .truth allowance rest
    split at read
    · rename_i first
      obtain ⟨_, text, rfl⟩ := gives_word ⟨r, read, isValue, isRest⟩
      obtain ⟨rfl, rfl⟩ := List.cons.inj text
      subst first
      exact .falsehood allowance rest
    split at read
    · rename_i first
      obtain ⟨literal, rfl, -⟩ := gives_number ⟨r, read, isValue, isRest⟩
      exact .number ⟨r, read, isValue, isRest⟩ first
    split at read
    · rename_i first
      obtain ⟨inner, innerRead, rfl⟩ := map_eq_ok.mp read
      obtain ⟨_, _, text, body⟩ := gives_string ⟨inner, innerRead, rfl, rfl⟩
      obtain ⟨-, rfl⟩ := List.cons.inj text
      rw [first, ← isValue, ← isRest]
      exact .string body
    split at read
    · rename_i bracket
      split at read
      · cases read
      · rename_i allowance
        split at read
        · rename_i first
          obtain ⟨inner, innerRead, rfl⟩ := map_eq_ok.mp read
          rw [first, ← isValue, ← isRest]
          exact .array ⟨inner, innerRead, rfl, rfl⟩
        · rename_i other
          obtain ⟨inner, innerRead, rfl⟩ := map_eq_ok.mp read
          rw [bracket.resolve_left other, ← isValue, ← isRest]
          exact .object ⟨inner, innerRead, rfl, rfl⟩
    · cases read

theorem document_eq_ok {t : Text} {contents : Value} (found : document t = .ok contents) :
    ∃ rest, Gives (value depthLimit) (skipSpace t) contents rest ∧ skipSpace rest = [] := by
  obtain ⟨r, read, found⟩ := bind_eq_ok.mp found
  dsimp only at found
  split at found
  · rename_i blank
    obtain rfl := Except.ok.inj found
    exact ⟨r.rest, gives_afterSpace_iff.mp ⟨r, read, rfl, rfl⟩, List.isEmpty_iff.mp blank⟩
  · cases found

theorem document_of_ofText {t : Text} {contents : Value} (found : Value.ofText t = .ok contents) :
    document t = .ok contents := by
  unfold Value.ofText at found
  cases read : document t with
  | error fault =>
    rw [read] at found
    cases found
  | ok value =>
    rw [read] at found
    exact congrArg _ (Except.ok.inj found)

/-! ## Blanks before a part -/

/-- Behind blanks of any kind, what is no blank is reached only if they are blanks of JSON. -/
theorem skipSpace_append {front t rest : Text} {c : Char}
    (blank : ∀ b ∈ front, Text.isBlank b = true) (sharp : Text.isBlank c = false)
    (reached : skipSpace (front ++ t) = c :: rest) : skipSpace t = c :: rest := by
  induction front with
  | nil => exact reached
  | cons b front ih =>
    rw [List.cons_append, skipSpace, List.dropWhile_cons] at reached
    split at reached
    · exact ih (fun d member => blank d (List.mem_cons_of_mem b member)) reached
    · rw [(List.cons.inj reached).1] at blank
      rw [blank c List.mem_cons_self] at sharp
      cases sharp

theorem skipSpace_cons {c : Char} (t : Text) (sharp : isSpace c = false) :
    skipSpace (c :: t) = c :: t :=
  List.dropWhile_cons_of_neg (by rw [sharp]; exact Bool.false_ne_true)

theorem isBlank_eq_false_of_isDigit {c : Char} (digit : c.isDigit = true) :
    Text.isBlank c = false := by
  have bounds : 48 ≤ c.toNat ∧ c.toNat ≤ 57 := by
    simpa [Char.isDigit, UInt32.le_iff_toNat_le] using digit
  simp [Text.isBlank]
  omega

/-- A value begins with a character that is no blank. -/
theorem ValueParts.sharp {allowance : Nat} {t rest : Text} {contents : Value}
    (parts : ValueParts allowance t contents rest) :
    ∃ c behind, t = c :: behind ∧ Text.isBlank c = false := by
  cases parts with
  | null => exact ⟨_, _, rfl, by decide⟩
  | truth => exact ⟨_, _, rfl, by decide⟩
  | falsehood => exact ⟨_, _, rfl, by decide⟩
  | number read first =>
    refine ⟨_, _, rfl, ?_⟩
    rcases first with rfl | digit
    · decide
    · exact isBlank_eq_false_of_isDigit digit
  | string read => exact ⟨_, _, rfl, by decide⟩
  | array read => exact ⟨_, _, rfl, by decide⟩
  | object read => exact ⟨_, _, rfl, by decide⟩

/-! ## Parts at marks that are known -/

theorem gives_object {allowance : Nat} {t rest : Text} {members : Members}
    (found : Gives (value allowance) t (.object members) rest) :
    ∃ smaller behind, t = '\x7b' :: behind ∧
      Gives ((member (value smaller)).items '\x7d' .endInObject .expectedObjectEnd) behind members
        rest := by
  cases gives_value found with
  | object read => exact ⟨_, _, rfl, read⟩

/-- After a comma there is another item. -/
theorem gives_afterComma {α : Type} {item : Reader α} {close : Char} {atEnd expected : Cause}
    {t rest : Text} {values : List α} (other : close ≠ ',')
    (found : Gives (laterItems item close atEnd expected) (',' :: t) values rest) :
    ∃ value behind later, item.Gives (skipSpace t) value behind ∧
      Gives (laterItems item close atEnd expected) behind later rest ∧ values = value :: later := by
  have comma : skipSpace (',' :: t) = ',' :: t := skipSpace_cons t (by decide)
  rcases gives_laterItems found with
    ⟨shape, -⟩ | ⟨afterComma, value, behind, later, shape, first, rest, same⟩
  · exact absurd (List.cons.inj (comma.symm.trans shape)).1.symm other
  · obtain ⟨-, rfl⟩ := List.cons.inj (comma.symm.trans shape)
    exact ⟨value, behind, later, first, rest, same⟩

/-- A member whose name stands behind blanks and has no escapes. -/
theorem gives_member_named {read : Reader Value} {blanks word t rest : Text}
    {entry : Text × Value} (blank : ∀ b ∈ blanks, Text.isBlank b = true)
    (plain : ∀ c ∈ word, StringLiteral.IsPlain c)
    (found : Gives (member read) (skipSpace (blanks ++ '"' :: (word ++ '"' :: ':' :: t))) entry
      rest) :
    entry.1 = word ∧ read.Gives (skipSpace t) entry.2 rest := by
  obtain ⟨behind, afterName, afterColon, shape, ⟨r, named, isName, isRest⟩, colon, contents⟩ :=
    gives_member found
  have reached := skipSpace_append blank (by decide) shape
  rw [skipSpace_cons _ (by decide)] at reached
  obtain ⟨-, rfl⟩ := List.cons.inj reached
  have enclosed := StringLiteral.Enclosed.of_plain plain
  have ends := StringLiteral.rest_of_enclosed enclosed rfl named
  rw [← isRest, ends, skipSpace_cons _ (by decide)] at colon
  obtain ⟨-, rfl⟩ := List.cons.inj colon
  exact ⟨isName.symm.trans (StringLiteral.value_of_plain plain rfl named), contents⟩

/-- A value that begins with a quote, behind blanks. -/
theorem gives_quoted {allowance : Nat} {blanks t rest : Text} {contents : Value}
    (blank : ∀ b ∈ blanks, Text.isBlank b = true)
    (found : Gives (value allowance) (skipSpace (blanks ++ '"' :: t)) contents rest) :
    ∃ s, contents = .string s ∧ Gives StringLiteral.body t s rest := by
  obtain ⟨c, behind, shape, sharp⟩ := (gives_value found).sharp
  have reached := skipSpace_append blank sharp shape
  rw [skipSpace_cons _ (by decide)] at reached
  rw [shape, ← reached] at found
  cases gives_value found with
  | string read => exact ⟨_, rfl, read⟩
  | number _ first => exact absurd first (by decide)

/-- A value that is an enclosed text in quotes, behind blanks. -/
theorem gives_enclosed {allowance : Nat} {blanks front t rest : Text} {contents : Value}
    (blank : ∀ b ∈ blanks, Text.isBlank b = true) (enclosed : StringLiteral.Enclosed front)
    (found : Gives (value allowance) (skipSpace (blanks ++ '"' :: (front ++ '"' :: t))) contents
      rest) :
    (∃ s, contents = .string s) ∧ rest = t := by
  obtain ⟨s, rfl, r, read, -, rfl⟩ := gives_quoted blank found
  exact ⟨⟨s, rfl⟩, StringLiteral.rest_of_enclosed enclosed rfl read⟩

end TreeMigration.Json
