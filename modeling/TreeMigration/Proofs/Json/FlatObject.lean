import TreeMigration.Proofs.Json.Spelling
import Mathlib.Data.List.Forall2
import Mathlib.Data.List.TakeWhile

/-!
Objects of strings and truth values. A text is read as such an object exactly if it is one written
member after another, with blanks between the marks; what each member stands for is then settled by
its own text.

A `MemberSpelling` is what is written for one member with the blanks around its parts, and
`MemberSpelling.Stands` says which member that is. The equivalence is built upwards from the values
(`gives_simple_iff`) to members (`gives_member_iff`), the members after the first
(`gives_laterMembers_iff`) and the whole text (`document_eq_object_iff`); each step is an induction
only where there is a list.

Rule lines need no more than these values. A value that is a number, null, an array or an object is
outside of the statement, but not of the reader, which is why the equivalences ask for the values to
be simple and not for the text.
-/
namespace TreeMigration.Json

open Reader StringLiteral

abbrev Spaces := { t : Text // ∀ c ∈ t, isSpace c = true }

theorem skipSpace_spaces (spaces : Spaces) (t : Text) : skipSpace (spaces.val ++ t) = skipSpace t :=
  List.dropWhile_append_of_pos spaces.property

theorem exists_spaces (t : Text) : ∃ spaces : Spaces, t = spaces.val ++ skipSpace t :=
  ⟨⟨t.takeWhile isSpace, fun _ member => List.mem_takeWhile_imp member⟩,
    List.takeWhile_append_dropWhile.symm⟩

/-- A mark is reached behind blanks. -/
theorem skipSpace_mark {c : Char} (sharp : isSpace c = false) (spaces : Spaces) (rest : Text) :
    skipSpace (spaces.val ++ c :: rest) = c :: rest := by
  rw [skipSpace_spaces, skipSpace_cons _ sharp]

theorem skipSpace_eq_cons_iff {t rest : Text} {c : Char} (sharp : isSpace c = false) :
    skipSpace t = c :: rest ↔ ∃ spaces : Spaces, t = spaces.val ++ c :: rest := by
  constructor
  · intro reached
    obtain ⟨spaces, whole⟩ := exists_spaces t
    exact ⟨spaces, by rw [whole, reached]⟩
  · rintro ⟨spaces, rfl⟩
    exact skipSpace_mark sharp spaces rest

theorem skipSpace_eq_nil_iff {t : Text} :
    skipSpace t = [] ↔ ∃ spaces : Spaces, t = spaces.val := by
  constructor
  · intro done
    obtain ⟨spaces, whole⟩ := exists_spaces t
    exact ⟨spaces, by rw [whole, done, List.append_nil]⟩
  · rintro ⟨spaces, rfl⟩
    have skipped := skipSpace_spaces spaces []
    rwa [List.append_nil] at skipped

/-! ## Strings and truth values -/

/-- A value that holds no others and is no number and not null. -/
def Value.IsSimple : Value → Prop
  | .boolean _ => True
  | .string _ => True
  | _ => False

/-- How a truth value or a string may be written. -/
inductive SpellsValue : Text → Value → Prop
  | truth : SpellsValue "true" (.boolean true)
  | falsehood : SpellsValue "false" (.boolean false)
  | string {raw s : Text} (inside : Spells raw s) : SpellsValue ('"' :: (raw ++ ['"'])) (.string s)

namespace SpellsValue

variable {written : Text} {contents : Value}

theorem isSimple (spelled : SpellsValue written contents) : contents.IsSimple := by
  cases spelled <;> trivial

/-- A written value begins with a character that is no blank. -/
theorem sharp (spelled : SpellsValue written contents) :
    ∃ c behind, written = c :: behind ∧ isSpace c = false := by
  cases spelled with
  | truth => exact ⟨_, _, rfl, by decide⟩
  | falsehood => exact ⟨_, _, rfl, by decide⟩
  | string => exact ⟨_, _, rfl, by decide⟩

end SpellsValue

theorem wordRest_append (spelling rest : Text) :
    wordRest spelling (spelling ++ rest) = .ok rest := by
  induction spelling with
  | nil => rfl
  | cons w spelling ih =>
    rw [List.cons_append, wordRest, if_pos rfl]
    exact ih

theorem gives_word_append (c : Char) (spelling rest : Text) (meaning : Value) :
    Gives (word (c :: spelling) meaning) (c :: (spelling ++ rest)) meaning rest := by
  unfold Gives word
  dsimp only
  split
  · rename_i fault read
    cases (wordRest_append spelling rest).symm.trans read
  · rename_i after read
    cases (wordRest_append spelling rest).symm.trans read
    exact ⟨_, rfl, rfl, rfl⟩

theorem gives_string_append {raw s : Text} (inside : Spells raw s) (rest : Text) :
    Gives string ('"' :: (raw ++ '"' :: rest)) s rest := by
  have literal : Gives body (raw ++ '"' :: rest) s rest := gives_body_iff.mpr ⟨raw, rfl, inside⟩
  obtain ⟨r, read, isText, isRest⟩ := literal
  exact ⟨_, map_eq_ok.mpr ⟨r, read, rfl⟩, isText, isRest⟩

theorem gives_value_of_string {allowance : Nat} {t s rest : Text}
    (found : Gives string ('"' :: t) s rest) :
    Gives (value allowance) ('"' :: t) (.string s) rest := by
  obtain ⟨r, read, rfl, rfl⟩ := found
  refine ⟨r.map .string, ?_, rfl, rfl⟩
  unfold value
  exact map_eq_ok.mpr ⟨r, read, rfl⟩

theorem gives_value_of_word {allowance : Nat} {c : Char} {spelling t rest : Text} {meaning : Value}
    (first : (c = 't' ∧ spelling = "true" ∧ meaning = .boolean true) ∨
      (c = 'f' ∧ spelling = "false" ∧ meaning = .boolean false))
    (found : Gives (word spelling meaning) (c :: t) meaning rest) :
    Gives (value allowance) (c :: t) meaning rest := by
  obtain ⟨r, read, isValue, isRest⟩ := found
  refine ⟨r, ?_, isValue, isRest⟩
  unfold value
  rcases first with ⟨rfl, rfl, rfl⟩ | ⟨rfl, rfl, rfl⟩
  · exact read
  · exact read

theorem gives_value_of_object {allowance : Nat} {t rest : Text} {members : Members}
    (found : Gives ((member (value allowance)).items '\x7d' .endInObject .expectedObjectEnd) t
      members rest) :
    Gives (value (allowance + 1)) ('\x7b' :: t) (.object members) rest := by
  obtain ⟨r, read, rfl, rfl⟩ := found
  refine ⟨(r.map .object).within (Text.length_le_cons _ _), ?_, rfl, rfl⟩
  unfold value
  exact map_eq_ok.mpr ⟨r, read, rfl⟩

/-- A string or a truth value is read exactly as it is written. -/
theorem gives_simple_iff {allowance : Nat} {t rest : Text} {contents : Value} :
    Gives (value allowance) t contents rest ∧ contents.IsSimple ↔
      ∃ written, t = written ++ rest ∧ SpellsValue written contents := by
  constructor
  · rintro ⟨found, simple⟩
    cases gives_value found with
    | truth => exact ⟨_, rfl, .truth⟩
    | falsehood => exact ⟨_, rfl, .falsehood⟩
    | string read =>
      obtain ⟨raw, rfl, inside⟩ := gives_body_iff.mp read
      exact ⟨_, by simp, .string inside⟩
    | null => cases simple
    | number => cases simple
    | array => cases simple
    | object => cases simple
  · rintro ⟨written, rfl, spelled⟩
    refine ⟨?_, spelled.isSimple⟩
    cases spelled with
    | truth =>
      exact gives_value_of_word (.inl ⟨rfl, rfl, rfl⟩) (gives_word_append 't' "rue" rest _)
    | falsehood =>
      exact gives_value_of_word (.inr ⟨rfl, rfl, rfl⟩) (gives_word_append 'f' "alse" rest _)
    | @string raw _ inside =>
      rw [List.cons_append, List.append_assoc]
      exact gives_value_of_string (gives_string_append inside rest)

/-! ## Members -/

/-- What is written for one member of an object, with the blanks around its parts. -/
structure MemberSpelling where
  before : Spaces
  name : Text
  beforeColon : Spaces
  afterColon : Spaces
  value : Text
  behind : Spaces

namespace MemberSpelling

def core (m : MemberSpelling) : Text :=
  '"' :: (m.name ++ '"' :: (m.beforeColon.val ++ ':' :: (m.afterColon.val ++
    (m.value ++ m.behind.val))))

def text (m : MemberSpelling) : Text := m.before.val ++ m.core

/-- What is written stands for the member. -/
structure Stands (m : MemberSpelling) (entry : Text × Value) : Prop where
  name : Spells m.name entry.1
  value : SpellsValue m.value entry.2

def laterText : List MemberSpelling → Text
  | [] => ['\x7d']
  | m :: later => ',' :: (m.text ++ laterText later)

theorem laterText_cons_append (m : MemberSpelling) (later : List MemberSpelling) (rest : Text) :
    laterText (m :: later) ++ rest =
      ',' :: (m.before.val ++ (m.core ++ (laterText later ++ rest))) := by
  simp only [laterText, text, List.cons_append, List.append_assoc]

theorem skipSpace_core (spaces : Spaces) (m : MemberSpelling) (rest : Text) :
    skipSpace (spaces.val ++ (m.core ++ rest)) = m.core ++ rest :=
  skipSpace_mark (by decide) spaces _

end MemberSpelling

open MemberSpelling

theorem gives_member_append {read : Reader Value} {name s u rest : Text} {contents : Value}
    (beforeColon : Spaces) (named : Spells name s)
    (found : read.Gives (skipSpace u) contents rest) :
    Gives (member read) ('"' :: (name ++ '"' :: (beforeColon.val ++ ':' :: u))) (s, contents)
      rest := by
  obtain ⟨literal, literalRead, isName, isBehind⟩ :=
    gives_string_append named (beforeColon.val ++ ':' :: u)
  obtain ⟨value, valueRead, isValue, isRest⟩ := gives_afterSpace_iff.mpr found
  have colon : skipSpace literal.rest = ':' :: u := by
    rw [isBehind]
    exact skipSpace_mark (by decide) beforeColon u
  unfold Gives member
  rw [if_neg (by simp), if_neg (by simp), literalRead]
  dsimp only [bind, Except.bind]
  split
  · rename_i ends
    cases colon.symm.trans ends
  · rename_i c behind reached
    obtain ⟨rfl, rfl⟩ := List.cons.inj (colon.symm.trans reached)
    rw [if_pos rfl, valueRead]
    exact ⟨_, rfl, Prod.ext isName isValue, isRest⟩

/-- A member is read exactly as it is written; the blanks on either side of it are free. -/
theorem gives_member_iff (before behind : Spaces) {allowance : Nat} {t rest : Text}
    {entry : Text × Value} :
    Gives (member (value allowance)) t entry (behind.val ++ rest) ∧ entry.2.IsSimple ↔
      ∃ m : MemberSpelling, m.before = before ∧ m.behind = behind ∧ t = m.core ++ rest ∧
        m.Stands entry := by
  constructor
  · rintro ⟨found, simple⟩
    obtain ⟨_, _, behindColon, rfl, named, colon, contents⟩ := gives_member found
    obtain ⟨name, rfl, nameSpelled⟩ := gives_body_iff.mp named
    obtain ⟨beforeColon, rfl⟩ := (skipSpace_eq_cons_iff (by decide)).mp colon
    obtain ⟨written, text, valueSpelled⟩ := gives_simple_iff.mp ⟨contents, simple⟩
    obtain ⟨afterColon, whole⟩ := exists_spaces behindColon
    refine ⟨⟨before, name, beforeColon, afterColon, written, behind⟩, rfl, rfl, ?_, nameSpelled,
      valueSpelled⟩
    rw [whole, text]
    simp only [core, List.cons_append, List.append_assoc]
  · rintro ⟨m, -, rfl, rfl, stands⟩
    obtain ⟨c, written, text, sharp⟩ := stands.value.sharp
    obtain ⟨found, simple⟩ :=
      gives_simple_iff.mpr ⟨m.value, rfl, stands.value⟩
    refine ⟨?_, simple⟩
    simp only [core, List.cons_append, List.append_assoc]
    refine gives_member_append m.beforeColon stands.name ?_
    rw [text, List.cons_append] at found
    rw [text, List.cons_append, skipSpace_mark sharp]
    exact found

/-! ## The members of an object, one after another -/

section Items

variable {α : Type} {item : Reader α} {close : Char} {atEnd expected : Cause} {t u rest : Text}

theorem gives_laterItems_nil (ends : skipSpace t = close :: rest) :
    Gives (laterItems item close atEnd expected) t [] rest := by
  unfold Gives
  rw [laterItems]
  split
  · rename_i none
    cases ends.symm.trans none
  · rename_i c behind reached
    obtain ⟨rfl, rfl⟩ := List.cons.inj (ends.symm.trans reached)
    rw [if_pos rfl]
    exact ⟨_, rfl, rfl, rfl⟩

theorem gives_laterItems_cons {next : α} {later : List α} {behind : Text} (other : close ≠ ',')
    (comma : skipSpace t = ',' :: u) (more : (skipSpace u).head? ≠ some close)
    (first : item.Gives (skipSpace u) next behind)
    (following : Gives (laterItems item close atEnd expected) behind later rest) :
    Gives (laterItems item close atEnd expected) t (next :: later) rest := by
  obtain ⟨one, oneRead, rfl, rfl⟩ := gives_afterSpace_iff.mpr first
  obtain ⟨others, othersRead, rfl, rfl⟩ := following
  unfold Gives
  rw [laterItems]
  split
  · rename_i none
    cases comma.symm.trans none
  · rename_i c behind reached
    obtain ⟨rfl, rfl⟩ := List.cons.inj (comma.symm.trans reached)
    rw [if_neg other.symm, if_pos rfl, if_neg more]
    exact ⟨_, bind_eq_ok.mpr ⟨one, oneRead, bind_eq_ok.mpr ⟨others, othersRead, rfl⟩⟩, rfl, rfl⟩

theorem gives_items_cons {c : Char} {next : α} {later : List α} {behind : Text}
    (begins : skipSpace t = c :: u) (other : c ≠ close)
    (first : item.Gives (c :: u) next behind)
    (following : Gives (laterItems item close atEnd expected) behind later rest) :
    Gives (items item close atEnd expected) t (next :: later) rest := by
  rw [← begins] at first
  obtain ⟨one, oneRead, rfl, rfl⟩ := gives_afterSpace_iff.mpr first
  obtain ⟨others, othersRead, rfl, rfl⟩ := following
  unfold Gives items
  split
  · rename_i none
    cases begins.symm.trans none
  · rename_i d behind reached
    obtain ⟨rfl, rfl⟩ := List.cons.inj (begins.symm.trans reached)
    rw [if_neg other]
    exact ⟨_, bind_eq_ok.mpr ⟨one, oneRead, bind_eq_ok.mpr ⟨others, othersRead, rfl⟩⟩, rfl, rfl⟩

end Items

/-- The members after the first one are read exactly as they are written. -/
theorem gives_laterMembers_iff {allowance : Nat} {t rest : Text} {members : Members} :
    Gives (laterItems (member (value allowance)) '\x7d' .endInObject .expectedObjectEnd) t members
        rest ∧ (∀ entry ∈ members, entry.2.IsSimple) ↔
      ∃ (spaces : Spaces) (later : List MemberSpelling),
        t = spaces.val ++ (laterText later ++ rest) ∧ List.Forall₂ Stands later members := by
  -- the blanks before a comma or the brace were written behind the member before, so the induction
  -- is for texts that begin with any blanks
  induction members generalizing t with
  | nil =>
    constructor
    · rintro ⟨found, -⟩
      rcases gives_laterItems found with ⟨ends, -⟩ | ⟨_, _, _, _, -, -, -, same⟩
      · obtain ⟨spaces, rfl⟩ := (skipSpace_eq_cons_iff (by decide)).mp ends
        exact ⟨spaces, [], rfl, .nil⟩
      · cases same
    · rintro ⟨spaces, _, rfl, ⟨⟩⟩
      exact ⟨gives_laterItems_nil (skipSpace_mark (by decide) spaces rest),
        List.forall_mem_nil _⟩
  | cons entry members ih =>
    rw [List.forall_mem_cons]
    constructor
    · rintro ⟨found, simple, others⟩
      rcases gives_laterItems found with ⟨-, same⟩ | ⟨u, _, _, _, comma, first, following, same⟩
      · cases same
      obtain ⟨rfl, rfl⟩ := List.cons.inj same
      obtain ⟨behind, later, rfl, stand⟩ := ih.mp ⟨following, others⟩
      obtain ⟨spaces, rfl⟩ := (skipSpace_eq_cons_iff (by decide)).mp comma
      obtain ⟨before, whole⟩ := exists_spaces u
      obtain ⟨m, isBefore, -, text, stands⟩ :=
        (gives_member_iff before _).mp ⟨first, simple⟩
      refine ⟨spaces, m :: later, ?_, .cons stands stand⟩
      rw [laterText_cons_append, whole, text, isBefore]
    · rintro ⟨spaces, _, rfl, stand⟩
      cases stand with
      | @cons m _ later _ stands stand =>
        obtain ⟨first, simple⟩ :=
          (gives_member_iff m.before m.behind).mpr ⟨m, rfl, rfl, rfl, stands⟩
        obtain ⟨following, others⟩ := ih.mpr ⟨m.behind, later, rfl, stand⟩
        have reached := skipSpace_core m.before m (laterText later ++ rest)
        rw [← reached] at first
        rw [laterText_cons_append]
        have comma := @skipSpace_mark ',' (by decide) spaces
        refine ⟨gives_laterItems_cons (by decide) (comma _) ?_ first following, simple, others⟩
        rw [reached]
        simp [core]

theorem document_of_gives {t rest : Text} {contents : Value}
    (found : Gives (value depthLimit) (skipSpace t) contents rest) (ends : skipSpace rest = []) :
    document t = .ok contents := by
  obtain ⟨r, read, rfl, rfl⟩ := gives_afterSpace_iff.mpr found
  refine bind_eq_ok.mpr ⟨r, read, ?_⟩
  dsimp only
  rw [ends]
  rfl

/-- A text is an object of these members exactly if it is written from spellings of them. -/
theorem document_eq_object_iff {t : Text} {entry : Text × Value} {members : Members} :
    document t = .ok (.object (entry :: members)) ∧
        (∀ other ∈ entry :: members, other.2.IsSimple) ↔
      ∃ (before after : Spaces) (m : MemberSpelling) (later : List MemberSpelling),
        t = before.val ++ '\x7b' :: (m.text ++ (laterText later ++ after.val)) ∧
          List.Forall₂ Stands (m :: later) (entry :: members) := by
  rw [List.forall_mem_cons]
  constructor
  · rintro ⟨found, simple, others⟩
    obtain ⟨rest, whole, ends⟩ := document_eq_ok found
    obtain ⟨allowance, behind, text, object⟩ := gives_object whole
    obtain ⟨before, rfl⟩ := (skipSpace_eq_cons_iff (by decide)).mp text
    obtain ⟨after, rfl⟩ := skipSpace_eq_nil_iff.mp ends
    rcases gives_items object with ⟨-, same⟩ | ⟨_, _, _, first, following, same⟩
    · cases same
    obtain ⟨rfl, rfl⟩ := List.cons.inj same
    obtain ⟨spaces, later, rfl, stand⟩ := gives_laterMembers_iff.mp ⟨following, others⟩
    obtain ⟨beforeFirst, inside⟩ := exists_spaces behind
    obtain ⟨m, isBefore, -, text, stands⟩ :=
      (gives_member_iff beforeFirst _).mp ⟨first, simple⟩
    refine ⟨before, after, m, later, ?_, .cons stands stand⟩
    rw [inside, text, ← isBefore, MemberSpelling.text, List.append_assoc]
  · rintro ⟨before, after, m, later, rfl, stand⟩
    cases stand with
    | cons stands stand =>
      obtain ⟨following, others⟩ := (@gives_laterMembers_iff 126 _ _ _).mpr
        ⟨m.behind, later, rfl, stand⟩
      obtain ⟨first, simple⟩ := (gives_member_iff m.before m.behind).mpr ⟨m, rfl, rfl, rfl, stands⟩
      have object := gives_value_of_object
        (gives_items_cons (skipSpace_core m.before m _) (by decide) first following)
      refine ⟨document_of_gives ?_ (skipSpace_eq_nil_iff.mpr ⟨after, rfl⟩), simple, others⟩
      rw [skipSpace_mark (by decide), MemberSpelling.text, List.append_assoc]
      exact object

end TreeMigration.Json
