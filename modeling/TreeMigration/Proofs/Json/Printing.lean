import TreeMigration.Proofs.Json.Counts
import TreeMigration.Proofs.Json.FlatObject
import TreeMigration.Proofs.Path.Parts

/-!
JSON values printed and read again. What is printed for a value is read as that value wherever no
number goes on behind it; inside a bracket a comma or a line break follows every item. The induction
is over the values that fit: their numbers are counts and their brackets do not nest too deep.

`Shows` is the relation between a text and what it is read as, with the condition on the text behind
that makes it hold in any surroundings. A bracket shows its items if each item text shows its item
(`gives_bracket`), which is proved once for arrays and objects, and `Value.Fits.shows` goes over the
values by the rules of `Value.Fits`. The level of indentation is generalised, because printing an
item is printing a value one level deeper.

Reading back is for the printer's own texts. That other texts may be read as the same value is no
contradiction, and equal texts come from equal values because reading is a function.
-/
namespace TreeMigration.Json

open Reader StringLiteral

/-! ## String literals -/

theorem hexNumber?_of_lt {n : Nat} (control : n < 0x20) :
    hexNumber? '0' '0' (Nat.digitChar (n / 16)) (Nat.digitChar (n % 16)) = some n := by
  revert n
  decide

theorem spellsChar_escapedChar (c : Char) : SpellsChar (escapedChar c) c := by
  unfold escapedChar
  split
  · rename_i quote
    exact quote ▸ .short rfl
  split
  · rename_i slash
    exact slash ▸ .short rfl
  split
  · rename_i newline
    exact newline ▸ .short rfl
  split
  · rename_i carriageReturn
    exact carriageReturn ▸ .short rfl
  split
  · rename_i tab
    exact tab ▸ .short rfl
  split
  · rename_i backspace
    exact backspace ▸ .short rfl
  split
  · rename_i formFeed
    exact formFeed ▸ .short rfl
  split
  · rename_i control
    have below : ∀ bound, 0x20 ≤ bound → ¬ bound ≤ c.toNat := by omega
    have spelled := SpellsChar.code (hexNumber?_of_lt control)
      (by simp [isTrailing, below]) (by simp [isLeading, below])
    rwa [Char.ofNat_toNat] at spelled
  · rename_i noQuote noSlash _ _ _ _ _ noControl
    exact .plain noQuote noSlash noControl

theorem spells_escaped (t : Text) : Spells (t.flatMap escapedChar) t := by
  induction t with
  | nil => exact .nil
  | cons c t ih => exact .cons (spellsChar_escapedChar c) ih

theorem literal_append (t rest : Text) :
    literal t ++ rest = '"' :: (t.flatMap escapedChar ++ '"' :: rest) := by simp [literal]

/-! ## Items that are read as they are shown -/

def Closes (c : Char) : Prop := c = ']' ∨ c = '\x7d'

/-- A character with which an item can begin. -/
def Opens (c : Char) : Prop := isSpace c = false ∧ ¬ Closes c

theorem Closes.sharp {close : Char} (closes : Closes close) :
    isSpace close = false ∧ close ≠ ',' := by
  rcases closes with rfl | rfl <;> decide

theorem Opens.ne {c close : Char} (opens : Opens c) (closes : Closes close) : c ≠ close :=
  fun same => opens.2 (same ▸ closes)

/-- The text is read as the item wherever no number goes on behind it. -/
structure Shows {α : Type} (read : Reader α) (shown : Text) (item : α) : Prop where
  opens : ∃ c behind, shown = c :: behind ∧ Opens c
  gives : ∀ rest, Number.Stops rest → read.Gives (shown ++ rest) item rest

theorem skipSpace_newLine (level : Nat) (t : Text) :
    skipSpace (newLine level ++ t) = skipSpace t := by
  refine skipSpace_spaces ⟨newLine level, ?_⟩ t
  intro c member
  rcases List.mem_cons.mp member with rfl | blank
  · decide
  · rw [List.eq_of_mem_replicate blank]
    decide

/-- No number goes on with a blank. -/
theorem not_continues_of_isSpace {c : Char} (space : isSpace c = true) :
    c.isDigit = false ∧ c ≠ '.' ∧ c ≠ 'e' ∧ c ≠ 'E' := by
  simp only [isSpace, Bool.or_eq_true, beq_iff_eq] at space
  rcases space with ((rfl | rfl) | rfl) | rfl <;> decide

theorem stops_spaces (spaces : Spaces) : Number.Stops spaces.val := fun _ first =>
  not_continues_of_isSpace (spaces.property _ (List.mem_of_mem_head? first))

theorem opens_of_isDigit {c : Char} (digit : c.isDigit = true) : Opens c := by
  constructor
  · cases space : isSpace c with
    | false => rfl
    | true => cases digit.symm.trans (not_continues_of_isSpace space).1
  · rintro (rfl | rfl) <;> cases digit

section Bracket

variable {α : Type} {item : Reader α} {opening close : Char} {atEnd expected : Cause}
  {texts : List Text} {values : List α}

theorem Shows.skipSpace_eq {shown : Text} {value : α} (shows : Shows item shown value)
    (level : Nat) (rest : Text) :
    ∃ c behind, shown ++ rest = c :: behind ∧ Opens c ∧
      skipSpace (newLine level ++ (shown ++ rest)) = shown ++ rest := by
  obtain ⟨c, behind, rfl, opens⟩ := shows.opens
  refine ⟨c, behind ++ rest, rfl, opens, ?_⟩
  rw [skipSpace_newLine, List.cons_append, skipSpace_cons _ opens.1]

def laterShown (close : Char) (level : Nat) (texts : List Text) (rest : Text) : Text :=
  texts.flatMap (fun text => ',' :: (newLine (level + 1) ++ text)) ++
    (newLine level ++ close :: rest)

theorem stops_laterShown (close : Char) (level : Nat) (texts : List Text) (rest : Text) :
    Number.Stops (laterShown close level texts rest) := by
  cases texts with
  | nil => exact Number.stops_cons _ (by decide)
  | cons text later => exact Number.stops_cons _ (by decide)

theorem gives_laterItems_shown (closes : Closes close)
    (shown : List.Forall₂ (Shows item) texts values) (level : Nat) (rest : Text) :
    Gives (laterItems item close atEnd expected) (laterShown close level texts rest) values
      rest := by
  induction shown with
  | nil =>
    refine gives_laterItems_nil ?_
    rw [laterShown, List.flatMap_nil, List.nil_append, skipSpace_newLine,
      skipSpace_cons _ closes.sharp.1]
  | @cons text value later values first following ih =>
    have behind := stops_laterShown close level later rest
    obtain ⟨c, _, whole, opens, reached⟩ :=
      first.skipSpace_eq (level + 1) (laterShown close level later rest)
    have shape : laterShown close level (text :: later) rest =
        ',' :: (newLine (level + 1) ++ (text ++ laterShown close level later rest)) := by
      simp [laterShown]
    rw [shape]
    refine gives_laterItems_cons closes.sharp.2 (skipSpace_cons _ (by decide)) ?_ ?_ ih
    · rw [reached, whole, List.head?_cons, Ne, Option.some.injEq]
      exact opens.ne closes
    · rw [reached]
      exact first.gives _ behind

theorem gives_items_nil {t rest : Text} (ends : skipSpace t = close :: rest) :
    Gives (items item close atEnd expected) t [] rest := by
  unfold Gives items
  split
  · rename_i none
    cases ends.symm.trans none
  · rename_i c behind reached
    obtain ⟨rfl, rfl⟩ := List.cons.inj (ends.symm.trans reached)
    rw [if_pos rfl]
    exact ⟨_, rfl, rfl, rfl⟩

theorem join_comma (first : Text) (later : List Text) :
    Text.join [','] (first :: later) = first ++ later.flatMap (',' :: ·) := by
  induction later generalizing first with
  | nil => simp [Text.join]
  | cons next later ih =>
    rw [Text.join_cons _ _ (List.cons_ne_nil _ _), ih]
    simp

theorem exists_bracket_eq (opening close : Char) (level : Nat) (texts : List Text) :
    ∃ behind, bracket opening close level texts = opening :: behind := by
  cases texts with
  | nil => exact ⟨_, rfl⟩
  | cons text later => exact ⟨_, rfl⟩

theorem bracket_cons_append (text : Text) (later : List Text) (level : Nat) (rest : Text) :
    bracket opening close level (text :: later) ++ rest =
      opening :: (newLine (level + 1) ++ (text ++ laterShown close level later rest)) := by
  simp [bracket, join_comma, laterShown, List.flatMap_map]

/-- A printed bracket is read from after its opening mark as the items that it shows. -/
theorem gives_bracket (closes : Closes close)
    (shown : List.Forall₂ (Shows item) texts values) (level : Nat) (rest : Text) :
    ∃ inside, bracket opening close level texts ++ rest = opening :: inside ∧
      Gives (items item close atEnd expected) inside values rest := by
  cases shown with
  | nil => exact ⟨close :: rest, rfl, gives_items_nil (skipSpace_cons _ closes.sharp.1)⟩
  | @cons text value later values first following =>
    refine ⟨_, bracket_cons_append text later level rest, ?_⟩
    obtain ⟨c, behind, whole, opens, reached⟩ :=
      first.skipSpace_eq (level + 1) (laterShown close level later rest)
    refine gives_items_cons (reached.trans whole) (opens.ne closes) ?_
      (gives_laterItems_shown closes following level rest)
    rw [← whole]
    exact first.gives _ (stops_laterShown close level later rest)

end Bracket

/-! ## Values -/

/-- A value that is read as it is printed: its numbers are counts that fit into a significand, and
its brackets nest no deeper than the allowance. -/
inductive Value.Fits : Nat → Value → Prop
  | null (allowance : Nat) : Value.Fits allowance .null
  | boolean (allowance : Nat) (b : Bool) : Value.Fits allowance (.boolean b)
  | count (allowance : Nat) {n : Nat} (small : n ≤ Number.significandLimit) :
      Value.Fits allowance (.number (Text.ofNat n))
  | string (allowance : Nat) (t : Text) : Value.Fits allowance (.string t)
  | array {allowance : Nat} {items : List Value} (each : ∀ item ∈ items, item.Fits allowance) :
      Value.Fits (allowance + 1) (.array items)
  | object {allowance : Nat} {members : Members}
      (each : ∀ entry ∈ members, entry.2.Fits allowance) :
      Value.Fits (allowance + 1) (.object members)

theorem Value.prettyItems_eq_map (level : Nat) (items : List Value) :
    Value.prettyItems level items = items.map (Value.pretty level) := by
  induction items with
  | nil => rfl
  | cons item later ih => rw [Value.prettyItems, ih, List.map_cons]

theorem Value.prettyMembers_eq_map (level : Nat) (members : Members) :
    Value.prettyMembers level members =
      members.map fun entry => literal entry.1 ++ ": " ++ entry.2.pretty level := by
  induction members with
  | nil => rfl
  | cons entry later ih => rw [Value.prettyMembers, ih, List.map_cons]

theorem gives_value_of_array {allowance : Nat} {t rest : Text} {items : List Value}
    (found : Gives ((value allowance).items ']' .endInList .expectedListEnd) t items rest) :
    Gives (value (allowance + 1)) ('[' :: t) (.array items) rest := by
  obtain ⟨r, read, rfl, rfl⟩ := found
  refine ⟨(r.map .array).within (Text.length_le_cons _ _), ?_, rfl, rfl⟩
  unfold value
  exact map_eq_ok.mpr ⟨r, read, rfl⟩

theorem gives_value_null (allowance : Nat) (rest : Text) :
    Gives (value allowance) ('n' :: ("ull".toList ++ rest)) .null rest := by
  obtain ⟨r, read, isValue, isRest⟩ := gives_word_append 'n' "ull" rest .null
  refine ⟨r, ?_, isValue, isRest⟩
  unfold value
  exact read

/-- A member is shown by its name as a literal and its value. -/
theorem shows_member {allowance level : Nat} {entry : Text × Value}
    (contents : Shows (value allowance) (entry.2.pretty level) entry.2) :
    Shows (member (value allowance)) (literal entry.1 ++ ": " ++ entry.2.pretty level) entry where
  opens := ⟨'"', _, rfl, by decide, by simp [Closes]⟩
  gives := by
    intro rest stops
    have blank : skipSpace (' ' :: (entry.2.pretty level ++ rest)) =
        entry.2.pretty level ++ rest := by
      obtain ⟨c, behind, shape, opens⟩ := contents.opens
      rw [shape, List.cons_append]
      exact skipSpace_cons _ opens.1
    have found := contents.gives rest stops
    rw [← blank] at found
    have named := gives_member_append ⟨[], List.forall_mem_nil _⟩ (spells_escaped entry.1) found
    rw [List.append_assoc, List.append_assoc, literal_append]
    exact named

/-- A value that fits is shown by what is printed for it, on whichever level. -/
theorem Value.Fits.shows {allowance : Nat} {contents : Value} (fits : contents.Fits allowance)
    (level : Nat) : Shows (value allowance) (contents.pretty level) contents := by
  induction fits generalizing level with
  | null allowance =>
    exact ⟨⟨'n', "ull", rfl, by decide, by simp [Closes]⟩, fun rest _ => gives_value_null _ rest⟩
  | boolean allowance b =>
    cases b with
    | false =>
      exact ⟨⟨'f', "alse", rfl, by decide, by simp [Closes]⟩, fun rest _ =>
        gives_value_of_word (.inr ⟨rfl, rfl, rfl⟩) (gives_word_append 'f' "alse" rest _)⟩
    | true =>
      exact ⟨⟨'t', "rue", rfl, by decide, by simp [Closes]⟩, fun rest _ =>
        gives_value_of_word (.inl ⟨rfl, rfl, rfl⟩) (gives_word_append 't' "rue" rest _)⟩
  | @count allowance n small =>
    refine ⟨?_, fun rest stops => gives_value_ofNat small stops⟩
    obtain ⟨c, digits, shape⟩ := Text.exists_ofNat_eq_cons n
    exact ⟨c, digits, shape,
      opens_of_isDigit (Text.isDigit_of_mem_ofNat (shape ▸ List.mem_cons_self))⟩
  | string allowance t =>
    refine ⟨⟨'"', _, rfl, by decide, by simp [Closes]⟩, fun rest _ => ?_⟩
    rw [Value.pretty, literal_append]
    exact gives_value_of_string (gives_string_append (spells_escaped t) rest)
  | @array allowance items each ih =>
    have shown : List.Forall₂ (Shows (value allowance)) (Value.prettyItems (level + 1) items)
        items := by
      rw [Value.prettyItems_eq_map, List.forall₂_map_left_iff, List.forall₂_same]
      exact fun item listed => ih item listed (level + 1)
    refine ⟨?_, fun rest _ => ?_⟩
    · obtain ⟨behind, shape⟩ :=
        exists_bracket_eq '[' ']' level (Value.prettyItems (level + 1) items)
      exact ⟨'[', behind, shape, by decide, by simp [Closes]⟩
    · obtain ⟨inside, whole, found⟩ := @gives_bracket _ _ '[' ']' .endInList .expectedListEnd _ _
        (.inl rfl) shown level rest
      rw [Value.pretty, whole]
      exact gives_value_of_array found
  | @object allowance members each ih =>
    have shown : List.Forall₂ (Shows (member (value allowance)))
        (Value.prettyMembers (level + 1) members) members := by
      rw [Value.prettyMembers_eq_map, List.forall₂_map_left_iff, List.forall₂_same]
      exact fun entry listed => shows_member (ih entry listed (level + 1))
    refine ⟨?_, fun rest _ => ?_⟩
    · obtain ⟨behind, shape⟩ :=
        exists_bracket_eq '\x7b' '\x7d' level (Value.prettyMembers (level + 1) members)
      exact ⟨'\x7b', behind, shape, by decide, by simp [Closes]⟩
    · obtain ⟨inside, whole, found⟩ := @gives_bracket _ _ '\x7b' '\x7d' .endInObject
        .expectedObjectEnd _ _ (.inr rfl) shown level rest
      rw [Value.pretty, whole]
      exact gives_value_of_object found

/-- A value that fits is read from its printed form, with blanks behind it or not. -/
theorem ofText_pretty {contents : Value} (fits : contents.Fits depthLimit) (after : Spaces) :
    Value.ofText (contents.pretty 0 ++ after.val) = .ok contents := by
  have shows := fits.shows 0
  have found := shows.gives after.val (stops_spaces after)
  obtain ⟨c, behind, shape, opens⟩ := shows.opens
  have begins : skipSpace (contents.pretty 0 ++ after.val) = contents.pretty 0 ++ after.val := by
    rw [shape, List.cons_append, skipSpace_cons _ opens.1]
  rw [← begins] at found
  unfold Value.ofText
  rw [document_of_gives found (skipSpace_eq_nil_iff.mpr ⟨after, rfl⟩)]
  rfl

end TreeMigration.Json
