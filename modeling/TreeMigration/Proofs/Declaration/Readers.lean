import TreeMigration.Proofs.Declaration.WholeName
import TreeMigration.Proofs.Identifier.Runs
import TreeMigration.Proofs.Rule.Division

/-!
What the readers of a header accept. Each is described by the texts it reads: what is written for
the value, and what may stand behind it so that the reader stops there.

For every reader there is one equivalence, `gives_identifier_iff`, `gives_word_iff` and so on: the
reader gives a value and a rest exactly if the text is what is written for the value followed by the
rest, with the condition on the rest that makes the division unique. Readers put together from
others get theirs from the equivalences of the parts. The written forms are structures with a
`text`: `Gap`, `Bracket`, `Marker`, `Receiver`.

Repeated readers are treated once. `many_flatMap_append` reads any number of written items up to a
text that the reader declines, and `exists_flatMap_many` says that what a repeated reader took is
such a number of items.

Many conditions are about characters that cannot stand in an identifier: the blanks and the marks of
a header. `EndsOutside` says that of the end of a text, and is kept by everything a header is
written from.
-/
namespace TreeMigration

open RuleLine (Blanks optional trimStart_append exists_blanks)

/-- Characters of one class in front of one that is not in the class are what is taken. -/
theorem Text.span_append {p : Char → Bool} {front rest : Text} (inside : ∀ c ∈ front, p c = true)
    (stop : rest.head?.any p = false) :
    (front ++ rest).takeWhile p = front ∧ (front ++ rest).dropWhile p = rest := by
  rw [List.takeWhile_append_of_pos inside, List.dropWhile_append_of_pos inside]
  cases rest with
  | nil => simp
  | cons c rest =>
    have outside : p c = false := by simpa using stop
    simp [outside]

theorem Text.head_dropWhile (p : Char → Bool) (t : Text) : (t.dropWhile p).head?.any p = false := by
  have stop := List.head?_dropWhile_not p t
  cases first : (t.dropWhile p).head? with
  | none => rfl
  | some c =>
    rw [first] at stop
    simpa using stop

/-- A text with no identifier character at its end. -/
def Text.EndsOutside (t : Text) : Prop := t.getLast?.any Identifier.isPart = false

namespace Text.EndsOutside

theorem nil : EndsOutside [] := rfl

theorem concat (t : Text) {c : Char} (outside : Identifier.isPart c = false) :
    EndsOutside (t ++ [c]) := by
  simp [EndsOutside, outside]

theorem behind {t : Text} (ends : EndsOutside t) (filled : t ≠ []) (s : Text) :
    EndsOutside (s ++ t) := by
  rwa [EndsOutside, List.getLast?_append_of_ne_nil _ filled]

theorem append {s t : Text} (first : EndsOutside s) (second : EndsOutside t) :
    EndsOutside (s ++ t) := by
  by_cases empty : t = []
  · rwa [empty, List.append_nil]
  · exact second.behind empty s

theorem flatMap {Form : Type} {write : Form → Text} (each : ∀ form, EndsOutside (write form))
    (forms : List Form) : EndsOutside (forms.flatMap write) := by
  induction forms with
  | nil => exact nil
  | cons form later ih => exact (each form).append ih

theorem of_blank {t : Text} (blank : ∀ c ∈ t, Text.isBlank c = true) : EndsOutside t := by
  cases last : t.getLast? with
  | none => rw [EndsOutside, last]; rfl
  | some c =>
    rw [EndsOutside, last]
    exact Identifier.isPart_eq_false_of_isBlank (blank c (List.mem_of_mem_getLast? last))

end Text.EndsOutside

namespace Reading

variable {α : Type} {step : (t : Text) → Option (Reading α t)}

/-- The reader succeeds on the text with this value and leaves this rest. -/
def Gives (step : (t : Text) → Option (Reading α t)) (t : Text) (value : α) (rest : Text) : Prop :=
  ∃ r, step t = some r ∧ r.value = value ∧ r.rest = rest

theorem Gives.unique {t rest otherRest : Text} {value other : α} (first : Gives step t value rest)
    (second : Gives step t other otherRest) : value = other ∧ rest = otherRest := by
  obtain ⟨r, read, rfl, rfl⟩ := first
  obtain ⟨r', read', rfl, rfl⟩ := second
  cases read.symm.trans read'
  exact ⟨rfl, rfl⟩

theorem many_eq_of_none {t : Text} (stops : step t = none) : many step t = ([], t) := by
  rw [many, stops]

theorem many_eq_of_gives {t rest : Text} {value : α} (gives : Gives step t value rest) :
    many step t = (value :: (many step rest).1, (many step rest).2) := by
  obtain ⟨r, read, rfl, rfl⟩ := gives
  rw [many, read]

/-- A repeated reader reads any number of written items up to a text it declines. `Follows` is what
may stand behind an item, and every item may follow another. -/
theorem many_flatMap_append {Form : Type} {write : Form → Text} {value : Form → α}
    (Follows : Text → Prop)
    (gives : ∀ form rest, Follows rest → Gives step (write form ++ rest) (value form) rest)
    (joins : ∀ form rest, Follows (write form ++ rest)) (forms : List Form) {rest : Text}
    (follows : Follows rest) (stops : step rest = none) :
    many step (forms.flatMap write ++ rest) = (forms.map value, rest) := by
  induction forms with
  | nil => exact many_eq_of_none stops
  | cons form later ih =>
    have behind : Follows (later.flatMap write ++ rest) := by
      cases later with
      | nil => exact follows
      | cons next later =>
        rw [List.flatMap_cons, List.append_assoc]
        exact joins next _
    rw [List.flatMap_cons, List.append_assoc, many_eq_of_gives (gives form _ behind), ih]
    rfl

/-- What a repeated reader reads is a number of written items. -/
theorem exists_flatMap_many {Form : Type} (write : Form → Text) (value : Form → α)
    (written : ∀ t r, step t = some r → ∃ form, t = write form ++ r.rest ∧ value form = r.value)
    (t : Text) :
    ∃ forms : List Form, t = forms.flatMap write ++ (many step t).2 ∧
      forms.map value = (many step t).1 := by
  fun_induction many step t with
  | case1 => exact ⟨[], rfl, rfl⟩
  | case2 t r read _ later ih =>
    obtain ⟨form, whole, same⟩ := written t r read
    obtain ⟨forms, rest, values⟩ := ih
    exact ⟨form :: forms, by rw [List.flatMap_cons, List.append_assoc, ← rest, ← whole],
      by rw [List.map_cons, same, values]⟩

end Reading

namespace Header

open Reading (Gives)

abbrev BareName := { name : Text // name.isIdentifier = true }

theorem exists_start {name : Text} (bare : name.isIdentifier = true) :
    ∃ c later, name = c :: later ∧ Identifier.isStart c = true ∧
      ∀ d ∈ later, Identifier.isPart d = true := by
  cases name with
  | nil => cases bare
  | cons c later =>
    obtain ⟨start, parts⟩ := (Bool.and_eq_true _ _).mp bare
    exact ⟨c, later, rfl, start, List.all_eq_true.mp parts⟩

/-- The marks of a header are part of no identifier. -/
theorem isPart_eq_false_of_mark {c : Char} (mark : c ∈ ['@', '<', '>', '(', '.', '?', '\x60']) :
    Identifier.isPart c = false := by
  have outside : ['@', '<', '>', '(', '.', '?', '\x60'].all (!Identifier.isPart ·) = true := by
    decide +kernel
  simpa using List.all_eq_true.mp outside c mark

theorem head_ne_of_isIdentifier {name : Text} (bare : name.isIdentifier = true) {c : Char}
    (outside : Identifier.isPart c = false) (rest : Text) : (name ++ rest).head? ≠ some c := by
  obtain ⟨d, later, rfl, start, -⟩ := exists_start bare
  intro same
  rw [Option.some.inj same] at start
  exact Bool.false_ne_true (outside.symm.trans (Identifier.isPart_of_isStart start))

/-- A text that begins neither with a bracket nor with a blank. -/
def Unbracketed (t : Text) : Prop := t.head? ≠ some '<' ∧ t.head?.any Text.isBlank = false

theorem unbracketed_of_isIdentifier {name : Text} (bare : name.isIdentifier = true) (rest : Text) :
    Unbracketed (name ++ rest) := by
  refine ⟨head_ne_of_isIdentifier bare (isPart_eq_false_of_mark (by decide)) rest, ?_⟩
  obtain ⟨c, later, rfl, start, -⟩ := exists_start bare
  refine Bool.eq_false_iff.mpr fun blank => ?_
  have outside := Identifier.isPart_eq_false_of_isBlank blank
  exact Bool.false_ne_true (outside.symm.trans (Identifier.isPart_of_isStart start))

structure Gap where
  text : Text
  filled : text ≠ []
  blank : ∀ c ∈ text, Text.isBlank c = true

theorem Gap.head_append (gap : Gap) (rest : Text) :
    ∃ c, (gap.text ++ rest).head? = some c ∧ Text.isBlank c = true := by
  obtain ⟨c, later, shape⟩ := List.exists_cons_of_ne_nil gap.filled
  exact ⟨c, by simp [shape], gap.blank c (by simp [shape])⟩

theorem ne_of_blank {c d : Char} (blank : Text.isBlank c = true) (plain : Text.isBlank d = false) :
    c ≠ d := by
  rintro rfl
  exact Bool.false_ne_true (plain.symm.trans blank)

/-- A bracket that may be missing. It ends at the first closing mark. -/
inductive Bracket (opening closing : Char) where
  | absent
  | around (inside : Text) (unclosed : closing ∉ inside)

def Bracket.text {opening closing : Char} : Bracket opening closing → Text
  | .absent => []
  | .around inside _ => opening :: (inside ++ [closing])

theorem gives_identifier_iff {t name rest : Text} :
    Gives identifier t name rest ↔ t = name ++ rest ∧ name.isIdentifier = true ∧
      rest.head?.any Identifier.isPart = false := by
  constructor
  · rintro ⟨r, read, rfl, rfl⟩
    unfold identifier at read
    split at read
    · cases read
    · rename_i c later
      split at read
      · rename_i start
        cases read
        refine ⟨by simp, ?_, Text.head_dropWhile _ _⟩
        exact (Bool.and_eq_true _ _).mpr
          ⟨start, List.all_eq_true.mpr fun _ member => List.mem_takeWhile_imp member⟩
      · cases read
  · rintro ⟨rfl, bare, stop⟩
    obtain ⟨c, later, rfl, start, parts⟩ := exists_start bare
    obtain ⟨taken, left⟩ := Text.span_append parts stop
    exact ⟨_, if_pos start, congrArg (c :: ·) taken, left⟩

theorem gives_blanks_iff {t rest : Text} {value : Unit} :
    Gives blanks t value rest ↔ ∃ gap : Gap, t = gap.text ++ rest ∧
      rest.head?.any Text.isBlank = false := by
  constructor
  · rintro ⟨r, read, -, rfl⟩
    unfold blanks at read
    split at read
    · cases read
    · rename_i c later
      split at read
      · rename_i blank
        cases read
        refine ⟨⟨c :: later.takeWhile Text.isBlank, List.cons_ne_nil _ _, ?_⟩, by simp,
          Text.head_dropWhile _ _⟩
        intro d member
        rcases List.mem_cons.mp member with rfl | member
        · exact blank
        · exact List.mem_takeWhile_imp member
      · cases read
  · rintro ⟨⟨text, filled, blank⟩, rfl, stop⟩
    obtain ⟨c, later, rfl⟩ := List.exists_cons_of_ne_nil filled
    obtain ⟨first, others⟩ := List.forall_mem_cons.mp blank
    exact ⟨_, if_pos first, rfl, (Text.span_append others stop).2⟩

theorem gives_word_iff {t written rest : Text} :
    Gives word t written rest ↔ ∃ gap : Gap, t = written ++ (gap.text ++ rest) ∧
      (∀ c ∈ written, Text.isBlank c = false) ∧ rest.head?.any Text.isBlank = false := by
  have split : Gives word t written rest ↔ t.takeWhile (!Text.isBlank ·) = written ∧
      Gives blanks (t.dropWhile (!Text.isBlank ·)) () rest := by
    constructor
    · rintro ⟨r, read, rfl, rfl⟩
      obtain ⟨after, blank, same⟩ := Option.bind_eq_some_iff.mp read
      cases same
      exact ⟨rfl, after, blank, rfl, rfl⟩
    · rintro ⟨rfl, after, blank, -, rfl⟩
      exact ⟨_, Option.bind_eq_some_iff.mpr ⟨after, blank, rfl⟩, rfl, rfl⟩
  rw [split, gives_blanks_iff]
  constructor
  · rintro ⟨rfl, gap, behind, stop⟩
    refine ⟨gap, ?_, ?_, stop⟩
    · rw [← behind]
      exact List.takeWhile_append_dropWhile.symm
    · intro c member
      simpa using List.mem_takeWhile_imp member
  · rintro ⟨gap, rfl, plain, stop⟩
    have spaced : (gap.text ++ rest).head?.any (!Text.isBlank ·) = false := by
      obtain ⟨c, first, blank⟩ := gap.head_append rest
      simp [first, blank]
    obtain ⟨taken, left⟩ := Text.span_append (p := (!Text.isBlank ·)) (by simpa using plain) spaced
    exact ⟨taken, gap, left, stop⟩

def words : List Text := modifierWords ++ keywords.map Prod.fst

theorem words_bare : ∀ written ∈ words, written.isIdentifier = true := by decide +kernel

theorem words_distinct : words.Nodup := by decide +kernel

theorem mem_words_of_modifier {written : Text} (listed : written ∈ modifierWords) :
    written ∈ words :=
  List.mem_append_left _ listed

theorem mem_words_of_keyword {written : Text} {kind : DeclarationKind}
    (listed : (written, kind) ∈ keywords) : written ∈ words :=
  List.mem_append_right _ (List.mem_map_of_mem listed)

theorem plain_of_mem_words {written : Text} (listed : written ∈ words) :
    ∀ c ∈ written, Text.isBlank c = false := by
  intro c member
  refine Bool.eq_false_iff.mpr fun blank => ?_
  have inside := (Identifier.all_isPart_of_isIdentifier (words_bare _ listed)).2 c member
  exact Bool.false_ne_true ((Identifier.isPart_eq_false_of_isBlank blank).symm.trans inside)

theorem gives_modifier_iff {t written rest : Text} :
    Gives modifier t written rest ↔ written ∈ modifierWords ∧ ∃ gap : Gap,
      t = written ++ (gap.text ++ rest) ∧ rest.head?.any Text.isBlank = false := by
  have split : Gives modifier t written rest ↔ written ∈ modifierWords ∧
      Gives word t written rest := by
    constructor
    · rintro ⟨r, read, rfl, rfl⟩
      obtain ⟨found, wordRead, kept⟩ := Option.bind_eq_some_iff.mp read
      obtain ⟨listed, same⟩ := Option.ite_none_right_eq_some.mp kept
      cases same
      exact ⟨List.contains_iff_mem.mp listed, r, wordRead, rfl, rfl⟩
    · rintro ⟨listed, r, read, rfl, rfl⟩
      exact ⟨r, Option.bind_eq_some_iff.mpr
        ⟨r, read, if_pos (List.contains_iff_mem.mpr listed)⟩, rfl, rfl⟩
  rw [split, gives_word_iff]
  constructor
  · rintro ⟨listed, gap, whole, -, stop⟩
    exact ⟨listed, gap, whole, stop⟩
  · rintro ⟨listed, gap, whole, stop⟩
    exact ⟨listed, gap, whole, plain_of_mem_words (mem_words_of_modifier listed), stop⟩

theorem lookup_keywords_iff {written : Text} {kind : DeclarationKind} :
    keywords.lookup written = some kind ↔ (written, kind) ∈ keywords := by
  constructor
  · intro found
    obtain ⟨before, after, shape, -⟩ := List.lookup_eq_some_iff.mp found
    rw [shape]
    exact List.mem_append_right _ List.mem_cons_self
  · intro listed
    have distinct : ∀ entry ∈ keywords, keywords.lookup entry.1 = some entry.2 := by
      decide +kernel
    exact distinct _ listed

theorem gives_keyword_iff {t rest : Text} {kind : DeclarationKind} :
    Gives keyword t kind rest ↔ ∃ written, (written, kind) ∈ keywords ∧ ∃ gap : Gap,
      t = written ++ (gap.text ++ rest) ∧ rest.head?.any Text.isBlank = false := by
  have split : Gives keyword t kind rest ↔ ∃ written, (written, kind) ∈ keywords ∧
      Gives word t written rest := by
    constructor
    · rintro ⟨r, read, rfl, rfl⟩
      obtain ⟨found, wordRead, kept⟩ := Option.bind_eq_some_iff.mp read
      obtain ⟨kind, listed, same⟩ := Option.bind_eq_some_iff.mp kept
      cases same
      exact ⟨found.value, lookup_keywords_iff.mp listed, found, wordRead, rfl, rfl⟩
    · rintro ⟨written, listed, r, read, rfl, rfl⟩
      exact ⟨_, Option.bind_eq_some_iff.mpr ⟨r, read,
        Option.bind_eq_some_iff.mpr ⟨kind, lookup_keywords_iff.mpr listed, rfl⟩⟩, rfl, rfl⟩
  simp only [split, gives_word_iff]
  constructor
  · rintro ⟨written, listed, gap, whole, -, stop⟩
    exact ⟨written, listed, gap, whole, stop⟩
  · rintro ⟨written, listed, gap, whole, stop⟩
    exact ⟨written, listed, gap, whole, plain_of_mem_words (mem_words_of_keyword listed), stop⟩

theorem exists_bracket_of_afterBracket {opening closing : Char} {t : Text} {r : Remainder t}
    (read : afterBracket opening closing t = some r) :
    ∃ bracket : Bracket opening closing, t = bracket.text ++ r.val ∧
      (bracket = .absent → r.val.head? ≠ some opening) := by
  unfold afterBracket at read
  split at read
  · cases read
    exact ⟨.absent, rfl, by simp⟩
  · rename_i c later
    split at read
    · rename_i opened
      split at read
      · cases read
      · rename_i mark after shape
        cases read
        have closes : mark = closing := by
          have stop := Text.head_dropWhile (· != closing) later
          rw [shape] at stop
          simpa using stop
        refine ⟨.around (later.takeWhile (· != closing)) ?_, ?_, by rintro ⟨⟩⟩
        · intro member
          simpa using List.mem_takeWhile_imp member
        · have whole := (List.takeWhile_append_dropWhile (p := (· != closing)) (l := later)).symm
          rw [shape, closes] at whole
          simpa [Bracket.text, opened] using whole
    · rename_i other
      cases read
      exact ⟨.absent, rfl, fun _ same => other (Option.some.inj same)⟩

theorem afterBracket_text {opening closing : Char} (bracket : Bracket opening closing) {rest : Text}
    (unopened : bracket = .absent → rest.head? ≠ some opening) :
    ∃ r, afterBracket opening closing (bracket.text ++ rest) = some r ∧ r.val = rest := by
  cases bracket with
  | absent =>
    cases rest with
    | nil => exact ⟨_, rfl, rfl⟩
    | cons c rest => exact ⟨_, if_neg fun same => unopened rfl (congrArg some same), rfl⟩
  | around inside unclosed =>
    have before : ∀ c ∈ inside, (c != closing) = true := by
      intro c member
      exact bne_iff_ne.mpr fun same => unclosed (same ▸ member)
    have found : (inside ++ closing :: rest).dropWhile (· != closing) = closing :: rest :=
      (Text.span_append before (by simp)).2
    have cut : (Bracket.around inside unclosed : Bracket opening closing).text ++ rest =
        opening :: (inside ++ closing :: rest) := by simp [Bracket.text]
    rw [cut, afterBracket, if_pos rfl]
    split
    · rename_i shape
      rw [found] at shape
      cases shape
    · rename_i mark after shape
      rw [found] at shape
      cases shape
      exact ⟨_, rfl, rfl⟩

theorem afterBracket_iff {opening closing : Char} {t rest : Text} :
    (∃ r, afterBracket opening closing t = some r ∧ r.val = rest) ↔
      ∃ bracket : Bracket opening closing, t = bracket.text ++ rest ∧
        (bracket = .absent → rest.head? ≠ some opening) := by
  constructor
  · rintro ⟨r, read, rfl⟩
    exact exists_bracket_of_afterBracket read
  · rintro ⟨bracket, rfl, unopened⟩
    exact afterBracket_text bracket unopened

def afterMark (mark : Char) (t : Text) : Text := if t.head? = some mark then t.tail else t

theorem exists_mark (mark : Char) (t : Text) :
    ∃ present, t = optional present [mark] ++ afterMark mark t := by
  unfold afterMark
  split
  · rename_i first
    obtain ⟨later, rfl⟩ := List.head?_eq_some_iff.mp first
    exact ⟨true, rfl⟩
  · exact ⟨false, rfl⟩

theorem afterMark_append {mark : Char} {rest : Text} (present : Bool)
    (other : rest.head? ≠ some mark) : afterMark mark (optional present [mark] ++ rest) = rest := by
  cases present with
  | true => exact if_pos rfl
  | false => exact if_neg other

theorem gives_dotted_iff {t name rest : Text} :
    Gives dotted t name rest ↔ t = '.' :: (name ++ rest) ∧ name.isIdentifier = true ∧
      rest.head?.any Identifier.isPart = false := by
  have split : Gives dotted t name rest ↔ ∃ later, t = '.' :: later ∧
      Gives identifier later name rest := by
    constructor
    · rintro ⟨r, read, rfl, rfl⟩
      unfold dotted at read
      split at read
      · cases read
      · obtain ⟨dot, read⟩ := Option.ite_none_right_eq_some.mp read
        obtain ⟨inner, found, same⟩ := Option.map_eq_some_iff.mp read
        cases same
        exact ⟨_, congrArg (· :: _) dot, inner, found, rfl, rfl⟩
    · rintro ⟨later, rfl, r, read, rfl, rfl⟩
      rw [Gives, dotted, if_pos rfl, read]
      exact ⟨_, rfl, rfl, rfl⟩
  simp only [split, gives_identifier_iff]
  constructor
  · rintro ⟨later, rfl, rfl, bare, stop⟩
    exact ⟨rfl, bare, stop⟩
  · rintro ⟨rfl, bare, stop⟩
    exact ⟨_, rfl, rfl, bare, stop⟩

theorem dotted_eq_none {t : Text} (other : t.head? ≠ some '.') : dotted t = none := by
  cases t with
  | nil => rfl
  | cons c t => exact if_neg fun same => other (congrArg some same)

/-- An annotation with the blanks behind it. -/
structure Marker where
  name : BareName
  path : List BareName
  arguments : Bracket '(' ')'
  gap : Gap

def Marker.tail (marker : Marker) : Text :=
  marker.path.flatMap ('.' :: ·.val) ++ (marker.arguments.text ++ marker.gap.text)

def Marker.text (marker : Marker) : Text :=
  '@' :: (marker.name.val ++ marker.tail)

/-- A type in front of a declared name, with the dot behind it. -/
structure Receiver where
  type : BareName
  arguments : Bracket '<' '>'
  nullable : Bool

def Receiver.tail (receiver : Receiver) : Text :=
  receiver.arguments.text ++ (optional receiver.nullable ['?'] ++ ['.'])

def Receiver.text (receiver : Receiver) : Text := receiver.type.val ++ receiver.tail

theorem gives_annotation_iff_parts {t rest : Text} {value : Unit} :
    Gives annotation t value rest ↔ ∃ later name behind, t = '@' :: later ∧
      Gives identifier later name behind ∧ ∃ arguments,
        afterBracket '(' ')' (Reading.many dotted behind).2 = some arguments ∧
        Gives blanks arguments.val () rest := by
  constructor
  · rintro ⟨r, read, -, rfl⟩
    unfold annotation at read
    split at read
    · cases read
    · obtain ⟨mark, read⟩ := Option.ite_none_right_eq_some.mp read
      obtain ⟨first, named, read⟩ := Option.bind_eq_some_iff.mp read
      obtain ⟨arguments, bracket, read⟩ := Option.bind_eq_some_iff.mp read
      obtain ⟨after, blank, same⟩ := Option.bind_eq_some_iff.mp read
      cases same
      exact ⟨_, _, _, congrArg (· :: _) mark, ⟨first, named, rfl, rfl⟩, arguments, bracket,
        after, blank, rfl, rfl⟩
  · rintro ⟨later, name, behind, rfl, ⟨first, named, rfl, rfl⟩, arguments, bracket, after, blank,
      -, rfl⟩
    rw [Gives, annotation, if_pos rfl]
    simp only [Option.bind_eq_bind, named, Option.bind_some, bracket, blank]
    exact ⟨_, rfl, trivial, rfl⟩

theorem gives_annotation_iff {t rest : Text} {value : Unit} :
    Gives annotation t value rest ↔ ∃ written : Marker, t = written.text ++ rest ∧
      rest.head?.any Text.isBlank = false := by
  rw [gives_annotation_iff_parts]
  constructor
  · rintro ⟨later, name, behind, rfl, named, arguments, bracket, blank⟩
    obtain ⟨rfl, bare, -⟩ := gives_identifier_iff.mp named
    obtain ⟨gap, shape, stop⟩ := gives_blanks_iff.mp blank
    obtain ⟨written, cut, -⟩ := afterBracket_iff.mp ⟨arguments, bracket, rfl⟩
    obtain ⟨path, steps, -⟩ := Reading.exists_flatMap_many
      (fun name : BareName => '.' :: name.val) Subtype.val (by
        intro t r (read : dotted t = some r)
        obtain ⟨whole, bare, -⟩ := gives_dotted_iff.mp ⟨r, read, rfl, rfl⟩
        exact ⟨⟨r.value, bare⟩, whole, rfl⟩) behind
    refine ⟨⟨⟨name, bare⟩, path, written, gap⟩, ?_, stop⟩
    rw [steps, cut, shape]
    simp [Marker.text, Marker.tail]
  · rintro ⟨⟨⟨name, bare⟩, path, arguments, gap⟩, rfl, stop⟩
    obtain ⟨c, first, outside, other⟩ : ∃ c, (arguments.text ++ (gap.text ++ rest)).head? = some c ∧
        Identifier.isPart c = false ∧ c ≠ '.' := by
      cases arguments with
      | absent =>
        obtain ⟨c, first, blank⟩ := gap.head_append rest
        exact ⟨c, first, Identifier.isPart_eq_false_of_isBlank blank, ne_of_blank blank (by decide)⟩
      | around inside unclosed => exact ⟨'(', rfl, isPart_eq_false_of_mark (by decide), by decide⟩
    let behind := path.flatMap ('.' :: ·.val) ++ (arguments.text ++ (gap.text ++ rest))
    have walked : Reading.many dotted behind =
        (path.map Subtype.val, arguments.text ++ (gap.text ++ rest)) :=
      Reading.many_flatMap_append (fun t => t.head?.any Identifier.isPart = false)
        (fun name rest stop => gives_dotted_iff.mpr ⟨by simp, name.property, stop⟩)
        (fun name rest => by simpa using isPart_eq_false_of_mark (c := '.') (by decide)) path
        (by simp [first, outside])
        (dotted_eq_none (by simp [first, other]))
    have opens : arguments = .absent → (gap.text ++ rest).head? ≠ some '(' := by
      intro _ same
      obtain ⟨d, first, blank⟩ := gap.head_append rest
      exact ne_of_blank blank (by decide) (Option.some.inj (first.symm.trans same))
    obtain ⟨r, bracket, left⟩ : ∃ r, afterBracket '(' ')' (Reading.many dotted behind).2 = some r ∧
        r.val = gap.text ++ rest := by
      rw [walked]
      exact afterBracket_iff.mpr ⟨arguments, rfl, opens⟩
    have named : Gives identifier (name ++ behind) name behind := by
      refine gives_identifier_iff.mpr ⟨rfl, bare, ?_⟩
      cases path with
      | nil => simp [behind, first, outside]
      | cons step path => exact isPart_eq_false_of_mark (c := '.') (by decide)
    refine ⟨_, _, _, ?_, named, r, bracket, gives_blanks_iff.mpr ⟨gap, left, stop⟩⟩
    simp [Marker.text, Marker.tail, behind]

/-- No identifier goes on into what follows the name of a receiver's type. -/
theorem Receiver.tail_whole (receiver : Receiver) (rest : Text) :
    (receiver.tail ++ rest).head?.any Identifier.isPart = false := by
  obtain ⟨type, arguments, nullable⟩ := receiver
  cases arguments with
  | around inside unclosed => exact isPart_eq_false_of_mark (c := '<') (by decide)
  | absent =>
    cases nullable with
    | true => exact isPart_eq_false_of_mark (c := '?') (by decide)
    | false => exact isPart_eq_false_of_mark (c := '.') (by decide)

/-- A receiver is read where an identifier, its arguments and a question mark that may be missing
are followed by a dot. -/
theorem afterReceiver_eq_some_iff {t rest : Text} :
    afterReceiver t = some rest ↔ ∃ receiver : Receiver, t = receiver.text ++ rest := by
  have split : afterReceiver t = some rest ↔ ∃ type behind, Gives identifier t type behind ∧
      ∃ arguments, afterBracket '<' '>' behind = some arguments ∧
        afterMark '?' arguments.val = '.' :: rest := by
    constructor
    · intro read
      obtain ⟨type, named, read⟩ := Option.bind_eq_some_iff.mp read
      obtain ⟨arguments, bracket, read⟩ := Option.bind_eq_some_iff.mp read
      obtain ⟨dot, same⟩ := Option.ite_none_right_eq_some.mp read
      obtain ⟨later, shape⟩ := List.head?_eq_some_iff.mp dot
      refine ⟨_, _, ⟨type, named, rfl, rfl⟩, arguments, bracket, ?_⟩
      rw [shape] at same
      rw [← Option.some.inj same]
      exact shape
    · rintro ⟨_, _, ⟨type, named, rfl, rfl⟩, arguments, bracket, dot⟩
      refine Option.bind_eq_some_iff.mpr ⟨type, named,
        Option.bind_eq_some_iff.mpr ⟨arguments, bracket, ?_⟩⟩
      change (if (afterMark '?' arguments.val).head? = some '.' then
        some (afterMark '?' arguments.val).tail else none) = some rest
      rw [dot]
      exact if_pos rfl
  rw [split]
  constructor
  · rintro ⟨type, behind, named, arguments, bracket, dot⟩
    obtain ⟨rfl, bare, -⟩ := gives_identifier_iff.mp named
    obtain ⟨written, cut, -⟩ := afterBracket_iff.mp ⟨arguments, bracket, rfl⟩
    obtain ⟨nullable, marked⟩ := exists_mark '?' arguments.val
    refine ⟨⟨⟨type, bare⟩, written, nullable⟩, ?_⟩
    rw [cut, marked, dot]
    simp [Receiver.text, Receiver.tail]
  · rintro ⟨⟨⟨type, bare⟩, arguments, nullable⟩, rfl⟩
    have opens : arguments = .absent →
        (optional nullable ['?'] ++ '.' :: rest).head? ≠ some '<' := by
      intro _
      cases nullable <;> simp
    obtain ⟨r, bracket, left⟩ := afterBracket_iff.mpr ⟨arguments, rfl, opens⟩
    have whole := Receiver.tail_whole ⟨⟨type, bare⟩, arguments, nullable⟩ rest
    refine ⟨type, _, gives_identifier_iff.mpr ⟨?_, bare, ?_⟩, r, bracket, ?_⟩
    · simp [Receiver.text, Receiver.tail]
    · simpa [Receiver.tail] using whole
    · rw [left]
      exact afterMark_append nullable (by simp)

theorem plainName_eq_some_iff {t name : Text} :
    plainName t = some name ↔ ∃ backtick rest, t = optional backtick ['\x60'] ++ (name ++ rest) ∧
      name.isIdentifier = true ∧ rest.head?.any Identifier.isPart = false := by
  have split : plainName t = some name ↔
      ∃ rest, Gives identifier (afterMark '\x60' t) name rest := by
    constructor
    · intro read
      obtain ⟨r, named, rfl⟩ := Option.map_eq_some_iff.mp read
      exact ⟨_, r, named, rfl, rfl⟩
    · rintro ⟨rest, r, named, rfl, rfl⟩
      exact Option.map_eq_some_iff.mpr ⟨r, named, rfl⟩
  simp only [split, gives_identifier_iff]
  constructor
  · rintro ⟨rest, shape, bare, stop⟩
    obtain ⟨backtick, marked⟩ := exists_mark '\x60' t
    exact ⟨backtick, rest, by rw [marked, shape], bare, stop⟩
  · rintro ⟨backtick, rest, rfl, bare, stop⟩
    refine ⟨rest, afterMark_append backtick ?_, bare, stop⟩
    intro first
    exact head_ne_of_isIdentifier bare (isPart_eq_false_of_mark (by decide)) rest first

end Header

end TreeMigration
