import TreeMigration.Proofs.Declaration.Readers

/-!
The grammar of declaration headers. A line carries a header exactly if it can be written from a
front, which ends with the keyword, and a designation, which holds the name; both directions are
proved, so however a line is divided, the name and the kind are the same.

A `Front` is blanks, markers, modifiers and a keyword, a `Designation` the type parameters, a
receiver or a backtick, the name and the rest of the line. What they are made of is described with
the readers; the conditions here say where one part ends and the next begins. There is one that
looks ahead: a name with nothing in front of it must not go on as if it were a receiver
(`ContinuesReceiver`), since then the name behind the dot is the one declared.

From a written line to its header, the repeated readers are run over their items
(`many_annotation_append`, `many_modifier_append`), each stopping because the next part begins with
none of its marks. From a header to a written line, the parts are collected from what the readers
gave (`exists_front`, `declaredName_eq_some_iff`).

The end of the module locates the name in the line: no identifier ends directly in front of it, so
it stands there as a whole. This is what the matcher of whole identifiers asks for.
-/
namespace TreeMigration.Header

open Reading (Gives)
open RuleLine (Blanks optional trimStart_append exists_blanks)

structure Modifier where
  word : Text
  listed : word ∈ modifierWords
  gap : Gap

def Modifier.text (modifier : Modifier) : Text := modifier.word ++ modifier.gap.text

/-- What a keyword declares behind the given modifiers. -/
inductive Introduces (modifiers : List Text) : Text → DeclarationKind → Prop
  | dataClass : ("data" : Text) ∈ modifiers → Introduces modifiers "class" .dataClass
  | enumClass : ("data" : Text) ∉ modifiers → ("enum" : Text) ∈ modifiers →
      Introduces modifiers "class" .enumClass
  | plainClass : ("data" : Text) ∉ modifiers → ("enum" : Text) ∉ modifiers →
      Introduces modifiers "class" .plainClass
  | interface : Introduces modifiers "interface" .interface
  | object : Introduces modifiers "object" .object
  | function : Introduces modifiers "fun" .function
  | fixedProperty : Introduces modifiers "val" .property
  | variableProperty : Introduces modifiers "var" .property
  | typeAlias : Introduces modifiers "typealias" .typeAlias

/-- A header up to the blanks behind its keyword. -/
structure Front where
  leading : Blanks
  markers : List Marker
  modifiers : List Modifier
  keyword : Text
  kind : DeclarationKind
  introduces : Introduces (modifiers.map Modifier.word) keyword kind
  gap : Gap

def Front.tail (front : Front) : Text := front.keyword ++ front.gap.text

def Front.text (front : Front) : Text :=
  front.leading.val ++ (front.markers.flatMap Marker.text ++
    (front.modifiers.flatMap Modifier.text ++ front.tail))

/-- Type parameters, in a bracket without a closing mark inside, and blanks behind it. -/
structure Parameters where
  inside : Text
  unclosed : '>' ∉ inside
  after : Blanks

def Parameters.text (parameters : Parameters) : Text :=
  '<' :: (parameters.inside ++ '>' :: parameters.after.val)

/-- The text goes on as if what is before it were a receiver: arguments that may be missing, a
question mark that may be missing and a dot, and then a name begins. -/
def ContinuesReceiver (t : Text) : Prop :=
  ∃ (arguments : Bracket '<' '>') (nullable backtick : Bool) (c : Char) (later : Text),
    Identifier.isStart c = true ∧ t = arguments.text ++ (optional nullable ['?'] ++
      '.' :: (optional backtick ['\x60'] ++ c :: later))

/-- A header from behind its keyword, with the rest of the line. A name with neither a receiver nor
a backtick in front of it does not read as a receiver itself. -/
structure Designation where
  parameters : Option Parameters
  receiver : Option Receiver
  backtick : Bool
  name : BareName
  rest : Text
  whole : rest.head?.any Identifier.isPart = false
  settled : receiver = none → backtick = false → ¬ ContinuesReceiver rest

def Designation.tail (designation : Designation) : Text :=
  optional designation.backtick ['\x60'] ++ (designation.name.val ++ designation.rest)

def Designation.text (designation : Designation) : Text :=
  (designation.parameters.map Parameters.text).getD [] ++
    ((designation.receiver.map Receiver.text).getD [] ++ designation.tail)

/-! ## The front -/

theorem introduces_iff {modifiers : List Text} {keyword : Text} {kind : DeclarationKind} :
    Introduces modifiers keyword kind ↔
      ∃ plain, (keyword, plain) ∈ keywords ∧ refine modifiers plain = kind := by
  constructor
  · intro introduces
    cases introduces with
    | dataClass data =>
      exact ⟨.plainClass, by simp [keywords], if_pos (List.contains_iff_mem.mpr data)⟩
    | enumClass noData enum =>
      refine ⟨.plainClass, by simp [keywords], ?_⟩
      rw [Header.refine, if_neg (mt List.contains_iff_mem.mp noData),
        if_pos (List.contains_iff_mem.mpr enum)]
    | plainClass noData noEnum =>
      refine ⟨.plainClass, by simp [keywords], ?_⟩
      rw [Header.refine, if_neg (mt List.contains_iff_mem.mp noData),
        if_neg (mt List.contains_iff_mem.mp noEnum)]
    | interface => exact ⟨.interface, by simp [keywords], rfl⟩
    | object => exact ⟨.object, by simp [keywords], rfl⟩
    | function => exact ⟨.function, by simp [keywords], rfl⟩
    | fixedProperty => exact ⟨.property, by simp [keywords], rfl⟩
    | variableProperty => exact ⟨.property, by simp [keywords], rfl⟩
    | typeAlias => exact ⟨.typeAlias, by simp [keywords], rfl⟩
  · rintro ⟨plain, listed, rfl⟩
    simp only [keywords, List.mem_cons, List.not_mem_nil, or_false, Prod.mk.injEq] at listed
    rcases listed with ⟨rfl, rfl⟩ | ⟨rfl, rfl⟩ | ⟨rfl, rfl⟩ | ⟨rfl, rfl⟩ | ⟨rfl, rfl⟩ | ⟨rfl, rfl⟩ |
      ⟨rfl, rfl⟩
    · rw [Header.refine]
      split
      · rename_i data
        exact .dataClass (List.contains_iff_mem.mp data)
      · rename_i noData
        rw [List.contains_iff_mem] at noData
        split
        · rename_i enum
          exact .enumClass noData (List.contains_iff_mem.mp enum)
        · rename_i noEnum
          exact .plainClass noData (mt List.contains_iff_mem.mpr noEnum)
    · exact .interface
    · exact .object
    · exact .function
    · exact .fixedProperty
    · exact .variableProperty
    · exact .typeAlias

/-- A text that begins neither with an annotation nor with a blank. -/
def Unmarked (t : Text) : Prop := t.head?.any Text.isBlank = false ∧ t.head? ≠ some '@'

theorem unmarked_word {written : Text} (listed : written ∈ words) (rest : Text) :
    Unmarked (written ++ rest) :=
  ⟨(unbracketed_of_isIdentifier (words_bare _ listed) rest).2,
    head_ne_of_isIdentifier (words_bare _ listed) (isPart_eq_false_of_mark (by decide)) rest⟩

theorem Modifier.unmarked (modifier : Modifier) (rest : Text) :
    Unmarked (modifier.text ++ rest) := by
  rw [text, List.append_assoc]
  exact unmarked_word (mem_words_of_modifier modifier.listed) _

theorem unmarked_modifiers (modifiers : List Modifier) {rest : Text} (unmarked : Unmarked rest) :
    Unmarked (modifiers.flatMap Modifier.text ++ rest) := by
  cases modifiers with
  | nil => exact unmarked
  | cons modifier later =>
    rw [List.flatMap_cons, List.append_assoc]
    exact modifier.unmarked _

theorem annotation_eq_none {t : Text} (other : t.head? ≠ some '@') : annotation t = none := by
  cases t with
  | nil => rfl
  | cons c t => exact if_neg fun same => other (congrArg some same)

/-- No keyword is read as a modifier. -/
theorem modifier_eq_none {t rest keyword : Text} {plain : DeclarationKind}
    (listed : (keyword, plain) ∈ keywords) (given : Gives word t keyword rest) :
    modifier t = none := by
  cases read : modifier t with
  | none => rfl
  | some r =>
    obtain ⟨modifies, gap, whole, stop⟩ := gives_modifier_iff.mp ⟨r, read, rfl, rfl⟩
    have same := (given.unique (gives_word_iff.mpr
      ⟨gap, whole, plain_of_mem_words (mem_words_of_modifier modifies), stop⟩)).1
    have both : keyword ∈ modifierWords := same ▸ modifies
    have apart := (List.nodup_append.mp words_distinct).2.2
    exact absurd rfl (apart _ both _ (List.mem_map_of_mem listed))

theorem many_annotation_append (markers : List Marker) {rest : Text} (unmarked : Unmarked rest) :
    Reading.many annotation (markers.flatMap Marker.text ++ rest) =
      (markers.map fun _ => (), rest) :=
  Reading.many_flatMap_append (fun t => t.head?.any Text.isBlank = false)
    (fun written _ stop => gives_annotation_iff.mpr ⟨written, rfl, stop⟩)
    (fun _ _ => rfl) markers unmarked.1 (annotation_eq_none unmarked.2)

theorem many_modifier_append (modifiers : List Modifier) {rest : Text}
    (plain : rest.head?.any Text.isBlank = false) (stops : modifier rest = none) :
    Reading.many modifier (modifiers.flatMap Modifier.text ++ rest) =
      (modifiers.map Modifier.word, rest) :=
  Reading.many_flatMap_append (fun t => t.head?.any Text.isBlank = false)
    (fun written _ stop => gives_modifier_iff.mpr
      ⟨written.listed, written.gap, by rw [Modifier.text, List.append_assoc], stop⟩)
    (fun written rest => (written.unmarked rest).1) modifiers plain stops

theorem trimStart_markers (leading : Blanks) (markers : List Marker) {rest : Text}
    (unmarked : Unmarked rest) :
    Text.trimStart (leading.val ++ (markers.flatMap Marker.text ++ rest)) =
      markers.flatMap Marker.text ++ rest := by
  apply trimStart_append
  cases markers with
  | nil => exact unmarked.1
  | cons first later => rfl

/-- The parts that a header is read in. -/
theorem ofLine?_eq_some_iff_parts {line : Text} {header : Header} :
    ofLine? line = some header ↔
      let modifiers := Reading.many modifier (Reading.many annotation (Text.trimStart line)).2
      ∃ plain rest, Gives keyword modifiers.2 plain rest ∧
        declaredName rest = some header.name ∧ Header.refine modifiers.1 plain = header.kind := by
  constructor
  · intro read
    obtain ⟨found, keywordRead, read⟩ := Option.bind_eq_some_iff.mp read
    obtain ⟨name, named, same⟩ := Option.bind_eq_some_iff.mp read
    cases same
    exact ⟨_, _, ⟨found, keywordRead, rfl, rfl⟩, named, rfl⟩
  · rintro ⟨_, _, ⟨found, keywordRead, rfl, rfl⟩, named, refined⟩
    refine Option.bind_eq_some_iff.mpr ⟨found, keywordRead,
      Option.bind_eq_some_iff.mpr ⟨header.name, named, ?_⟩⟩
    rw [refined]

/-- A line with a front is read like what is behind the front. -/
theorem ofLine?_front (front : Front) {t : Text} (plain : t.head?.any Text.isBlank = false) :
    ofLine? (front.text ++ t) = (declaredName t).map fun name => ⟨name, front.kind⟩ := by
  obtain ⟨leading, markers, modifiers, written, kind, introduces, gap⟩ := front
  obtain ⟨found, listed, refined⟩ := introduces_iff.mp introduces
  let fromKeyword := written ++ (gap.text ++ t)
  have wordGiven : Gives word fromKeyword written t :=
    gives_word_iff.mpr ⟨gap, rfl, plain_of_mem_words (mem_words_of_keyword listed), plain⟩
  have keywordGiven : Gives keyword fromKeyword found t :=
    gives_keyword_iff.mpr ⟨written, listed, gap, rfl, plain⟩
  have atKeyword : Unmarked fromKeyword := unmarked_word (mem_words_of_keyword listed) _
  have atModifiers := unmarked_modifiers modifiers atKeyword
  have shape : Front.text ⟨leading, markers, modifiers, written, kind, introduces, gap⟩ ++ t =
      leading.val ++ (markers.flatMap Marker.text ++
        (modifiers.flatMap Modifier.text ++ fromKeyword)) := by
    simp [Front.text, Front.tail, fromKeyword]
  have modified := many_modifier_append modifiers atKeyword.1 (modifier_eq_none listed wordGiven)
  apply Option.ext
  intro header
  rw [ofLine?_eq_some_iff_parts, shape, trimStart_markers leading markers atModifiers,
    many_annotation_append markers atModifiers]
  dsimp only
  rw [modified]
  constructor
  · rintro ⟨plain, rest, given, named, kind⟩
    obtain ⟨rfl, rfl⟩ := given.unique keywordGiven
    rw [named, ← refined, kind]
    rfl
  · intro named
    obtain ⟨name, read, rfl⟩ := Option.map_eq_some_iff.mp named
    exact ⟨found, t, keywordGiven, read, refined⟩

theorem exists_front {line : Text} {header : Header} (read : ofLine? line = some header) :
    ∃ (front : Front) (t : Text), line = front.text ++ t ∧ t.head?.any Text.isBlank = false ∧
      declaredName t = some header.name ∧ front.kind = header.kind := by
  obtain ⟨plain, rest, keywordGiven, named, refined⟩ := ofLine?_eq_some_iff_parts.mp read
  obtain ⟨written, listed, gap, fromKeyword, stop⟩ := gives_keyword_iff.mp keywordGiven
  obtain ⟨leading, trimmed⟩ := exists_blanks line
  obtain ⟨markers, fromMarkers, -⟩ := Reading.exists_flatMap_many Marker.text
    (fun _ => ()) (by
      intro t r (read : annotation t = some r)
      obtain ⟨marker, whole, -⟩ := gives_annotation_iff.mp ⟨r, read, rfl, rfl⟩
      exact ⟨marker, whole, rfl⟩) (Text.trimStart line)
  obtain ⟨modifiers, fromModifiers, words⟩ := Reading.exists_flatMap_many Modifier.text
    Modifier.word (by
      intro t r (read : modifier t = some r)
      obtain ⟨listed, gap, whole, -⟩ := gives_modifier_iff.mp ⟨r, read, rfl, rfl⟩
      exact ⟨⟨r.value, listed, gap⟩, by rw [Modifier.text, List.append_assoc, ← whole], rfl⟩)
    (Reading.many annotation (Text.trimStart line)).2
  refine ⟨⟨leading, markers, modifiers, written, header.kind,
    introduces_iff.mpr ⟨plain, listed, by rw [words, refined]⟩, gap⟩, rest, ?_, stop, named, rfl⟩
  conv_lhs => rw [trimmed, fromMarkers, fromModifiers, fromKeyword]
  simp [Front.text, Front.tail]

/-! ## The designation -/

def nameBehind (t : Text) : Option Text := (afterReceiver t >>= plainName).or (plainName t)

/-- Where something follows that reads as more of a receiver, a name is found behind it. -/
theorem exists_name_of_continues {name rest : Text} (bare : name.isIdentifier = true)
    (continues : ContinuesReceiver rest) :
    ∃ other, (afterReceiver (name ++ rest) >>= plainName) = some other := by
  obtain ⟨arguments, nullable, backtick, c, later, start, rfl⟩ := continues
  have received : afterReceiver (name ++ (arguments.text ++ (optional nullable ['?'] ++
      '.' :: (optional backtick ['\x60'] ++ c :: later)))) =
        some (optional backtick ['\x60'] ++ c :: later) :=
    afterReceiver_eq_some_iff.mpr ⟨⟨⟨name, bare⟩, arguments, nullable⟩, by
      simp [Receiver.text, Receiver.tail]⟩
  have named : plainName (optional backtick ['\x60'] ++ c :: later) =
      some (c :: later.takeWhile Identifier.isPart) := by
    refine plainName_eq_some_iff.mpr ⟨backtick, later.dropWhile Identifier.isPart, ?_, ?_,
      Text.head_dropWhile _ _⟩
    · rw [List.cons_append, List.takeWhile_append_dropWhile]
    · exact (Bool.and_eq_true _ _).mpr
        ⟨start, List.all_eq_true.mpr fun _ member => List.mem_takeWhile_imp member⟩
  exact ⟨_, by rw [received, Option.bind_eq_bind, Option.bind_some, named]⟩

theorem nameBehind_eq_some_iff {t name : Text} :
    nameBehind t = some name ↔ ∃ (receiver : Option Receiver) (backtick : Bool) (rest : Text),
      t = (receiver.map Receiver.text).getD [] ++ (optional backtick ['\x60'] ++ (name ++ rest)) ∧
      name.isIdentifier = true ∧ rest.head?.any Identifier.isPart = false ∧
      (receiver = none → backtick = false → ¬ ContinuesReceiver rest) := by
  rw [nameBehind, Option.or_eq_some_iff]
  constructor
  · rintro (received | ⟨unreceived, plain⟩)
    · obtain ⟨behind, read, plain⟩ := Option.bind_eq_some_iff.mp received
      obtain ⟨receiver, rfl⟩ := afterReceiver_eq_some_iff.mp read
      obtain ⟨backtick, rest, rfl, bare, whole⟩ := plainName_eq_some_iff.mp plain
      exact ⟨some receiver, backtick, rest, rfl, bare, whole, nofun⟩
    · obtain ⟨backtick, rest, rfl, bare, whole⟩ := plainName_eq_some_iff.mp plain
      refine ⟨none, backtick, rest, rfl, bare, whole, ?_⟩
      rintro - rfl continues
      obtain ⟨other, read⟩ := exists_name_of_continues bare continues
      cases read.symm.trans unreceived
  · rintro ⟨receiver, backtick, rest, rfl, bare, whole, settled⟩
    have plain : plainName (optional backtick ['\x60'] ++ (name ++ rest)) = some name :=
      plainName_eq_some_iff.mpr ⟨backtick, rest, rfl, bare, whole⟩
    cases receiver with
    | some receiver =>
      exact .inl (Option.bind_eq_some_iff.mpr
        ⟨_, afterReceiver_eq_some_iff.mpr ⟨receiver, rfl⟩, plain⟩)
    | none =>
      refine .inr ⟨?_, plain⟩
      rw [Option.eq_none_iff_forall_ne_some]
      intro other received
      obtain ⟨behind, read, named⟩ := Option.bind_eq_some_iff.mp received
      obtain ⟨receiver, shape⟩ := afterReceiver_eq_some_iff.mp read
      rw [Receiver.text, List.append_assoc] at shape
      cases backtick with
      | true =>
        have first := congrArg List.head? shape
        exact head_ne_of_isIdentifier receiver.type.property (isPart_eq_false_of_mark (by decide)) _
          first.symm
      | false =>
        -- The receiver's type can only be the name itself, and what follows it goes on as one.
        apply settled rfl rfl
        have typed : Gives identifier (name ++ rest) receiver.type.val (receiver.tail ++ behind) :=
          gives_identifier_iff.mpr ⟨shape, receiver.type.property, receiver.tail_whole behind⟩
        obtain ⟨-, rfl⟩ := (gives_identifier_iff.mpr ⟨rfl, bare, whole⟩).unique typed
        obtain ⟨backtick, later, rfl, bareOther, -⟩ := plainName_eq_some_iff.mp named
        obtain ⟨c, parts, rfl, start, -⟩ := exists_start bareOther
        exact ⟨receiver.arguments, receiver.nullable, backtick, c, parts ++ later, start,
          by simp [Receiver.tail]⟩

/-- What stands behind the type parameters begins with no bracket and no blank. -/
theorem unbracketed_of_nameBehind {t name : Text} (named : nameBehind t = some name) :
    Unbracketed t := by
  obtain ⟨receiver, backtick, rest, rfl, bare, -, -⟩ := nameBehind_eq_some_iff.mp named
  cases receiver with
  | some receiver =>
    rw [Option.map_some, Option.getD_some, Receiver.text, List.append_assoc]
    exact unbracketed_of_isIdentifier receiver.type.property _
  | none =>
    cases backtick with
    | true => exact ⟨by simp, (by decide : Text.isBlank '\x60' = false)⟩
    | false => exact unbracketed_of_isIdentifier bare rest

theorem declaredName_eq_some_iff_parts {t name : Text} :
    declaredName t = some name ↔ ∃ (parameters : Option Parameters) (behind : Text),
      t = (parameters.map Parameters.text).getD [] ++ behind ∧ nameBehind behind = some name := by
  have split : declaredName t = some name ↔ ∃ left,
      (∃ bracket, afterBracket '<' '>' t = some bracket ∧ bracket.val = left) ∧
        nameBehind (if t.head? = some '<' then Text.trimStart left else t) = some name := by
    constructor
    · intro read
      obtain ⟨bracket, closed, named⟩ := Option.bind_eq_some_iff.mp read
      exact ⟨_, ⟨bracket, closed, rfl⟩, named⟩
    · rintro ⟨_, ⟨bracket, closed, rfl⟩, named⟩
      exact Option.bind_eq_some_iff.mpr ⟨bracket, closed, named⟩
  simp only [split, afterBracket_iff]
  constructor
  · rintro ⟨left, ⟨written, rfl, opens⟩, named⟩
    cases written with
    | absent =>
      change nameBehind (if left.head? = some '<' then _ else left) = _ at named
      rw [if_neg (opens rfl)] at named
      exact ⟨none, left, rfl, named⟩
    | around inside unclosed =>
      have opened : (Bracket.text (.around inside unclosed : Bracket '<' '>') ++ left).head? =
          some '<' := rfl
      rw [if_pos opened] at named
      obtain ⟨after, trimmed⟩ := exists_blanks left
      refine ⟨some ⟨inside, unclosed, after⟩, _, ?_, named⟩
      conv_lhs => rw [trimmed]
      simp [Bracket.text, Parameters.text]
  · rintro ⟨parameters, behind, rfl, named⟩
    obtain ⟨unopened, sharp⟩ := unbracketed_of_nameBehind named
    cases parameters with
    | none =>
      refine ⟨behind, ⟨.absent, rfl, fun _ => unopened⟩, ?_⟩
      change nameBehind (if behind.head? = some '<' then _ else behind) = _
      rwa [if_neg unopened]
    | some parameters =>
      obtain ⟨inside, unclosed, after⟩ := parameters
      refine ⟨after.val ++ behind, ⟨.around inside unclosed, ?_, by rintro ⟨⟩⟩, ?_⟩
      · simp [Bracket.text, Parameters.text]
      · change nameBehind (if some '<' = some '<' then _ else _) = _
        rwa [if_pos rfl, trimStart_append after sharp]

theorem declaredName_eq_some_iff {t name : Text} :
    declaredName t = some name ↔
      ∃ designation : Designation, t = designation.text ∧ name = designation.name := by
  rw [declaredName_eq_some_iff_parts]
  constructor
  · rintro ⟨parameters, behind, rfl, named⟩
    obtain ⟨receiver, backtick, rest, rfl, bare, whole, settled⟩ := nameBehind_eq_some_iff.mp named
    exact ⟨⟨parameters, receiver, backtick, ⟨name, bare⟩, rest, whole, settled⟩, rfl, rfl⟩
  · rintro ⟨⟨parameters, receiver, backtick, ⟨name, bare⟩, rest, whole, settled⟩, rfl, rfl⟩
    exact ⟨parameters, _, rfl,
      nameBehind_eq_some_iff.mpr ⟨receiver, backtick, rest, rfl, bare, whole, settled⟩⟩

theorem Designation.declaredName_text (designation : Designation) :
    declaredName designation.text = some designation.name.val :=
  declaredName_eq_some_iff.mpr ⟨designation, rfl, rfl⟩

theorem Designation.head_text (designation : Designation) :
    designation.text.head?.any Text.isBlank = false := by
  obtain ⟨parameters, behind, same, named⟩ :=
    declaredName_eq_some_iff_parts.mp designation.declaredName_text
  rw [same]
  cases parameters with
  | none => exact (unbracketed_of_nameBehind named).2
  | some parameters => exact (by decide : Text.isBlank '<' = false)

/-! ## What stands in front of the name -/

/-- What stands between the type parameters and the name. -/
def passed (receiver : Option Receiver) (backtick : Bool) : Text :=
  (receiver.map Receiver.text).getD [] ++ optional backtick ['\x60']

/-- A header from behind its keyword, up to its name. -/
def Designation.lead (designation : Designation) : Text :=
  (designation.parameters.map Parameters.text).getD [] ++
    passed designation.receiver designation.backtick

theorem Designation.text_eq (designation : Designation) :
    designation.text = designation.lead ++ (designation.name.val ++ designation.rest) := by
  simp [text, lead, tail, passed]

def Front.lead (front : Front) : Text :=
  front.leading.val ++ (front.markers.flatMap Marker.text ++
    front.modifiers.flatMap Modifier.text)

theorem Front.text_eq (front : Front) :
    front.text = front.lead ++ (front.keyword ++ front.gap.text) := by
  simp [text, lead, tail]

theorem Gap.endsOutside (gap : Gap) : gap.text.EndsOutside := .of_blank gap.blank

theorem Designation.endsOutside_lead (designation : Designation) :
    designation.lead.EndsOutside := by
  obtain ⟨parameters, receiver, backtick, name, rest, whole, settled⟩ := designation
  refine .append ?_ (.append ?_ ?_)
  · cases parameters with
    | none => exact .nil
    | some parameters =>
      have closed := Text.EndsOutside.concat ('<' :: parameters.inside)
        (isPart_eq_false_of_mark (c := '>') (by decide))
      simpa [Parameters.text] using closed.append (.of_blank parameters.after.property)
  · cases receiver with
    | none => exact .nil
    | some receiver =>
      have dotted := Text.EndsOutside.concat (receiver.type.val ++ (receiver.arguments.text ++
        optional receiver.nullable ['?'])) (isPart_eq_false_of_mark (c := '.') (by decide))
      simpa [Receiver.text, Receiver.tail] using dotted
  · cases backtick with
    | false => exact .nil
    | true => exact .concat [] (isPart_eq_false_of_mark (by decide))

theorem Front.endsOutside_lead (front : Front) : front.lead.EndsOutside := by
  refine .append (.of_blank front.leading.property) (.append (.flatMap ?_ _) (.flatMap ?_ _))
  · intro marker
    have behind := marker.gap.endsOutside.behind marker.gap.filled
      ('@' :: (marker.name.val ++ (marker.path.flatMap ('.' :: ·.val) ++ marker.arguments.text)))
    simpa [Marker.text, Marker.tail] using behind
  · intro modifier
    exact modifier.gap.endsOutside.behind modifier.gap.filled _

theorem Front.endsOutside (front : Front) : front.text.EndsOutside := by
  rw [front.text_eq, ← List.append_assoc]
  exact front.gap.endsOutside.behind front.gap.filled _

/-- In front of the name of a header no identifier ends. -/
theorem clearEnd_written (front : Front) (designation : Designation) :
    Text.ClearEnd (front.text ++ designation.text) (designation.name.val ++ designation.rest) :=
  ⟨front.text ++ designation.lead, by rw [designation.text_eq, List.append_assoc],
    front.endsOutside.append designation.endsOutside_lead⟩

/-! ## The whole line -/

theorem ofLine?_written (front : Front) (designation : Designation) :
    ofLine? (front.text ++ designation.text) = some ⟨designation.name, front.kind⟩ := by
  rw [ofLine?_front front designation.head_text, designation.declaredName_text]
  rfl

theorem exists_written {line : Text} {header : Header} (read : ofLine? line = some header) :
    ∃ (front : Front) (designation : Designation),
      line = front.text ++ designation.text ∧ header = ⟨designation.name, front.kind⟩ := by
  obtain ⟨front, t, rfl, -, named, kind⟩ := exists_front read
  obtain ⟨designation, rfl, name⟩ := declaredName_eq_some_iff.mp named
  exact ⟨front, designation, rfl, by rw [← name, kind]⟩

/-- The name of a header is a bare identifier that stands in the line as a whole. -/
theorem name_spec {line : Text} {header : Header} (read : ofLine? line = some header) :
    header.name.isIdentifier = true ∧ header.name.StandsIn line := by
  obtain ⟨front, designation, rfl, rfl⟩ := exists_written read
  obtain ⟨before, shape, outside⟩ := clearEnd_written front designation
  exact ⟨designation.name.property, before, designation.rest, by rw [shape, List.append_assoc],
    outside, designation.whole⟩

/-- A line carries a header exactly if it is written as a front and a designation, and then the
header is the name of the designation with the kind of the front. -/
theorem read_iff_written {line : Text} {header : Header} :
    ofLine? line = some header ↔ ∃ (front : Front) (designation : Designation),
      line = front.text ++ designation.text ∧ header = ⟨designation.name, front.kind⟩ := by
  constructor
  · exact exists_written
  · rintro ⟨front, designation, rfl, rfl⟩
    exact ofLine?_written front designation

example : ofLine? "fun <T> List<T>?.`second`() = this[1]" = some ⟨"second", .function⟩ := by
  decide +kernel

end TreeMigration.Header
