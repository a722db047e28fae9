import TreeMigration.Proofs.Declaration.Grammar
import TreeMigration.Proofs.Text.Brackets

/-!
Headers of extension functions. The function is read under its own name where the receiver is a
single identifier and no bracket in front of the name holds another one. Behind anything else the
reader does not reach the name: what it finds then, if it finds anything, is a name of a type.

The headers are given by their structure. An `Extension` has type parameters, the parts of its
receiver with their type arguments, and a name; the arguments may be nested in any way as long as
the brackets are closed. `Extension.Flat` is the condition under which the reader succeeds.

For flat headers the grammar is enough: the parts are those of a designation. For the others the
argument is by counting. The reader takes a bracket up to the first closing mark, so of nested
arguments it leaves closing marks over, while in all that it passes more brackets are opened than
closed in front of every closing mark (`count_lt_of_passed`). `standsIn_types` then locates the name
that was taken.

Only headers of functions with a receiver are meant here. Other headers with brackets are covered by
the grammar.
-/
namespace TreeMigration.Header

open Reading (Gives)
open RuleLine (Blanks optional trimStart_append)

abbrev Arguments := { inside : Text // inside.Balanced }

def Arguments.text (arguments : Arguments) : Text := '<' :: (arguments.val ++ ['>'])

def Arguments.Flat (arguments : Arguments) : Prop := '<' ∉ arguments.val

/-- A name in the type of a receiver, with its type arguments. -/
structure TypePart where
  name : BareName
  arguments : Option Arguments

def TypePart.tail (part : TypePart) : Text := (part.arguments.map Arguments.text).getD []

def TypePart.text (part : TypePart) : Text := part.name.val ++ part.tail

/-- The header of an extension function, with the rest of the line. -/
structure Extension where
  modifiers : List Modifier
  gap : Gap
  parameters : Option (Arguments × Blanks)
  first : TypePart
  others : List TypePart
  nullable : Bool
  name : BareName
  rest : Text

namespace Extension

def generics (extension : Extension) : Text :=
  (extension.parameters.map fun (arguments, after) => arguments.text ++ after.val).getD []

/-- The receiver from behind its first name and its arguments. -/
def further (extension : Extension) : Text :=
  extension.others.flatMap ('.' :: ·.text) ++ optional extension.nullable ['?']

def receiver (extension : Extension) : Text := extension.first.text ++ extension.further

/-- All types in front of the name. -/
def types (extension : Extension) : Text := extension.generics ++ extension.receiver

def tail (extension : Extension) : Text :=
  extension.types ++ '.' :: (extension.name.val ++ '(' :: extension.rest)

def front (extension : Extension) : Front :=
  ⟨⟨[], nofun⟩, [], extension.modifiers, "fun", .function, .function, extension.gap⟩

def text (extension : Extension) : Text :=
  extension.modifiers.flatMap Modifier.text ++
    (("fun" : Text) ++ (extension.gap.text ++ extension.tail))

/-- The receiver is a single name and no bracket stands in another. -/
structure Flat (extension : Extension) : Prop where
  parameters : ∀ written ∈ extension.parameters, written.1.Flat
  arguments : ∀ written ∈ extension.first.arguments, written.Flat
  single : extension.others = []

end Extension

/-! ## Reaching the name -/

theorem Arguments.unclosed {arguments : Arguments} (flat : arguments.Flat) :
    '>' ∉ arguments.val := by
  have level := arguments.property.count_eq
  rw [List.count_eq_zero.mpr flat] at level
  exact List.count_eq_zero.mp level.symm

theorem not_mem_of_isIdentifier {name : Text} (bare : name.isIdentifier = true) {c : Char}
    (outside : Identifier.isPart c = false) : c ∉ name := by
  intro member
  have inside := (Identifier.all_isPart_of_isIdentifier bare).2 c member
  exact Bool.false_ne_true (outside.symm.trans inside)

namespace Extension

variable {extension : Extension}

theorem exists_bracket {arguments : Option Arguments} (flat : ∀ written ∈ arguments, written.Flat) :
    ∃ bracket : Bracket '<' '>', bracket.text = (arguments.map Arguments.text).getD [] := by
  cases arguments with
  | none => exact ⟨.absent, rfl⟩
  | some arguments => exact ⟨.around arguments.val (Arguments.unclosed (flat _ rfl)), rfl⟩

theorem Flat.exists_parameters (flat : extension.Flat) :
    ∃ parameters : Option Parameters,
      (parameters.map Parameters.text).getD [] = extension.generics := by
  have plain := flat.parameters
  rw [generics]
  cases written : extension.parameters with
  | none => exact ⟨none, rfl⟩
  | some written' =>
    obtain ⟨arguments, after⟩ := written'
    exact ⟨some ⟨arguments.val, Arguments.unclosed (plain _ written), after⟩, by
      simp [Parameters.text, Arguments.text]⟩

theorem Flat.exists_designation (flat : extension.Flat) :
    ∃ designation : Designation, extension.tail = designation.text ∧
      designation.name = extension.name := by
  obtain ⟨parameters, sameParameters⟩ := flat.exists_parameters
  obtain ⟨bracket, sameBracket⟩ := exists_bracket flat.arguments
  have whole : ('(' :: extension.rest).head?.any Identifier.isPart = false :=
    isPart_eq_false_of_mark (c := '(') (by decide)
  refine ⟨⟨parameters, some ⟨extension.first.name, bracket, extension.nullable⟩, false,
    extension.name, '(' :: extension.rest, whole, nofun⟩, ?_, rfl⟩
  simp [tail, types, receiver, further, flat.single, TypePart.text, TypePart.tail, Designation.text,
    Designation.tail, Receiver.text, Receiver.tail, sameParameters, sameBracket]

theorem unbracketed_receiver (extension : Extension) (rest : Text) :
    Unbracketed (extension.receiver ++ rest) := by
  rw [receiver, TypePart.text, List.append_assoc, List.append_assoc]
  exact unbracketed_of_isIdentifier extension.first.name.property _

theorem head_types (extension : Extension) (rest : Text) :
    (extension.types ++ rest).head?.any Text.isBlank = false := by
  rw [types, generics]
  cases extension.parameters with
  | none => exact (extension.unbracketed_receiver rest).2
  | some written => exact (by decide : Text.isBlank '<' = false)

theorem ofLine?_text (extension : Extension) :
    ofLine? extension.text = (declaredName extension.tail).map fun name => ⟨name, .function⟩ := by
  have written : extension.text = extension.front.text ++ extension.tail := by
    simp [text, Front.text, Front.tail, front]
  rw [written]
  exact ofLine?_front extension.front (head_types extension _)

end Extension

/-! ## Stopping in front of the name -/

/-- Up to a closing mark that is not nested, more brackets are opened than closed. -/
theorem Bracket.count_lt (bracket : Bracket '<' '>') {before after front back : Text}
    (unclosed : '>' ∉ before) (unclosed' : '>' ∉ after)
    (same : before ++ (bracket.text ++ after) = front ++ '>' :: back) :
    front.count '>' < front.count '<' := by
  cases bracket with
  | absent =>
    have member : '>' ∈ before ++ ([] ++ after) :=
      same ▸ List.mem_append_right _ List.mem_cons_self
    simp [unclosed, unclosed'] at member
  | around inside closed =>
    have first : '>' ∉ before ++ '<' :: inside := by simp [unclosed, closed]
    have cut : (before ++ '<' :: inside) ++ '>' :: after = front ++ '>' :: back := by
      rw [← same]
      simp [Bracket.text]
    rcases Text.division_at_first first cut with ⟨rfl, -⟩ | ⟨more, -, rfl⟩
    · rw [List.count_eq_zero.mpr first]
      exact List.count_pos_iff.mpr (by simp)
    · exact absurd (List.mem_append_right _ List.mem_cons_self) unclosed'

theorem unbracketed_passed (receiver : Option Receiver) (backtick : Bool) :
    Unbracketed (passed receiver backtick) := by
  cases receiver with
  | none => cases backtick <;> exact ⟨by decide, by decide⟩
  | some receiver =>
    rw [passed, Option.map_some, Option.getD_some, Receiver.text, List.append_assoc]
    exact unbracketed_of_isIdentifier receiver.type.property _

theorem not_mem_of_blank {blanks : Blanks} {c : Char} (plain : Text.isBlank c = false) :
    c ∉ blanks.val := fun member =>
  Bool.false_ne_true (plain.symm.trans (blanks.property c member))

theorem optional_backtick_ne {backtick : Bool} {name rest : Text}
    (bare : name.isIdentifier = true) : optional backtick ['\x60'] ≠ name ++ rest := by
  intro same
  cases backtick with
  | false =>
    obtain ⟨c, letters, rfl, -⟩ := exists_start bare
    cases same
  | true =>
    exact head_ne_of_isIdentifier bare (isPart_eq_false_of_mark (by decide)) rest
      (congrArg List.head? same).symm

theorem unclosed_marks (nullable backtick : Bool) :
    '>' ∉ optional nullable ['?'] ++ '.' :: optional backtick ['\x60'] := by
  cases nullable <;> cases backtick <;> decide

theorem count_lt_of_passed {receiver : Option Receiver} {backtick : Bool} {blanks : Blanks}
    {front back : Text} (same : blanks.val ++ passed receiver backtick = front ++ '>' :: back) :
    front.count '>' < front.count '<' := by
  have unclosed : '>' ∉ blanks.val := not_mem_of_blank (by decide)
  cases receiver with
  | none =>
    exact Bracket.count_lt .absent unclosed (by cases backtick <;> decide) same
  | some receiver =>
    have plain : '>' ∉ receiver.type.val :=
      not_mem_of_isIdentifier receiver.type.property (isPart_eq_false_of_mark (by decide))
    have before : '>' ∉ blanks.val ++ receiver.type.val := by simp [unclosed, plain]
    have shape : (blanks.val ++ receiver.type.val) ++ (receiver.arguments.text ++
        (optional receiver.nullable ['?'] ++ '.' :: optional backtick ['\x60'])) =
          front ++ '>' :: back := by
      rw [← same]
      simp [passed, Receiver.text, Receiver.tail]
    exact receiver.arguments.count_lt before (unclosed_marks receiver.nullable backtick) shape

theorem TypePart.tail_whole (part : TypePart) {rest : Text}
    (whole : rest.head?.any Identifier.isPart = false) :
    (part.tail ++ rest).head?.any Identifier.isPart = false := by
  rw [tail]
  cases part.arguments with
  | some arguments => exact isPart_eq_false_of_mark (c := '<') (by decide)
  | none => exact whole

/-- Where the reader passes the arguments of a type, nothing is nested in them. -/
theorem TypePart.flat_tail {part : TypePart} {bracket : Bracket '<' '>'} {nullable backtick : Bool}
    {rest : Text} (unopened : rest.head? ≠ some '<')
    (same : bracket.text ++ (optional nullable ['?'] ++ '.' :: optional backtick ['\x60']) =
      part.tail ++ rest) :
    (∀ written ∈ part.arguments, written.Flat) ∧
      optional nullable ['?'] ++ '.' :: optional backtick ['\x60'] = rest := by
  rw [tail] at same
  cases written : part.arguments with
  | none =>
    rw [written] at same
    cases bracket with
    | absent => exact ⟨nofun, same⟩
    | around inside unclosed => exact absurd (congrArg List.head? same).symm unopened
  | some arguments =>
    rw [written] at same
    cases bracket with
    | absent => cases nullable <;> exact absurd (List.cons.inj same).1 (by decide)
    | around inside unclosed =>
      have cut : inside ++ '>' :: (optional nullable ['?'] ++ '.' :: optional backtick ['\x60']) =
          arguments.val ++ '>' :: rest := by
        simpa [Bracket.text, Arguments.text] using same
      rcases arguments.property.division unclosed cut with ⟨flat, -, behind⟩ | ⟨more, behind, -⟩
      · refine ⟨?_, behind⟩
        rintro _ ⟨⟩
        exact flat
      · have closing : '>' ∈ more ++ '>' :: rest := List.mem_append_right _ List.mem_cons_self
        exact absurd (behind ▸ closing) (unclosed_marks nullable backtick)

namespace Extension

variable {extension : Extension}

/-- Type parameters that the reader passes on its way to the name hold no bracket. -/
theorem flat_parameters {parameters : Option Parameters} {receiver : Option Receiver}
    {backtick : Bool} {rest : Text}
    (same : (parameters.map Parameters.text).getD [] ++ passed receiver backtick =
      extension.generics ++ (extension.receiver ++ rest)) :
    (∀ written ∈ extension.parameters, written.1.Flat) ∧
      passed receiver backtick = extension.receiver ++ rest := by
  have begins := extension.unbracketed_receiver rest
  have begins' := unbracketed_passed receiver backtick
  rw [generics] at same
  cases written : extension.parameters with
  | none =>
    rw [written] at same
    cases parameters with
    | none => exact ⟨nofun, same⟩
    | some parameters => exact absurd (congrArg List.head? same).symm begins.1
  | some written' =>
    obtain ⟨arguments, after⟩ := written'
    rw [written] at same
    cases parameters with
    | none => exact absurd (congrArg List.head? same) begins'.1
    | some parameters =>
      have cut : parameters.inside ++ '>' :: (parameters.after.val ++ passed receiver backtick) =
          arguments.val ++ '>' :: (after.val ++ (extension.receiver ++ rest)) := by
        simpa [Parameters.text, Arguments.text] using same
      rcases arguments.property.division parameters.unclosed cut with
        ⟨flat, -, behind⟩ | ⟨more, behind, level⟩
      · refine ⟨?_, ?_⟩
        · rintro _ ⟨⟩
          exact flat
        · rw [← trimStart_append parameters.after begins'.2, behind,
            trimStart_append after begins.2]
      · -- What is cut off at the first closing mark closes more than it opens; no receiver does.
        exact absurd (count_lt_of_passed behind) (Nat.not_lt.mpr level)

/-- Where a passed receiver ends, the type it is the beginning of ends too. -/
theorem others_eq_nil {nullable backtick : Bool} {rest : Text}
    (same : optional nullable ['?'] ++ '.' :: optional backtick ['\x60'] =
      extension.further ++ '.' :: rest) : extension.others = [] := by
  rw [further] at same
  cases parts : extension.others with
  | nil => rfl
  | cons part later =>
    rw [parts] at same
    cases nullable with
    | true => exact absurd (List.cons.inj same).1 (by decide)
    | false =>
      -- Behind the dot a further part begins with a name, but only a backtick is passed there.
      have behind : optional backtick ['\x60'] = part.name.val ++ (part.tail ++ (later.flatMap
          ('.' :: ·.text) ++ (optional extension.nullable ['?'] ++ '.' :: rest))) := by
        simpa [TypePart.text] using same
      exact absurd behind (optional_backtick_ne part.name.property)

/-- Behind the first name and its arguments neither an identifier goes on nor a bracket opens. -/
theorem head_further (extension : Extension) (rest : Text) :
    (extension.further ++ '.' :: rest).head?.any Identifier.isPart = false ∧
      (extension.further ++ '.' :: rest).head? ≠ some '<' := by
  have dot := isPart_eq_false_of_mark (c := '.') (by decide)
  rw [further]
  cases extension.others with
  | cons part later => exact ⟨dot, by simp⟩
  | nil =>
    cases extension.nullable with
    | true => exact ⟨isPart_eq_false_of_mark (c := '?') (by decide), by simp⟩
    | false => exact ⟨dot, by simp⟩

/-- A receiver that the reader passes on its way to the name is a single name without nested
brackets. -/
theorem flat_receiver {receiver : Option Receiver} {backtick : Bool} {rest : Text}
    (same : passed receiver backtick = extension.receiver ++ '.' :: rest) :
    (∀ written ∈ extension.first.arguments, written.Flat) ∧ extension.others = [] := by
  simp only [Extension.receiver, TypePart.text, List.append_assoc] at same
  cases receiver with
  | none => exact absurd same (optional_backtick_ne extension.first.name.property)
  | some receiver =>
    obtain ⟨whole, unopened⟩ := extension.head_further rest
    have written : passed (some receiver) backtick =
        receiver.type.val ++ (receiver.tail ++ optional backtick ['\x60']) := by
      simp [passed, Receiver.text]
    have typed : Gives identifier (passed (some receiver) backtick) receiver.type.val
        (receiver.tail ++ optional backtick ['\x60']) :=
      gives_identifier_iff.mpr ⟨written, receiver.type.property, receiver.tail_whole _⟩
    have typed' : Gives identifier (passed (some receiver) backtick) extension.first.name.val
        (extension.first.tail ++ (extension.further ++ '.' :: rest)) :=
      gives_identifier_iff.mpr ⟨same, extension.first.name.property,
        extension.first.tail_whole whole⟩
    have tails : receiver.arguments.text ++
        (optional receiver.nullable ['?'] ++ '.' :: optional backtick ['\x60']) =
          extension.first.tail ++ (extension.further ++ '.' :: rest) := by
      rw [← (typed.unique typed').2]
      simp [Receiver.tail]
    obtain ⟨flat, behind⟩ := TypePart.flat_tail unopened tails
    exact ⟨flat, others_eq_nil behind⟩

/-- Where the reader looks for the name behind the receiver's dot, the header is flat. -/
theorem flat_of_lead {designation : Designation} {rest : Text}
    (same : designation.lead = extension.types ++ '.' :: rest) : extension.Flat := by
  rw [Designation.lead, types, List.append_assoc] at same
  obtain ⟨parameters, sameReceiver⟩ := flat_parameters same
  obtain ⟨arguments, single⟩ := flat_receiver sameReceiver
  exact ⟨parameters, arguments, single⟩

/-- What is declared by a header that is not flat is a name within the types. -/
theorem standsIn_types {designation : Designation} (same : extension.tail = designation.text)
    (nested : ¬ extension.Flat) : designation.name.val.StandsIn extension.types := by
  rw [tail, designation.text_eq] at same
  have undotted : '.' ∉ designation.name.val :=
    not_mem_of_isIdentifier designation.name.property (isPart_eq_false_of_mark (by decide))
  -- A name holds no dot, so it lies in front of the last one or begins behind it.
  rcases Text.ends_before_mark_or undotted same.symm with ⟨more, within, stop⟩ | ⟨more, passed⟩
  · refine ⟨designation.lead, more, by rw [within, List.append_assoc],
      designation.endsOutside_lead, ?_⟩
    have whole := designation.whole
    rw [stop] at whole
    cases more with
    | nil => rfl
    | cons c more => exact whole
  · exact absurd (flat_of_lead passed) nested

end Extension

/-- A flat header of an extension function declares the function under its own name. Of any other
such header it is at most a name within the types in front that is declared as a function. -/
theorem read_extension (extension : Extension) :
    (extension.Flat → ofLine? extension.text = some ⟨extension.name, .function⟩) ∧
      (¬ extension.Flat → ∀ header, ofLine? extension.text = some header →
        header.kind = .function ∧ header.name.StandsIn extension.types) := by
  rw [extension.ofLine?_text]
  constructor
  · intro flat
    obtain ⟨designation, written, named⟩ := flat.exists_designation
    rw [written, designation.declaredName_text, named]
    rfl
  · intro nested header read
    obtain ⟨name, declared, rfl⟩ := Option.map_eq_some_iff.mp read
    obtain ⟨designation, written, rfl⟩ := declaredName_eq_some_iff.mp declared
    exact ⟨rfl, Extension.standsIn_types written nested⟩

namespace Extension

/-- A header with no modifiers and no type parameters, which goes on with an empty list. -/
def plain (first : TypePart) (others : List TypePart) (name : BareName) : Extension :=
  ⟨[], ⟨" ", by decide, List.all_eq_true.mp rfl⟩, none, first, others, false, name, ")"⟩

/-- The header `fun List<Int>.total()`. -/
def ofInts : Extension :=
  plain ⟨⟨"List", by decide +kernel⟩, some ⟨"Int", .of_plain (by decide) (by decide)⟩⟩ []
    ⟨"total", by decide +kernel⟩

/-- The header `fun Map.Entry<K, V>.swap()`. -/
def qualified : Extension :=
  plain ⟨⟨"Map", by decide +kernel⟩, none⟩
    [⟨⟨"Entry", by decide +kernel⟩, some ⟨"K, V", .of_plain (by decide) (by decide)⟩⟩]
    ⟨"swap", by decide +kernel⟩

/-- The header `fun List<List<Int>>.flat()`. -/
def nested : Extension :=
  plain ⟨⟨"List", by decide +kernel⟩, some ⟨"List<Int>",
    .append (.of_plain (by decide) (by decide) : Text.Balanced "List")
      (.bracket (.of_plain (by decide) (by decide) : Text.Balanced "Int") .nil)⟩⟩ []
    ⟨"flat", by decide +kernel⟩

/-- The header `fun <T : Comparable<T>> List<T>.top()`. -/
def bounded : Extension where
  __ := plain ⟨⟨"List", by decide +kernel⟩, some ⟨"T", .of_plain (by decide) (by decide)⟩⟩ []
    ⟨"top", by decide +kernel⟩
  parameters := some (⟨"T : Comparable<T>",
    .append (.of_plain (by decide) (by decide) : Text.Balanced "T : Comparable")
      (.bracket (.of_plain (by decide) (by decide) : Text.Balanced "T") .nil)⟩, .ofText " " rfl)

end Extension

theorem read_extension_total :
    Extension.ofInts.Flat ∧ ofLine? "fun List<Int>.total()" = some ⟨"total", .function⟩ ∧
      ¬ Extension.qualified.Flat ∧ ∀ header, ofLine? "fun Map.Entry<K, V>.swap()" = some header →
        header.kind = .function ∧ header.name.StandsIn "Map.Entry<K, V>" := by
  have flat : Extension.ofInts.Flat := by
    refine ⟨nofun, ?_, rfl⟩
    rintro _ ⟨⟩
    exact (by decide : '<' ∉ ("Int" : Text))
  have nested : ¬ Extension.qualified.Flat := fun flat => List.cons_ne_nil _ _ flat.single
  exact ⟨flat, (read_extension .ofInts).1 flat, nested, (read_extension .qualified).2 nested⟩

/-- A type of the receiver is declared in place of the function, or nothing is. -/
theorem receiver_taken_for_name :
    Extension.qualified.text = "fun Map.Entry<K, V>.swap()" ∧
      ofLine? Extension.qualified.text = some ⟨"Entry", .function⟩ ∧
      Extension.nested.text = "fun List<List<Int>>.flat()" ∧
      ofLine? Extension.nested.text = some ⟨"List", .function⟩ ∧
      Extension.bounded.text = "fun <T : Comparable<T>> List<T>.top()" ∧
      ofLine? Extension.bounded.text = none := by
  decide +kernel

end TreeMigration.Header
