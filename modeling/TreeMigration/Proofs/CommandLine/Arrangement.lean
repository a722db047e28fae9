import TreeMigration.Proofs.CommandLine.Flags
import Mathlib.Data.List.Nodup

/-!
Arrangements of arguments. An invocation can be asked for by its options in any order, in front of a
separator or between its positional arguments, and by each extension in one argument or in two. Each
item of a command line is entered in its turn, and what the whole amounts to depends on nothing but
which options were entered and the order of the positional arguments.

`Item` is a command line with its structure: a choice in one argument, an extension in an argument
of its own, or a positional argument. `Reached.holding` says what has been read after some choices
and positionals; `readOn_item` is the step over one item and `readOn_items` the run over a list of
them, by induction on the list. An extension in two arguments leaves its option waiting, so it is
not entered at once; `readOn_apart` shows that this cannot be told apart from entering it.

What is read at the end is the invocation of its own choices (`finish_holding`), whatever their
order, because an option is used at most once (`options_nodup`).
-/
namespace TreeMigration.CommandLine

def ExtensionOption.name : ExtensionOption → Text
  | .source => "source-ext"
  | .target => "target-ext"

def ExtensionOption.text (which : ExtensionOption) : Text := '-' :: '-' :: which.name

theorem lookup_extensionName (which : ExtensionOption) :
    longOptions.lookup which.name = some (.extension which) := by
  cases which <;> rfl

inductive Choice where
  | extension (which : ExtensionOption) (value : Text)
  | flag (which : Flag)
  deriving DecidableEq, Repr

namespace Choice

def text : Choice → Text
  | .extension which value => which.text ++ '=' :: value
  | .flag which => which.text

def option : Choice → LongOption
  | .extension which _ => .extension which
  | .flag which => .flag which

def extension? : Choice → Option (ExtensionOption × Text)
  | .extension which value => some (which, value)
  | .flag _ => none

def flag? : Choice → Option Flag
  | .extension _ _ => none
  | .flag which => some which

end Choice

/-- An item of a command line: a choice in one argument, an extension in an argument behind its
option, which no hyphen may begin, or a positional argument. -/
inductive Item where
  | joined (choice : Choice)
  | apart (which : ExtensionOption) (value : Text) (plain : value.head? ≠ some '-')
  | positional (t : Text)

namespace Item

def arguments : Item → List Text
  | .joined choice => [choice.text]
  | .apart which value _ => [which.text, value]
  | .positional t => [t]

/-- The choice that the item makes, if it makes one. -/
def choices : Item → List Choice
  | .joined choice => [choice]
  | .apart which value _ => [.extension which value]
  | .positional _ => []

def positionals : Item → List Text
  | .joined _ => []
  | .apart _ _ _ => []
  | .positional t => [t]

end Item

namespace Argument

theorem ofText_extension (which : ExtensionOption) : ofText which.text = .long which.name none := by
  cases which <;> rfl

theorem ofText_joined (which : ExtensionOption) (value : Text) :
    ofText (which.text ++ '=' :: value) = .long which.name (some value) := by
  cases which <;> rfl

theorem ofText_of_plain {t : Text} (plain : t.head? ≠ some '-') : ofText t = .plain t := by
  unfold ofText
  split
  · exact absurd rfl plain
  · exact absurd rfl plain
  · exact absurd rfl plain
  · rfl

end Argument

namespace Reached

/-! ## What has been read -/

/-- What has been read where some choices were made, in this order, and some positional arguments
given. -/
def holding (choices : List Choice) (positionals : List Text) (separated : Bool) : Reached where
  positionals := positionals
  extensions := (choices.filterMap Choice.extension?).reverse
  flags := (choices.filterMap Choice.flag?).reverse
  waiting := none
  separated := separated

variable {choices : List Choice} {positionals : List Text} {separated : Bool}

theorem settle_holding :
    (holding choices positionals separated).settle = .ok (holding choices positionals separated) :=
  rfl

theorem mem_flags_holding {flag : Flag} :
    flag ∈ (holding choices positionals separated).flags ↔ .flag flag ∈ choices := by
  simp only [holding, List.mem_reverse, List.mem_filterMap]
  constructor
  · rintro ⟨choice, made, same⟩
    cases choice with
    | extension => cases same
    | flag which =>
      cases same
      exact made
  · intro made
    exact ⟨_, made, rfl⟩

/-- An extension has no value while its option was not used. -/
theorem lookup_holding_eq_none {which : ExtensionOption}
    (fresh : LongOption.extension which ∉ choices.map Choice.option) :
    (holding choices positionals separated).extensions.lookup which = none := by
  rw [List.lookup_eq_none_iff]
  rintro ⟨other, value⟩ entered
  rw [bne_iff_ne]
  rintro rfl
  obtain ⟨choice, made, same⟩ := List.mem_filterMap.mp (List.mem_reverse.mp entered)
  cases choice with
  | extension =>
    cases same
    exact fresh (List.mem_map.mpr ⟨_, made, rfl⟩)
  | flag => cases same

/-- An extension has the value chosen for it where no option was used twice. -/
theorem lookup_holding {which : ExtensionOption} {value : Text}
    (once : (choices.map Choice.option).Nodup) (made : .extension which value ∈ choices) :
    (holding choices positionals separated).extensions.lookup which = some value := by
  obtain ⟨before, after, rfl⟩ := List.append_of_mem made
  have fresh : LongOption.extension which ∉ after.map Choice.option := by
    rw [List.map_append, List.map_cons] at once
    exact (List.nodup_cons.mp once.of_append_right).1
  have split : (holding (before ++ .extension which value :: after) positionals
      separated).extensions = (holding after positionals separated).extensions ++
        (which, value) :: (holding before positionals separated).extensions := by
    simp [holding, Choice.extension?]
  rw [split, List.lookup_append, lookup_holding_eq_none fresh, Option.none_or,
    List.lookup_cons_self]

/-! ## Entering one item -/

theorem take_of_long {reached : Reached} {t name : Text} {value : Option Text}
    (unseparated : reached.separated = false) (long : Argument.ofText t = .long name value) :
    reached.take t = reached.takeLong name value := by
  rw [take, if_neg (by simp [unseparated]), long]

theorem take_of_plain {reached : Reached} {t : Text} (unseparated : reached.separated = false)
    (plain : t.head? ≠ some '-') : reached.take t = reached.takePlain t := by
  rw [take, if_neg (by simp [unseparated]), Argument.ofText_of_plain plain]

theorem takePositional_holding {t : Text} (few : (positionals ++ [t]).length ≤ 5) :
    (holding choices positionals separated).takePositional t =
      .ok (holding choices (positionals ++ [t]) separated) := by
  rw [List.length_append, List.length_singleton] at few
  exact if_neg (Nat.not_le.mpr few)

theorem setExtension_holding {which : ExtensionOption} {value : Text}
    (fresh : LongOption.extension which ∉ choices.map Choice.option) :
    (holding choices positionals separated).setExtension which value =
      .ok (holding (choices ++ [.extension which value]) positionals separated) := by
  rw [setExtension, lookup_holding_eq_none fresh]
  simp [holding, Choice.extension?, Choice.flag?]

/-- A choice in one argument is entered behind the others if its option is not among theirs. -/
theorem take_joined {choice : Choice} (fresh : choice.option ∉ choices.map Choice.option) :
    (holding choices positionals false).take choice.text =
      .ok (holding (choices ++ [choice]) positionals false) := by
  cases choice with
  | extension which value =>
    rw [Choice.text, take_of_long rfl (Argument.ofText_joined which value)]
    simp only [takeLong, lookup_extensionName, settle_holding]
    exact setExtension_holding fresh
  | flag flag =>
    have absent : flag ∉ (holding choices positionals false).flags := by
      intro entered
      exact fresh (List.mem_map.mpr ⟨_, mem_flags_holding.mp entered, rfl⟩)
    rw [Choice.text, take_flag rfl, settle_holding]
    simp only [Except.bind, List.contains_iff_mem, absent, if_false]
    simp [holding, Choice.extension?, Choice.flag?]

/-- An extension in two arguments is entered as it is in one: its option waits for the second, and
whether it is settled then or by what comes later makes no difference. -/
theorem readOn_apart {which : ExtensionOption} {value : Text} (plain : value.head? ≠ some '-')
    (fresh : LongOption.extension which ∉ choices.map Choice.option) (later : List Text) :
    (holding choices positionals false).readOn (which.text :: value :: later) =
      (holding (choices ++ [.extension which value]) positionals false).readOn later := by
  have opens : (holding choices positionals false).take which.text =
      .ok { holding choices positionals false with waiting := some (which, none) } := by
    rw [take_of_long rfl (Argument.ofText_extension which)]
    simp only [takeLong, lookup_extensionName, settle_holding]
    rfl
  have filled : { holding choices positionals false with
      waiting := some (which, none) }.take value =
        .ok { holding choices positionals false with waiting := some (which, some value) } :=
    take_of_plain rfl plain
  have settled : { holding choices positionals false with
      waiting := some (which, some value) }.settle =
        .ok (holding (choices ++ [.extension which value]) positionals false) :=
    setExtension_holding fresh
  rw [readOn_cons, opens, Except.bind, readOn_cons, filled, Except.bind]
  exact readOn_of_settled settled later

/-- Every item is entered behind those before it. -/
theorem readOn_item (item : Item)
    (once : ((choices ++ item.choices).map Choice.option).Nodup)
    (few : (positionals ++ item.positionals).length ≤ 5)
    (plain : ∀ t ∈ item.positionals, t.head? ≠ some '-') (later : List Text) :
    (holding choices positionals false).readOn (item.arguments ++ later) =
      (holding (choices ++ item.choices) (positionals ++ item.positionals) false).readOn later := by
  have fresh : ∀ choice, item.choices = [choice] →
      choice.option ∉ choices.map Choice.option := by
    intro choice made member
    rw [made, List.map_append] at once
    exact List.disjoint_of_nodup_append once member (List.mem_singleton.mpr rfl)
  cases item with
  | joined choice =>
    change readOn _ (choice.text :: later) = _
    rw [readOn_cons, take_joined (fresh choice rfl), Item.positionals, List.append_nil]
    rfl
  | apart which value noHyphen =>
    rw [Item.positionals, List.append_nil]
    exact readOn_apart noHyphen (fresh _ rfl) later
  | positional t =>
    have taken : (holding choices positionals false).take t =
        .ok (holding choices (positionals ++ [t]) false) :=
      (take_of_plain rfl (plain t (List.mem_singleton.mpr rfl))).trans (takePositional_holding few)
    change readOn _ (t :: later) = _
    rw [readOn_cons, taken, Item.choices, List.append_nil]
    rfl

/-! ## Entering many -/

/-- Items are entered one behind the other. -/
theorem readOn_items {items : List Item}
    (once : ((choices ++ items.flatMap Item.choices).map Choice.option).Nodup)
    (few : (positionals ++ items.flatMap Item.positionals).length ≤ 5)
    (plain : ∀ t ∈ items.flatMap Item.positionals, t.head? ≠ some '-') (later : List Text) :
    (holding choices positionals false).readOn (items.flatMap Item.arguments ++ later) =
      (holding (choices ++ items.flatMap Item.choices)
        (positionals ++ items.flatMap Item.positionals) false).readOn later := by
  -- what was entered before the items grows with each of them
  induction items generalizing choices positionals with
  | nil => simp
  | cons item items ih =>
    simp only [List.flatMap_cons, ← List.append_assoc] at once few
    rw [List.flatMap_cons, List.forall_mem_append] at plain
    have onceHere : ((choices ++ item.choices).map Choice.option).Nodup := by
      rw [List.map_append] at once
      exact once.of_append_left
    have fewHere : (positionals ++ item.positionals).length ≤ 5 :=
      Nat.le_trans (List.prefix_append _ _).length_le few
    rw [List.flatMap_cons, List.append_assoc, readOn_item item onceHere fewHere plain.1,
      ih once few plain.2]
    simp only [List.flatMap_cons, List.append_assoc]

theorem readOn_start {items : List Item}
    (once : ((items.flatMap Item.choices).map Choice.option).Nodup)
    (few : (items.flatMap Item.positionals).length ≤ 5)
    (plain : ∀ t ∈ items.flatMap Item.positionals, t.head? ≠ some '-') (later : List Text) :
    start.readOn (items.flatMap Item.arguments ++ later) =
      (holding (items.flatMap Item.choices) (items.flatMap Item.positionals) false).readOn later :=
  @readOn_items [] [] items once few plain later

/-- Choices in one argument each are entered in their order. -/
theorem readOn_joined {choices : List Choice} (once : (choices.map Choice.option).Nodup)
    (later : List Text) :
    start.readOn (choices.map Choice.text ++ later) = (holding choices [] false).readOn later := by
  have texts : (choices.map Item.joined).flatMap Item.arguments = choices.map Choice.text := by
    rw [List.flatMap_map]
    exact List.map_eq_flatMap.symm
  have made : (choices.map Item.joined).flatMap Item.choices = choices := by
    simp [List.flatMap_map, Item.choices]
  have noPositional : (choices.map Item.joined).flatMap Item.positionals = [] := by
    simp [List.flatMap_map, Item.positionals]
  have entered := readOn_start (by rwa [made]) (by simp [noPositional]) (by simp [noPositional]) later
  rwa [texts, made, noPositional] at entered

/-- Behind a separator every argument is a positional one. -/
theorem readOn_separated {further : List Text} (few : (positionals ++ further).length ≤ 5) :
    (holding choices positionals true).readOn further =
      (holding choices (positionals ++ further) true).finish := by
  induction further generalizing positionals with
  | nil =>
    rw [List.append_nil]
    rfl
  | cons t further ih =>
    rw [List.append_cons positionals] at few
    have fewHere : (positionals ++ [t]).length ≤ 5 :=
      Nat.le_trans (List.prefix_append _ _).length_le few
    have taken : (holding choices positionals true).take t =
        .ok (holding choices (positionals ++ [t]) true) :=
      takePositional_holding fewHere
    rw [readOn_cons, taken, Except.bind, ih few, ← List.append_cons]

end Reached

/-! ## What an invocation consists of -/

def Flag.all : List Flag := [.declarationAware, .denyMismatches, .json, .debug]

theorem Flag.mem_all (flag : Flag) : flag ∈ all := by
  cases flag <;> decide

namespace Invocation

def positionals (invocation : Invocation) : List Text :=
  [invocation.settings.sourceRoot.text, invocation.settings.sourceList.text,
    invocation.settings.destinationRoot.text, invocation.settings.ruleFile.text] ++
    (invocation.settings.referenceRoot.map Path.text).toList

def choices (invocation : Invocation) : List Choice :=
  .extension .source invocation.settings.sourceExtension ::
    .extension .target invocation.settings.targetExtension ::
      (Flag.all.filter invocation.hasFlag).map Choice.flag

variable (invocation : Invocation)

theorem length_positionals_le : invocation.positionals.length ≤ 5 := by
  unfold positionals
  cases invocation.settings.referenceRoot with
  | none => simp
  | some root => simp

/-- No option is used twice for the choices of an invocation, in whatever order they are made. -/
theorem options_nodup {choices : List Choice} (chosen : choices.Perm invocation.choices) :
    (choices.map Choice.option).Nodup := by
  have all : (LongOption.extension .source :: .extension .target ::
      Flag.all.map LongOption.flag).Nodup := by decide
  refine (chosen.map _).nodup_iff.mpr (List.Nodup.sublist ?_ all)
  simp only [Invocation.choices, List.map_cons, List.map_map]
  exact ((List.filter_sublist.map _).cons_cons _).cons_cons _

theorem flag_mem_choices {flag : Flag} :
    .flag flag ∈ invocation.choices ↔ invocation.hasFlag flag = true := by
  simp [choices, Flag.mem_all]

end Invocation

namespace Reached

/-- Choices in any order amount to the invocation that they are the choices of. -/
theorem finish_holding {invocation : Invocation} {choices : List Choice}
    (chosen : choices.Perm invocation.choices) (separated : Bool) :
    (holding choices invocation.positionals separated).finish = .ok invocation := by
  have once := invocation.options_nodup chosen
  have source : (holding choices invocation.positionals separated).extensions.lookup .source =
      some invocation.settings.sourceExtension :=
    lookup_holding once (chosen.mem_iff.mpr (by simp [Invocation.choices]))
  have target : (holding choices invocation.positionals separated).extensions.lookup .target =
      some invocation.settings.targetExtension :=
    lookup_holding once (chosen.mem_iff.mpr (by simp [Invocation.choices]))
  have flags : ∀ flag, (holding choices invocation.positionals separated).flags.contains flag =
      invocation.hasFlag flag := by
    intro flag
    rw [Bool.eq_iff_iff, List.contains_iff_mem, mem_flags_holding, chosen.mem_iff,
      Invocation.flag_mem_choices]
  rw [finish, settle_holding]
  simp only [bind, Except.bind, source, target, flags]
  obtain ⟨⟨_, _, _, _, referenceRoot, _, _, _⟩, _, _, _⟩ := invocation
  -- four positional arguments without a reference tree, five with one
  cases referenceRoot with
  | none => rfl
  | some root => rfl

end Reached

/-- An invocation is read back from its choices in any order, each in one argument, with its
positional arguments behind a separator, whatever these begin with. If none of these begins with a
hyphen, it is read back from every arrangement of its choices, in any order and spelled either way,
among its positional arguments. -/
theorem Invocation.ofArguments_arranged (invocation : Invocation) :
    (∀ choices : List Choice, choices.Perm invocation.choices →
      ofArguments (choices.map Choice.text ++ ("--" : Text) :: invocation.positionals) =
        .ok invocation) ∧
    ((∀ t ∈ invocation.positionals, t.head? ≠ some '-') →
      ∀ items : List Item, (items.flatMap Item.choices).Perm invocation.choices →
        items.flatMap Item.positionals = invocation.positionals →
        ofArguments (items.flatMap Item.arguments) = .ok invocation) := by
  constructor
  · intro choices chosen
    have once := invocation.options_nodup chosen
    calc ofArguments (choices.map Choice.text ++ ("--" : Text) :: invocation.positionals)
        = (Reached.holding choices [] false).readOn (("--" : Text) :: invocation.positionals) :=
          Reached.readOn_joined once _
      _ = (Reached.holding choices [] true).readOn invocation.positionals := rfl
      _ = (Reached.holding choices invocation.positionals true).finish :=
          Reached.readOn_separated invocation.length_positionals_le
      _ = .ok invocation := Reached.finish_holding chosen true
  · intro plain items chosen inOrder
    have few : (items.flatMap Item.positionals).length ≤ 5 :=
      inOrder ▸ invocation.length_positionals_le
    have entered := Reached.readOn_start (invocation.options_nodup chosen) few (inOrder ▸ plain) []
    rw [List.append_nil, inOrder] at entered
    calc ofArguments (items.flatMap Item.arguments)
        = (Reached.holding (items.flatMap Item.choices) invocation.positionals false).finish :=
          entered
      _ = .ok invocation := Reached.finish_holding chosen false

theorem Invocation.ofArguments_arranged_mixed :
    ofArguments ["--json", "--target-ext=", "--source-ext=--a=b", "--", "--debug", "", "-", "--"] =
      .ok ⟨⟨⟨"--debug"⟩, ⟨""⟩, ⟨"-"⟩, ⟨"--"⟩, none, "--a=b", "", false⟩, false, true, false⟩ ∧
    ofArguments ["in", "--target-ext", "", "--debug", "list", "=", "--source-ext=-", "rules",
        "--declaration-aware", ""] =
      .ok ⟨⟨⟨"in"⟩, ⟨"list"⟩, ⟨"="⟩, ⟨"rules"⟩, some ⟨""⟩, "-", "", true⟩, false, false, true⟩ :=
  ⟨(ofArguments_arranged
      ⟨⟨⟨"--debug"⟩, ⟨""⟩, ⟨"-"⟩, ⟨"--"⟩, none, "--a=b", "", false⟩, false, true, false⟩).1
      [.flag .json, .extension .target "", .extension .source "--a=b"] (by decide),
    (ofArguments_arranged
      ⟨⟨⟨"in"⟩, ⟨"list"⟩, ⟨"="⟩, ⟨"rules"⟩, some ⟨""⟩, "-", "", true⟩, false, false, true⟩).2
      (by decide)
      [.positional "in", .apart .target "" (by decide), .joined (.flag .debug), .positional "list",
        .positional "=", .joined (.extension .source "-"), .positional "rules",
        .joined (.flag .declarationAware), .positional ""] (by decide) (by decide)⟩

end TreeMigration.CommandLine
