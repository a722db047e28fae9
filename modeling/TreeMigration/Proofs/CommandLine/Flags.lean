import TreeMigration.CommandLine.Arguments
import TreeMigration.Proofs.Outcome

/-!
Flags among arguments. A flag is set exactly if it is given before any separator, and arguments that
are accepted with a flag are accepted without it and ask for the same but for that flag: the
readings with it and without differ in the flag alone, once the option that waited before it is
settled.

The first half follows the reading forward. `take_flags` says which flags one argument enters, and
`foldlM_take_flags` is the run over all of them.

The second half compares two readings of the rest of the arguments, from a state and from the same
state `without` the flag. Every way of taking an argument has its lemma, and `readOn_without` is the
induction over what is left; it holds as long as the flag is not given once more, which would be a
conflict. The one complication is an option that waits: the flag settles it, while without the flag
it goes on waiting. `readOn_of_settled` says that the rest is read in the same way either way, if
the option has its value.
-/
namespace TreeMigration.CommandLine

def Flag.text : Flag → Text
  | .declarationAware => "--declaration-aware"
  | .denyMismatches => "--deny-mismatches"
  | .json => "--json"
  | .debug => "--debug"

/-- A flag is given by some arguments. Behind a separator no argument is a flag. -/
def Flag.IsGiven (flag : Flag) (arguments : List Text) : Prop :=
  flag.text ∈ arguments.takeWhile (· != ("--" : Text))

instance (flag : Flag) (arguments : List Text) : Decidable (flag.IsGiven arguments) :=
  inferInstanceAs (Decidable (_ ∈ _))

theorem Flag.text_ne_separator (flag : Flag) : flag.text ≠ "--" := by
  cases flag <;> decide +kernel

theorem Flag.isGiven_cons {flag : Flag} {t : Text} {later : List Text} :
    flag.IsGiven (t :: later) ↔ t = flag.text ∨ (t ≠ "--" ∧ flag.IsGiven later) := by
  rw [IsGiven, List.takeWhile_cons]
  by_cases mark : t = "--"
  · subst mark
    simp only [bne_self_eq_false, Bool.false_eq_true, if_false, List.not_mem_nil, ne_eq,
      not_true_eq_false, false_and, or_false, false_iff]
    exact fun same => flag.text_ne_separator same.symm
  · rw [if_pos (bne_iff_ne.mpr mark), List.mem_cons]
    exact or_congr eq_comm (and_iff_right mark).symm

namespace Argument

theorem ofText_eq_separator_iff {t : Text} : ofText t = .separator ↔ t = "--" := by
  constructor
  · intro same
    unfold ofText at same
    split at same
    · rfl
    · split at same <;> cases same
    · cases same
    · cases same
  · rintro rfl
    rfl

theorem eq_of_ofText_long {t name : Text} (same : ofText t = .long name none) :
    t = '-' :: '-' :: name := by
  unfold ofText at same
  split at same
  · cases same
  · split at same <;> cases same
    rfl
  · cases same
  · cases same

/-- The flag that an argument is. -/
def flag? : Argument → Option Flag
  | .long name none =>
    match longOptions.lookup name with
    | some (.flag which) => some which
    | _ => none
  | _ => none

/-- An argument is a flag exactly if it is the text of the flag. -/
theorem flag?_ofText_eq_some_iff {t : Text} {flag : Flag} :
    (ofText t).flag? = some flag ↔ t = flag.text := by
  constructor
  · intro isFlag
    unfold flag? at isFlag
    split at isFlag
    · rename_i name same
      split at isFlag
      · rename_i which found
        cases isFlag
        obtain ⟨front, back, whole, -⟩ := List.lookup_eq_some_iff.mp found
        have named : ∀ entry ∈ longOptions, entry.2 = .flag flag →
            '-' :: '-' :: entry.1 = flag.text := by
          cases flag <;> decide +kernel
        rw [← named (name, .flag flag) (by simp [whole]) rfl]
        exact eq_of_ofText_long same
      · cases isFlag
    · cases isFlag
  · rintro rfl
    cases flag <;> rfl

end Argument

namespace Reached

variable {reached next : Reached}

/-- What has been read, had a flag not been given. -/
def without (reached : Reached) (flag : Flag) : Reached :=
  { reached with flags := reached.flags.filter (· != flag) }

/-- Settling changes neither the flags nor whether a separator has come, and is done once. -/
theorem settle_eq_ok (settled : reached.settle = .ok next) :
    next.flags = reached.flags ∧ next.separated = reached.separated ∧
      next.positionals = reached.positionals ∧ next.waiting = none := by
  unfold settle at settled
  split at settled
  · cases settled
    exact ⟨rfl, rfl, rfl, ‹_›⟩
  · cases settled
  · unfold setExtension at settled
    split at settled
    · cases settled
    · cases settled
      exact ⟨rfl, rfl, rfl, rfl⟩

theorem settle_eq_error {refusal : Refusal} (failed : reached.settle = .error refusal) :
    refusal = .missingValue ∨ refusal = .conflict := by
  unfold settle at failed
  split at failed
  · cases failed
  · cases failed
    exact .inl rfl
  · unfold setExtension at failed
    split at failed
    · cases failed
      exact .inr rfl
    · cases failed

theorem setExtension_flags {which : ExtensionOption} {value : Text}
    (given : reached.setExtension which value = .ok next) :
    next.flags = reached.flags ∧ next.separated = reached.separated := by
  unfold setExtension at given
  split at given
  · cases given
  · cases given
    exact ⟨rfl, rfl⟩

theorem takePositional_flags {t : Text} (taken : reached.takePositional t = .ok next) :
    next.flags = reached.flags ∧ next.separated = reached.separated := by
  unfold takePositional at taken
  split at taken
  · cases taken
  · obtain ⟨settled, same, taken⟩ := bind_eq_ok.mp taken
    cases taken
    exact ⟨(settle_eq_ok same).1, (settle_eq_ok same).2.1⟩

/-- A long option enters the flag that it is and no other. -/
theorem takeLong_flags {name : Text} {value : Option Text}
    (taken : reached.takeLong name value = .ok next) :
    next.flags = (Argument.long name value).flag?.toList ++ reached.flags ∧
      next.separated = reached.separated := by
  unfold takeLong at taken
  split at taken
  · cases taken
  · rename_i found
    obtain ⟨settled, same, taken⟩ := bind_eq_ok.mp taken
    cases taken
    simp [Argument.flag?, found, settle_eq_ok same]
  · obtain ⟨settled, same, taken⟩ := bind_eq_ok.mp taken
    simp [Argument.flag?, setExtension_flags taken, settle_eq_ok same]
  · cases taken
  · rename_i flag found
    obtain ⟨settled, same, taken⟩ := bind_eq_ok.mp taken
    split at taken
    · cases taken
    · cases taken
      simp [Argument.flag?, found, settle_eq_ok same]
  · obtain ⟨settled, -, taken⟩ := bind_eq_ok.mp taken
    cases taken

theorem takeShort_ne_ok {first : Char} : reached.takeShort first ≠ .ok next := by
  unfold takeShort
  split
  · cases reached.settle <;> simp [Except.bind]
  · split
    · cases reached.settle <;> simp [Except.bind]
    · simp

/-- Taking an argument enters the flag that it is, if no separator has come. -/
theorem take_flags {t : Text} (taken : reached.take t = .ok next) :
    next.flags =
        (if reached.separated then [] else (Argument.ofText t).flag?.toList) ++ reached.flags ∧
      next.separated = (reached.separated || decide (t = ("--" : Text))) := by
  unfold take at taken
  split at taken
  · rename_i separated
    simp [takePositional_flags taken, separated]
  · rename_i unseparated
    simp only [unseparated, Bool.false_or, ← Argument.ofText_eq_separator_iff]
    split at taken
    · rename_i same
      cases taken
      simp [same, Argument.flag?]
    · rename_i name value same
      simp [same, takeLong_flags taken, unseparated]
    · exact absurd taken takeShort_ne_ok
    · rename_i plain same
      unfold takePlain at taken
      split at taken
      · cases taken
        simp [same, Argument.flag?, unseparated]
      · simp [same, Argument.flag?, takePositional_flags taken, unseparated]

/-- Of the flags that arguments give, those before any separator are entered. -/
theorem foldlM_take_flags {arguments : List Text}
    (read : arguments.foldlM take reached = .ok next) (flag : Flag) :
    flag ∈ next.flags ↔
      flag ∈ reached.flags ∨ (reached.separated = false ∧ flag.IsGiven arguments) := by
  induction arguments generalizing reached with
  | nil =>
    cases read
    simp [Flag.IsGiven]
  | cons t later ih =>
    obtain ⟨between, taken, read⟩ := bind_eq_ok.mp read
    obtain ⟨flags, separated⟩ := take_flags taken
    have isFlag : flag ∈ (Argument.ofText t).flag?.toList ↔ t = flag.text := by
      rw [Option.mem_toList, Argument.flag?_ofText_eq_some_iff]
    rw [ih read, flags, separated, List.mem_append, Flag.isGiven_cons]
    cases reached.separated with
    | true => simp
    | false =>
      simp only [Bool.false_eq_true, if_false, isFlag, Bool.false_or, decide_eq_false_iff_not,
        true_and]
      exact (or_congr_left or_comm).trans or_assoc

/-- Arguments without a separator leave it open whether the next is an option. -/
theorem foldlM_take_separated {arguments : List Text}
    (read : arguments.foldlM take reached = .ok next) (noMark : ("--" : Text) ∉ arguments) :
    next.separated = reached.separated := by
  induction arguments generalizing reached with
  | nil =>
    cases read
    rfl
  | cons t later ih =>
    obtain ⟨between, taken, read⟩ := bind_eq_ok.mp read
    rw [List.mem_cons, not_or] at noMark
    rw [ih read noMark.2, (take_flags taken).2, decide_eq_false (Ne.symm noMark.1),
      Bool.or_false]

end Reached

def Invocation.hasFlag (invocation : Invocation) : Flag → Bool
  | .declarationAware => invocation.settings.declarationAware
  | .denyMismatches => invocation.denyMismatches
  | .json => invocation.json
  | .debug => invocation.debug

def Invocation.without (invocation : Invocation) : Flag → Invocation
  | .declarationAware =>
    { invocation with settings := { invocation.settings with declarationAware := false } }
  | .denyMismatches => { invocation with denyMismatches := false }
  | .json => { invocation with json := false }
  | .debug => { invocation with debug := false }

namespace Reached

variable {reached next : Reached}

theorem finish_hasFlag {invocation : Invocation} (finished : reached.finish = .ok invocation)
    (flag : Flag) : invocation.hasFlag flag = true ↔ flag ∈ reached.flags := by
  obtain ⟨settled, same, finished⟩ := bind_eq_ok.mp finished
  split at finished
  · cases finished
    rw [← (settle_eq_ok same).1]
    cases flag <;> simp [Invocation.hasFlag]
  · cases finished

/-! Taking a flag back. -/

theorem setExtension_without (flag : Flag) (which : ExtensionOption) (value : Text) :
    (reached.without flag).setExtension which value =
      (reached.setExtension which value).map (without · flag) := by
  by_cases again : (reached.extensions.lookup which).isSome = true
  · simp [setExtension, without, again, Except.map]
  · simp [setExtension, without, again, Except.map]

theorem settle_without (flag : Flag) :
    (reached.without flag).settle = reached.settle.map (without · flag) := by
  cases waits : reached.waiting with
  | none => simp [settle, without, waits, Except.map]
  | some option =>
    obtain ⟨which, value⟩ := option
    cases value with
    | none => simp [settle, without, waits, Except.map]
    | some value =>
      have given := @setExtension_without { reached with waiting := none } flag which value
      simpa [settle, without, waits] using given

theorem takePositional_without (flag : Flag) (t : Text) :
    (reached.without flag).takePositional t =
      (reached.takePositional t).map (without · flag) := by
  unfold takePositional
  rw [settle_without]
  by_cases full : 5 ≤ reached.positionals.length
  · simp [without, full, Except.map]
  · cases reached.settle <;> simp [without, full, Except.map, bind, Except.bind]

theorem takePlain_without (flag : Flag) (t : Text) :
    (reached.without flag).takePlain t = (reached.takePlain t).map (without · flag) := by
  have positional := @takePositional_without reached flag t
  cases waits : reached.waiting with
  | none => simpa [takePlain, without, waits] using positional
  | some option =>
    obtain ⟨which, value⟩ := option
    cases value with
    | none => simp [takePlain, without, waits, Except.map]
    | some value => simpa [takePlain, without, waits] using positional

theorem takeShort_without (flag : Flag) (first : Char) :
    (reached.without flag).takeShort first = (reached.takeShort first).map (without · flag) := by
  unfold takeShort
  rw [settle_without]
  split
  · cases reached.settle <;> rfl
  · split
    · cases reached.settle <;> rfl
    · rfl

/-- A long option is taken in the same way without a flag that has come already. -/
theorem takeLong_without {flag : Flag} (given : flag ∈ reached.flags) {name : Text}
    {value : Option Text} (single : reached.takeLong name value ≠ .error .conflict) :
    (reached.without flag).takeLong name value =
      (reached.takeLong name value).map (without · flag) := by
  unfold takeLong at single ⊢
  rw [settle_without]
  cases settled : reached.settle with
  | error refusal => split <;> rfl
  | ok next =>
    simp only [settled, bind, Except.bind, Except.map] at single ⊢
    split
    · rfl
    · rfl
    · exact setExtension_without _ _ _
    · rfl
    · rename_i which found
      rw [found] at single
      have other : which ∉ next.flags := by
        intro again
        simp [again] at single
      have different : which ≠ flag := by
        rintro rfl
        exact other ((settle_eq_ok settled).1 ▸ given)
      simp [without, other, different]
    · rfl

/-- An argument is taken in the same way without a flag that has come already, unless it is the flag
once more. -/
theorem take_without {flag : Flag} (given : flag ∈ reached.flags) {t : Text}
    (single : reached.take t ≠ .error .conflict) :
    (reached.without flag).take t = (reached.take t).map (without · flag) := by
  unfold take at single ⊢
  by_cases separated : reached.separated = true
  · simpa [without, separated] using @takePositional_without reached flag t
  · rw [if_neg separated] at single ⊢
    rw [if_neg (show ¬ (reached.without flag).separated = true from separated)]
    split
    · rfl
    · rename_i same
      rw [same] at single
      exact takeLong_without given single
    · exact takeShort_without flag _
    · exact takePlain_without flag _

theorem finish_without (flag : Flag) :
    (reached.without flag).finish = reached.finish.map (·.without flag) := by
  unfold finish
  rw [settle_without]
  cases reached.settle with
  | error refusal => rfl
  | ok settled =>
    simp only [Except.map, bind, Except.bind, without]
    split
    · cases flag <;> simp [Invocation.without]
    · rfl

/-- What comes of reading further arguments. -/
def readOn (reached : Reached) (arguments : List Text) : Except Refusal Invocation := do
  let last ← arguments.foldlM take reached
  last.finish

theorem readOn_cons {t : Text} {later : List Text} :
    reached.readOn (t :: later) = (reached.take t).bind (readOn · later) := by
  rw [readOn, List.foldlM_cons]
  exact bind_assoc _ _ _

/-- The rest of the arguments is read in the same way without a flag that has come already, unless
they are refused for giving it again. -/
theorem readOn_without {flag : Flag} (given : flag ∈ reached.flags) {arguments : List Text}
    (single : reached.readOn arguments ≠ .error .conflict) :
    (reached.without flag).readOn arguments =
      (reached.readOn arguments).map (·.without flag) := by
  induction arguments generalizing reached with
  | nil => exact finish_without flag
  | cons t later ih =>
    rw [readOn_cons] at single ⊢
    have single' : reached.take t ≠ .error .conflict := by
      intro again
      exact single (by rw [again]; rfl)
    rw [readOn_cons, take_without given single']
    cases taken : reached.take t with
    | error refusal => rfl
    | ok between =>
      have kept : flag ∈ between.flags := by
        rw [(take_flags taken).1]
        exact List.mem_append_right _ given
      rw [taken] at single
      exact ih kept single

/-- Whether the waiting option is settled before an argument that is no separator or by it makes no
difference. -/
theorem take_of_settled (settled : reached.settle = .ok next) {t : Text}
    (acts : ¬ (reached.separated = false ∧ Argument.ofText t = .separator)) :
    reached.take t = next.take t := by
  obtain ⟨-, separated, positionals, waits⟩ := settle_eq_ok settled
  have again : next.settle = .ok next := by simp [settle, waits]
  have positional : ∀ t, reached.takePositional t = next.takePositional t := by
    intro t
    rw [takePositional, takePositional, positionals, settled, again]
  unfold take
  rw [separated]
  split
  · exact positional t
  · rename_i unseparated
    split
    · rename_i same
      exact absurd ⟨by simpa using unseparated, same⟩ acts
    · unfold takeLong
      rw [settled, again]
    · unfold takeShort
      rw [settled, again]
    · -- an option without its value could not be settled
      have noneOpen : ∀ which, reached.waiting ≠ some (which, none) := by
        intro which same
        simp [settle, same] at settled
      unfold takePlain
      rw [waits]
      split
      · exact absurd ‹_› (noneOpen _)
      · exact positional _

theorem settle_separated (settled : reached.settle = .ok next) :
    { reached with separated := true }.settle = .ok { next with separated := true } := by
  unfold settle at settled ⊢
  split at settled
  · cases settled
    simp [*]
  · cases settled
  · rename_i waits
    simp only [waits]
    unfold setExtension at settled ⊢
    split at settled
    · cases settled
    · rename_i fresh
      cases settled
      exact if_neg fresh

/-- The rest of the arguments is read in the same way whether the waiting option, which has its value,
is settled before them or by one of them. -/
theorem readOn_of_settled (settled : reached.settle = .ok next) (arguments : List Text) :
    reached.readOn arguments = next.readOn arguments := by
  induction arguments generalizing reached next with
  | nil =>
    have again : next.settle = .ok next := by simp [settle, settle_eq_ok settled]
    change reached.finish = next.finish
    rw [finish, finish, settled, again]
  | cons t later ih =>
    by_cases mark : reached.separated = false ∧ Argument.ofText t = .separator
    · obtain ⟨unseparated, separator⟩ := mark
      have unseparated' : next.separated = false := (settle_eq_ok settled).2.1.trans unseparated
      have marked : reached.take t = .ok { reached with separated := true } := by
        simp [take, unseparated, separator]
      have marked' : next.take t = .ok { next with separated := true } := by
        simp [take, unseparated', separator]
      rw [readOn_cons, readOn_cons, marked, marked']
      exact ih (settle_separated settled)
    · rw [readOn_cons, readOn_cons, take_of_settled settled mark]

/-- A flag, where it is accepted, settles the waiting option and is entered. -/
theorem take_flag {flag : Flag} (unseparated : reached.separated = false) :
    reached.take flag.text = reached.settle.bind fun settled =>
      if settled.flags.contains flag then .error .conflict
      else .ok { settled with flags := flag :: settled.flags } := by
  unfold take
  rw [if_neg (by simp [unseparated])]
  cases flag <;> rfl

theorem without_entered {flag : Flag} (fresh : flag ∉ reached.flags) :
    without { reached with flags := flag :: reached.flags } flag = reached := by
  have kept : reached.flags.filter (· != flag) = reached.flags := by
    rw [List.filter_eq_self]
    intro other listed
    rw [bne_iff_ne]
    rintro rfl
    exact fresh listed
  simp [without, kept]

/-- Where a flag can be entered, the rest of the arguments is read in the same way without it. -/
theorem readOn_flag {flag : Flag} {after : List Text} (unseparated : reached.separated = false)
    (notMissing : reached.readOn (flag.text :: after) ≠ .error .missingValue)
    (noConflict : reached.readOn (flag.text :: after) ≠ .error .conflict) :
    reached.readOn after = (reached.readOn (flag.text :: after)).map (·.without flag) := by
  rw [readOn_cons, take_flag unseparated] at notMissing noConflict ⊢
  cases settled : reached.settle with
  | error refusal =>
    rw [settled] at notMissing noConflict
    rcases settle_eq_error settled with rfl | rfl
    · exact absurd rfl notMissing
    · exact absurd rfl noConflict
  | ok next =>
    rw [settled] at noConflict
    by_cases again : flag ∈ next.flags
    · simp [Except.bind, again] at noConflict
    · simp only [Except.bind, List.contains_iff_mem, again, if_false] at noConflict ⊢
      have entered := readOn_without List.mem_cons_self noConflict
      rw [without_entered again] at entered
      rw [readOn_of_settled settled, entered]

end Reached

/-- Accepted arguments set exactly the flags they give. -/
theorem Invocation.ofArguments_hasFlag {arguments : List Text} {invocation : Invocation}
    (accepted : ofArguments arguments = .ok invocation) (flag : Flag) :
    invocation.hasFlag flag = true ↔ flag.IsGiven arguments := by
  obtain ⟨reached, read, finished⟩ := bind_eq_ok.mp accepted
  rw [Reached.finish_hasFlag finished, Reached.foldlM_take_flags read]
  simp [Reached.start]

/-- Arguments that are accepted with a flag, or ask for information, ask for the same without it. -/
theorem Invocation.ofArguments_without {flag : Flag} {before after : List Text}
    (unseparated : ("--" : Text) ∉ before)
    (accepted : ∀ refusal, ofArguments (before ++ flag.text :: after) = .error refusal →
      refusal = .help ∨ refusal = .version) :
    ofArguments (before ++ after) =
      (ofArguments (before ++ flag.text :: after)).map (·.without flag) := by
  have divided : ∀ later, ofArguments (before ++ later) =
      (before.foldlM Reached.take .start).bind (Reached.readOn · later) := by
    intro later
    rw [ofArguments, List.foldlM_append]
    exact bind_assoc _ _ _
  rw [divided] at accepted
  rw [divided, divided]
  cases read : before.foldlM Reached.take .start with
  | error refusal => rfl
  | ok reached =>
    rw [read] at accepted
    refine Reached.readOn_flag (Reached.foldlM_take_separated read unseparated) ?_ ?_
    · intro refused
      cases accepted _ refused <;> contradiction
    · intro refused
      cases accepted _ refused <;> contradiction

end TreeMigration.CommandLine
