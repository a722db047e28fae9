import TreeMigration.CommandLine.Program
import TreeMigration.Proofs.CommandLine.Flags
import TreeMigration.Proofs.Generation.Interruption

/-!
What the exit status tells. It is 2 for misuse, 0 where nothing went wrong and 1 where a run broke
down or found mismatches that it was asked to deny. Denying them changes the status and nothing
else: neither the files nor what is printed on the standard output.

`Completes` says, without the command line, that every part of a run came to its end: the
preparation, the two passes and the comparison. `Completes.execute_eq` and `completes_of_execute`
are the two directions between it and a run that breaks nowhere, so the status is described by what
the parts do and not by the outcome they were made into.

That the status line tells the truth rests on its two forms never being equal: they end differently
(`errors_ne_ok`), and the number in the second is read back from its digits. The independence from
the flag comes from the flags among the arguments: two command lines that differ in it ask for
invocations that differ in it alone (`Invocation.ofArguments_without`).
-/
namespace TreeMigration

theorem Text.ofNat_injective {m n : Nat} (same : Text.ofNat m = Text.ofNat n) : m = n := by
  unfold Text.ofNat at same
  calc
    m = Nat.ofDigitChars 10 (Nat.toDigits 10 m) 0 := Nat.ofDigitChars_ten_toDigits.symm
    _ = Nat.ofDigitChars 10 (Nat.toDigits 10 n) 0 := by rw [same]
    _ = n := Nat.ofDigitChars_ten_toDigits

namespace Report

variable {report : Report}

/-- The two forms of the status end differently. -/
theorem errors_ne_ok (n : Nat) :
    ("finished - " ++ Text.ofNat n ++ " ERRORS" : Text) ≠ "finished - everything OK" := by
  intro same
  have last := congrArg List.getLast? same
  rw [List.getLast?_append] at last
  simp at last

theorem status_eq_ok_iff :
    report.status = "finished - everything OK" ↔ report.mismatches = [] := by
  unfold status isClean
  rw [← List.isEmpty_iff]
  split
  · simp [*]
  · rename_i unclean
    exact iff_of_false (errors_ne_ok _) unclean

/-- The status says that there are mismatches exactly if there are, and how many. -/
theorem status_eq_errors_iff {n : Nat} :
    report.status = "finished - " ++ Text.ofNat n ++ " ERRORS" ↔
      report.mismatches ≠ [] ∧ report.mismatches.length = n := by
  unfold status isClean
  rw [Ne, ← List.isEmpty_iff]
  split
  · rename_i clean
    exact iff_of_false (errors_ne_ok n).symm (fun claims => claims.1 clean)
  · rename_i unclean
    rw [List.append_cancel_right_eq, List.append_cancel_left_eq, and_iff_right unclean]
    exact ⟨Text.ofNat_injective, fun same => by rw [same]⟩

end Report

namespace CommandLine

open Preparation

/-- Every part of a run completes: it is prepared, both passes finish, and the files produced are
compared with the reference tree if there is one. -/
inductive Completes (invocation : Invocation) (files : FileSystem) :
    FileSystem → Completion → Prop where
  | uncompared {preparation : Preparation} {changed : FileSystem} {summary : Summary}
    (prepared : (ofSettings files invocation.settings).result = .ok preparation)
    (ran : preparation.run files = (changed, .ok summary))
    (alone : invocation.settings.referenceRoot = none) :
    Completes invocation files changed ⟨summary.produced, none⟩
  | compared {preparation : Preparation} {changed : FileSystem} {summary : Summary}
    {reference : Path} {report : Report}
    (prepared : (ofSettings files invocation.settings).result = .ok preparation)
    (ran : preparation.run files = (changed, .ok summary))
    (beside : invocation.settings.referenceRoot = some reference)
    (checked : Comparison.check changed invocation.settings.destinationRoot reference
      summary.produced = .ok report) :
    Completes invocation files changed ⟨summary.produced, some report⟩

def passesText : Text :=
  Stage.indexing.label ++ "finished\n" ++ Stage.generation.label ++ "finished\n"

section execute

variable {invocation : Invocation} {files changed : FileSystem}

/-- An execution whose passes finish goes on to the comparison. -/
theorem execute_of_run {preparation : Preparation} {summary : Summary}
    (prepared : (ofSettings files invocation.settings).result = .ok preparation)
    (ran : preparation.run files = (changed, .ok summary)) :
    ∃ warnings, execute invocation files =
      compare invocation changed warnings passesText summary.produced := by
  unfold run at ran
  split at ran
  · cases ran
  · rename_i indexing indexed
    simp only [execute, prepared, indexed, CommandLine.generate, ran]
    exact ⟨_, rfl⟩

/-- What an execution comes to, every part of which completes. -/
theorem Completes.execute_eq {completion : Completion}
    (completes : Completes invocation files changed completion) :
    (execute invocation files).files = changed ∧
      (execute invocation files).result = .ok completion ∧
      (execute invocation files).output = passesText ++ completion.report.elim []
        fun report => Stage.comparison.label ++ reportText invocation.json report := by
  cases completes with
  | uncompared prepared ran alone =>
    obtain ⟨warnings, same⟩ := execute_of_run prepared ran
    simp [same, compare, alone]
  | compared prepared ran beside checked =>
    obtain ⟨warnings, same⟩ := execute_of_run prepared ran
    simp [same, compare, beside, checked]

/-- An execution breaks down unless every part of it completes. -/
theorem completes_of_execute {completion : Completion}
    (done : (execute invocation files).result = .ok completion) :
    ∃ changed, Completes invocation files changed completion := by
  cases prepared : (ofSettings files invocation.settings).result with
  | error failure => simp [execute, prepared] at done
  | ok preparation =>
    cases ran : (preparation.run files).2 with
    | error failure =>
      obtain ⟨stage, broken⟩ := (execute_run prepared).2 failure ran
      cases done.symm.trans broken
    | ok summary =>
      have ran : preparation.run files = ((preparation.run files).1, .ok summary) :=
        Prod.ext rfl ran
      obtain ⟨warnings, same⟩ := execute_of_run prepared ran
      rw [same] at done
      unfold compare at done
      split at done
      · rename_i alone
        cases done
        exact ⟨_, .uncompared prepared ran alone⟩
      · rename_i reference beside
        dsimp only at done
        split at done
        · cases done
        · rename_i report checked
          cases done
          exact ⟨_, .compared prepared ran beside checked⟩

/-- A run that completes has mismatches unless nothing was compared or nothing differed. -/
theorem Completes.mismatches_eq_zero_iff {completion : Completion}
    (completes : Completes invocation files changed completion) :
    completion.mismatches = 0 ↔ invocation.settings.referenceRoot = none ∨
      ∃ report, completion.report = some report ∧ report.mismatches = [] := by
  cases completes with
  | uncompared prepared ran alone => simp [Completion.mismatches, alone]
  | compared prepared ran beside checked => simp [Completion.mismatches, beside]

/-- An execution counts as failed unless it ends well and has no mismatches to deny. -/
theorem failureChain_eq_nil_iff {execution : Execution} :
    failureChain invocation execution = [] ↔ ∃ completion, execution.result = .ok completion ∧
      (invocation.denyMismatches = false ∨ completion.mismatches = 0) := by
  unfold failureChain
  cases execution.result with
  | error breakdown => simp [Breakdown.chain, Failure.chain]
  | ok completion =>
    simp only [Except.ok.injEq, exists_eq_left', ite_eq_right_iff, imp_false,
      Bool.and_eq_true, decide_eq_true_eq, not_and_or, Bool.not_eq_true, Nat.pos_iff_ne_zero,
      ne_eq, not_not, List.cons_ne_nil]

end execute

def Misused (arguments : List Text) : Prop :=
  ∃ refusal, Invocation.ofArguments arguments = .error refusal ∧
    refusal ≠ .help ∧ refusal ≠ .version

/-- Information was asked for, or a run completes and there are no mismatches to deny. -/
def Succeeds (arguments : List Text) (files : FileSystem) : Prop :=
  Invocation.ofArguments arguments = .error .help ∨
  Invocation.ofArguments arguments = .error .version ∨
  ∃ invocation changed completion, Invocation.ofArguments arguments = .ok invocation ∧
    Completes invocation files changed completion ∧
    (¬ Flag.denyMismatches.IsGiven arguments ∨ invocation.settings.referenceRoot = none ∨
      ∃ report, completion.report = some report ∧ report.mismatches = [])

section runProgram

variable {arguments : List Text} {files : FileSystem}

theorem exitCode_eq_two_iff :
    (runProgram arguments files).exitCode = 2 ↔ Misused arguments := by
  unfold runProgram Misused
  cases asked : Invocation.ofArguments arguments with
  | error refusal => cases refusal <;> simp [Refusal.exitCode]
  | ok invocation =>
    dsimp only
    split <;> simp

theorem exitCode_eq_zero_iff :
    (runProgram arguments files).exitCode = 0 ↔ Succeeds arguments files := by
  unfold runProgram Succeeds
  cases asked : Invocation.ofArguments arguments with
  | error refusal => cases refusal <;> simp [Refusal.exitCode]
  | ok invocation =>
    have denied : invocation.denyMismatches = false ↔ ¬ Flag.denyMismatches.IsGiven arguments := by
      rw [← Invocation.ofArguments_hasFlag asked, Bool.not_eq_true]
      rfl
    simp only [ite_eq_left_iff, Nat.one_ne_zero, imp_false, not_not, List.isEmpty_iff,
      failureChain_eq_nil_iff, reduceCtorEq, false_or, Except.ok.injEq, ← denied]
    constructor
    · rintro ⟨completion, done, reason⟩
      obtain ⟨changed, completes⟩ := completes_of_execute done
      rw [completes.mismatches_eq_zero_iff] at reason
      exact ⟨invocation, changed, completion, rfl, completes, reason⟩
    · rintro ⟨_, changed, completion, rfl, completes, reason⟩
      rw [← completes.mismatches_eq_zero_iff] at reason
      exact ⟨completion, completes.execute_eq.2.1, reason⟩

theorem exitCode_le_two : (runProgram arguments files).exitCode ≤ 2 := by
  unfold runProgram
  cases Invocation.ofArguments arguments with
  | error refusal => cases refusal <;> simp [Refusal.exitCode]
  | ok invocation =>
    dsimp only
    split <;> simp

/-- Two programs that ask for the same but for denying mismatches do the same. -/
theorem runProgram_of_without {others : List Text} {invocation other : Invocation}
    (asked : Invocation.ofArguments arguments = .ok invocation)
    (asked' : Invocation.ofArguments others = .ok other)
    (same : other.without .denyMismatches = invocation.without .denyMismatches) :
    (runProgram others files).files = (runProgram arguments files).files ∧
      (runProgram others files).output = (runProgram arguments files).output := by
  have executed : execute other files = execute invocation files := by
    change execute (other.without .denyMismatches) files =
      execute (invocation.without .denyMismatches) files
    rw [same]
  simp only [runProgram, asked, asked', executed, and_self]

/-- A program that is not misused does the same where mismatches are not to be denied. -/
theorem runProgram_without_flag {before after : List Text}
    (whole : arguments = before ++ Flag.denyMismatches.text :: after)
    (unseparated : ("--" : Text) ∉ before) (used : ¬ Misused arguments) :
    (runProgram (before ++ after) files).files = (runProgram arguments files).files ∧
      (runProgram (before ++ after) files).output = (runProgram arguments files).output := by
  subst whole
  have without := Invocation.ofArguments_without unseparated fun refusal refused => by
    apply Decidable.byContradiction
    intro neither
    exact used ⟨refusal, refused, not_or.mp neither⟩
  cases asked : Invocation.ofArguments (before ++ Flag.denyMismatches.text :: after) with
  | error refusal =>
    rw [asked] at without
    simp only [runProgram, asked, without, Except.map, and_self]
  | ok invocation =>
    rw [asked] at without
    exact runProgram_of_without asked without rfl

/-- What is printed by a program whose comparison runs to its end. -/
theorem output_of_compared {invocation : Invocation} {changed : FileSystem} {produced : List Path}
    {report : Report} (asked : Invocation.ofArguments arguments = .ok invocation)
    (completes : Completes invocation files changed ⟨produced, some report⟩) :
    (runProgram arguments files).output = passesText ++ Stage.comparison.label ++
      if Flag.json.IsGiven arguments then report.status ++ "\n" ++ report.json ++ "\n"
      else Text.ofLines (report.mismatches.map Mismatch.message) ++ report.status ++ "\n" := by
  have printed : (runProgram arguments files).output = (execute invocation files).output := by
    simp only [runProgram, asked]
  have form : invocation.json = true ↔ Flag.json.IsGiven arguments :=
    Invocation.ofArguments_hasFlag asked .json
  rw [printed, completes.execute_eq.2.2, Option.elim_some, reportText]
  simp only [form]
  split
  · simp [Text.ofLines]
  · simp [Text.ofLines]

end runProgram

/-- The exit status tells the truth. It is 2 exactly for misuse, 0 exactly where information was asked
for or a run completes and has no mismatches to deny, and 1 in all other cases. The status line that
a comparison prints says that everything is in order exactly if the report is empty, and else how
many mismatches it has. Programs that differ in denying mismatches only leave the same files and
print the same. -/
theorem exitCode_tells_truth (arguments : List Text) (files : FileSystem) :
    ((runProgram arguments files).exitCode = 2 ↔ Misused arguments) ∧
    ((runProgram arguments files).exitCode = 0 ↔ Succeeds arguments files) ∧
    (¬ Misused arguments → ¬ Succeeds arguments files →
      (runProgram arguments files).exitCode = 1) ∧
    (∀ invocation changed produced report, Invocation.ofArguments arguments = .ok invocation →
      Completes invocation files changed ⟨produced, some report⟩ →
      (runProgram arguments files).output = passesText ++ Stage.comparison.label ++
        (if Flag.json.IsGiven arguments then report.status ++ "\n" ++ report.json ++ "\n"
          else Text.ofLines (report.mismatches.map Mismatch.message) ++ report.status ++ "\n") ∧
      (report.status = "finished - everything OK" ↔ report.mismatches = []) ∧
      ∀ n, report.status = "finished - " ++ Text.ofNat n ++ " ERRORS" ↔
        report.mismatches ≠ [] ∧ report.mismatches.length = n) ∧
    (∀ others invocation other, Invocation.ofArguments arguments = .ok invocation →
      Invocation.ofArguments others = .ok other →
      other.without .denyMismatches = invocation.without .denyMismatches →
      (runProgram others files).files = (runProgram arguments files).files ∧
        (runProgram others files).output = (runProgram arguments files).output) ∧
    (∀ before after, arguments = before ++ Flag.denyMismatches.text :: after → ("--" : Text) ∉ before →
      ¬ Misused arguments →
      (runProgram (before ++ after) files).files = (runProgram arguments files).files ∧
        (runProgram (before ++ after) files).output = (runProgram arguments files).output) := by
  refine ⟨exitCode_eq_two_iff, exitCode_eq_zero_iff, ?_, ?_, ?_, ?_⟩
  · intro used unsuccessful
    rw [← @exitCode_eq_two_iff arguments files] at used
    rw [← exitCode_eq_zero_iff] at unsuccessful
    have bound := @exitCode_le_two arguments files
    omega
  · intro invocation changed produced report asked completes
    exact ⟨output_of_compared asked completes, Report.status_eq_ok_iff,
      fun n => Report.status_eq_errors_iff⟩
  · intro others invocation other asked asked' same
    exact runProgram_of_without asked asked' same
  · intro before after whole unseparated used
    exact runProgram_without_flag whole unseparated used

namespace Gate

/-- A source tree, an empty destination tree and a reference tree that differs. -/
def files : FileSystem :=
  .ofTree [
    (⟨"src"⟩, .directory),
    (⟨"src/x.kt"⟩, .file (FileSystem.encode "a")),
    (⟨"out"⟩, .directory),
    (⟨"ref"⟩, .directory),
    (⟨"ref/x.swift"⟩, .file (FileSystem.encode "c")),
    (⟨"rules"⟩, .file (FileSystem.encode "\x7b\"from\":\"a\",\"to\":\"b\",\"multiple\":true\x7d"))]

def lenient : List Text := ["src", "src", "out", "rules", "ref"]

/-- The same, with mismatches denied. -/
def strict : List Text := ["src", "src", "--deny-mismatches", "out", "rules", "ref"]

def invocation : Invocation where
  settings :=
    { Settings.default with
      sourceRoot := ⟨"src"⟩
      sourceList := ⟨"src"⟩
      destinationRoot := ⟨"out"⟩
      ruleFile := ⟨"rules"⟩
      referenceRoot := some ⟨"ref"⟩ }
  denyMismatches := true
  json := false
  debug := false

def report : Report := ⟨1, [⟨⟨"out/x.swift"⟩, .line 1 "b" "c"⟩]⟩

theorem executed : Invocation.ofArguments strict = .ok invocation ∧
    (execute invocation files).result = .ok ⟨[⟨"out/x.swift"⟩], some report⟩ := by
  decide +kernel

end Gate

/-- A run that finds a difference fails if mismatches are denied, and prints the same if not. -/
theorem exitCode_tells_truth_denied :
    (runProgram Gate.strict Gate.files).exitCode = 1 ∧
    (runProgram Gate.strict Gate.files).output = "Parsing...     finished\n" ++
      "Transpiling... finished\n" ++
      "Validating...  out/x.swift: line 1\n  \"b\"\n  \"c\"\nfinished - 1 ERRORS\n" ∧
    (runProgram Gate.lenient Gate.files).output = (runProgram Gate.strict Gate.files).output := by
  obtain ⟨asked, done⟩ := Gate.executed
  obtain ⟨-, -, fails, told, -, same⟩ := exitCode_tells_truth Gate.strict Gate.files
  obtain ⟨changed, completes⟩ := completes_of_execute done
  have used : ¬ Misused Gate.strict := by
    rintro ⟨refusal, refused, -⟩
    cases asked.symm.trans refused
  have denied : ¬ Succeeds Gate.strict Gate.files := by
    rintro (help | version | ⟨other, after, completion, asked', completes', reason⟩)
    · cases asked.symm.trans help
    · cases asked.symm.trans version
    · cases asked.symm.trans asked'
      cases done.symm.trans completes'.execute_eq.2.1
      revert reason
      decide +kernel
  refine ⟨fails used denied, ?_, ?_⟩
  · rw [(told _ _ _ _ asked completes).1]
    decide +kernel
  · exact (same ["src", "src"] ["out", "rules", "ref"] rfl (by decide +kernel) used).2

end CommandLine

end TreeMigration
