import TreeMigration.CommandLine.Arguments
import TreeMigration.Comparison
import TreeMigration.Generation
import TreeMigration.Unicode.Unprintable

/-!
A run as the user sees it: progress on the standard output, then the comparison with the reference
tree if there is one. What was printed, changed and warned of before a failure stays.

The parts of a run are told one after the other, each by its own function: `execute` prepares and
indexes, `generate` writes the outputs, `compare` looks at the reference tree. Each takes the files,
warnings and output reached so far and hands on what it adds, so the state at the end of every part
can be named. A failure before indexing belongs to no part; a later one is told under the name of
its `Stage`, with the file failure and its cause behind it.

Warnings are kept as data and given as text by `Warning.message`; the log lines around them, with
their times and levels, are not modelled. The pattern of a rule that never matched is shown in
quotes, as a literal that could be read back: `Text.quoted` escapes the quote, the backslash, the
common controls, and by code point every character that leaves no mark of its own.
-/
namespace TreeMigration

def Text.quotedChar (c : Char) : Text :=
  if c = '"' then "\\\""
  else if c = '\\' then "\\\\"
  else if c = '\t' then "\\t"
  else if c = '\n' then "\\n"
  else if c = '\r' then "\\r"
  else if c = '\x00' then "\\0"
  else if Unicode.isUnprintable c then "\\u\x7b" ++ Nat.toDigits 16 c.toNat ++ "\x7d"
  else [c]

def Text.quoted (t : Text) : Text := '"' :: t.flatMap Text.quotedChar ++ ['"']

def Warning.message : Warning → Text
  | .missingEntry list line entry =>
    list.text ++ ":" ++ Text.ofNat line ++ ": listed path does not exist, skipping: " ++ entry
  | .refusedRule file line reason t =>
    file.text ++ ":" ++ Text.ofNat line ++ ": skipping rule line (" ++ reason.message ++ "): " ++ t
  | .unusedRule pattern => "rule " ++ Text.quoted pattern ++ " never matched"

/-- A failure and what caused it, the outer one first. -/
def Failure.chain (failure : Failure) : List Text :=
  failure.message :: match failure with
    | .configuration _ => []
    | .file _ cause => [cause.message]

namespace CommandLine

/-- The parts of a run that name themselves when they fail. -/
inductive Stage where
  | indexing | generation | comparison
  deriving DecidableEq, Repr

def Stage.message : Stage → Text
  | .indexing => "index phase failed"
  | .generation => "rewrite phase failed"
  | .comparison => "validation failed"

/-- The progress shown when a part begins. -/
def Stage.label : Stage → Text
  | .indexing => "Parsing...     "
  | .generation => "Transpiling... "
  | .comparison => "Validating...  "

/-- Why a run ended early, and in which part if it got that far. -/
structure Breakdown where
  stage : Option Stage
  failure : Failure
  deriving DecidableEq, Repr

/-- What is told of a breakdown, the outermost first. -/
def Breakdown.chain (breakdown : Breakdown) : List Text :=
  (breakdown.stage.map Stage.message).toList ++ breakdown.failure.chain

structure Completion where
  produced : List Path
  report : Option Report
  deriving DecidableEq, Repr

/-- The number of mismatches, none where nothing was compared. -/
def Completion.mismatches (completion : Completion) : Nat :=
  match completion.report with
  | none => 0
  | some report => report.mismatches.length

structure Execution where
  files : FileSystem
  warnings : List Warning
  output : Text
  result : Except Breakdown Completion

/-- What is printed of a report: as JSON after its status, or its mismatches before it. -/
def reportText (json : Bool) (report : Report) : Text :=
  if json then Text.ofLines [report.status, report.json]
  else Text.ofLines (report.mismatches.map Mismatch.message ++ [report.status])

/-- The last part of a run: compares the files produced if there is a reference tree. -/
def compare (invocation : Invocation) (files : FileSystem) (warnings : List Warning)
    (output : Text) (produced : List Path) : Execution :=
  match invocation.settings.referenceRoot with
  | none => ⟨files, warnings, output, .ok ⟨produced, none⟩⟩
  | some reference =>
    let output := output ++ Stage.comparison.label
    match Comparison.check files invocation.settings.destinationRoot reference produced with
    | .error failure => ⟨files, warnings, output, .error ⟨some .comparison, failure⟩⟩
    | .ok report =>
      ⟨files, warnings, output ++ reportText invocation.json report,
        .ok ⟨produced, some report⟩⟩

/-- The second part of a run: generates the files of a prepared run that has its index. -/
def generate (invocation : Invocation) (files : FileSystem) (warnings : List Warning)
    (output : Text) (preparation : Preparation) (indexing : Indexing) : Execution :=
  let output := output ++ Stage.generation.label
  match preparation.generate files indexing with
  | (changed, .error failure) => ⟨changed, warnings, output, .error ⟨some .generation, failure⟩⟩
  | (changed, .ok summary) =>
    let unused := summary.unused.map fun statistics => Warning.unusedRule statistics.pattern
    compare invocation changed (warnings ++ unused) (output ++ "finished\n") summary.produced

def execute (invocation : Invocation) (files : FileSystem) : Execution :=
  let prepared := Preparation.ofSettings files invocation.settings
  match prepared.result with
  | .error failure => ⟨files, prepared.warnings, [], .error ⟨none, failure⟩⟩
  | .ok preparation =>
    let output := Stage.indexing.label
    match preparation.index files with
    | .error failure => ⟨files, prepared.warnings, output, .error ⟨some .indexing, failure⟩⟩
    | .ok indexing =>
      generate invocation files prepared.warnings (output ++ "finished\n") preparation indexing

end CommandLine

end TreeMigration
