import TreeMigration.CommandLine.Execution

/-!
The program as a whole: from its arguments and the files it finds to its exit code, what it prints
and the files it leaves.

`runProgram` is a function of the arguments and the files, so a second run on the same files is an
equation and not an event. A run that the arguments do not lead to ends with the code of its refusal
and touches nothing. Any other run ends with 0 or 1, and with 1 exactly when there is something to
report: the chain of a breakdown, or the one line on mismatches that were to be denied.

The report on the standard error is modelled with its layout, as `errorReport`: the error on the
first line, one cause indented, several causes numbered and aligned, and the later lines of each
moved in.
-/
namespace TreeMigration.CommandLine

def versionText : Text := "shiftline 0.1.0\n"

def helpText : Text := Text.ofLines [
  "Rewrite a source tree into another language with line-oriented rewrite rules",
  "",
  "Usage: shiftline [OPTIONS] <SOURCE_ROOT> <MANIFEST_OR_DIR> <DEST_ROOT> <RULE_FILE> [REFERENCE_ROOT]",
  "",
  "Arguments:",
  "  <SOURCE_ROOT>      Root directory of the source tree",
  "  <MANIFEST_OR_DIR>  File listing source paths line by line, or a directory to walk",
  "  <DEST_ROOT>        Existing directory the generated tree is written to",
  "  <RULE_FILE>        Rule file, one \x7b\"from\", \"to\", \"multiple\"\x7d object per line",
  "  [REFERENCE_ROOT]   Hand-maintained tree to validate the generated files against",
  "",
  "Options:",
  "      --source-ext <EXT>   Extension of source files [default: .kt]",
  "      --target-ext <EXT>   Extension of generated files [default: .swift]",
  "      --declaration-aware  Match rules that name a declared identifier on identifier boundaries only",
  "      --deny-mismatches    Exit with an error when validation finds mismatches",
  "      --json               Print the validation report as JSON",
  "      --debug              Enable debug logging",
  "  -h, --help               Print help",
  "  -V, --version            Print version"]

def indentLater (indent t : Text) : Text :=
  t.flatMap fun c => if c = '\n' then c :: indent else [c]

/-- The causes of an error, each numbered, from the given number on. -/
def numberedCauses : Nat → List Text → Text
  | _, [] => []
  | number, cause :: later =>
    let digits := Text.ofNat number
    List.replicate (5 - digits.length) ' ' ++ digits ++ ": " ++
      indentLater (List.replicate 7 ' ') cause ++ "\n" ++ numberedCauses (number + 1) later

/-- The report of an error: the error itself and, under a heading, its causes, which are numbered
where there are several. -/
def errorReport : List Text → Text
  | [] => []
  | [error] => "Error: " ++ error ++ "\n"
  | [error, cause] =>
    let indent := List.replicate 4 ' '
    "Error: " ++ error ++ "\n\nCaused by:\n" ++ indent ++ indentLater indent cause ++ "\n"
  | error :: causes => "Error: " ++ error ++ "\n\nCaused by:\n" ++ numberedCauses 0 causes

/-- Why a run counts as failed: it broke down, or it was asked to deny mismatches and found some. -/
def failureChain (invocation : Invocation) (execution : Execution) : List Text :=
  match execution.result with
  | .error breakdown => breakdown.chain
  | .ok completion =>
    if invocation.denyMismatches && decide (0 < completion.mismatches) then
      ["validation found " ++ Text.ofNat completion.mismatches ++ " mismatches"]
    else []

structure Ending where
  files : FileSystem
  warnings : List Warning
  exitCode : Nat
  output : Text
  errorReport : Text

/-- What is printed instead of a run. -/
def Refusal.output : Refusal → Text
  | .help => helpText
  | .version => versionText
  | _ => []

def runProgram (arguments : List Text) (files : FileSystem) : Ending :=
  match Invocation.ofArguments arguments with
  | .error refusal => ⟨files, [], refusal.exitCode, refusal.output, []⟩
  | .ok invocation =>
    let execution := execute invocation files
    let chain := failureChain invocation execution
    ⟨execution.files, execution.warnings, if chain.isEmpty then 0 else 1, execution.output,
      errorReport chain⟩

end TreeMigration.CommandLine
