import TreeMigration.Settings

/-!
Reading the command line. Arguments are taken from left to right and the first fault ends the
reading. An option that waits for its value is settled only when something comes after which it can
have none, so a plainly unknown argument is reported before an option left without a value.

`Reached` is the state of the reading and `Reached.take` its only step: an invocation is what
`Reached.finish` makes of the state after the last argument. Three points of the usual conventions
are decided here and nowhere else.
* An extension may be joined to its option by an equals sign or follow it; whatever begins with a
  hyphen is an option and never the value of one, except for the single hyphen.
* After `--` every argument is positional; an option that still waits for its value then is refused
  for want of one.
* An option or flag given twice is a conflict, whatever the two values are.

The texts of the complaints belong to the reader of the arguments and are not part of the model; a
refusal is known by its kind and its exit code.
-/
namespace TreeMigration.CommandLine

/-- Why the arguments were not accepted; asking for help or the version counts as one reason. -/
inductive Refusal where
  | unknownArgument | conflict | missingValue | unneededValue | missingArguments | help | version
  deriving DecidableEq, Repr

/-- Help and the version are what was asked for; all else is a misuse. -/
def Refusal.exitCode : Refusal → Nat
  | .help | .version => 0
  | _ => 2

inductive ExtensionOption where
  | source | target
  deriving DecidableEq, Repr

inductive Flag where
  | declarationAware | denyMismatches | json | debug
  deriving DecidableEq, Repr

inductive LongOption where
  | extension (which : ExtensionOption)
  | flag (which : Flag)
  | information (which : Refusal)
  deriving DecidableEq, Repr

def longOptions : List (Text × LongOption) := [
  ("source-ext", .extension .source), ("target-ext", .extension .target),
  ("declaration-aware", .flag .declarationAware), ("deny-mismatches", .flag .denyMismatches),
  ("json", .flag .json), ("debug", .flag .debug),
  ("help", .information .help), ("version", .information .version)]

inductive Argument where
  | separator
  | long (name : Text) (value : Option Text)
  | short (first : Char)
  | plain (t : Text)
  deriving DecidableEq, Repr

/-- Two hyphens begin a long option, of which the first equals sign parts off a value; one hyphen
begins short options, unless it stands alone. -/
def Argument.ofText : Text → Argument
  | ['-', '-'] => .separator
  | '-' :: '-' :: rest =>
    match rest.dropWhile (· != '=') with
    | [] => .long rest none
    | _ :: value => .long (rest.takeWhile (· != '=')) (some value)
  | '-' :: first :: _ => .short first
  | t => .plain t

/-- What has been read so far. An option may be waiting to be settled, with its value if that has
come; after a separator everything is positional. -/
structure Reached where
  positionals : List Text
  extensions : List (ExtensionOption × Text)
  flags : List Flag
  waiting : Option (ExtensionOption × Option Text)
  separated : Bool
  deriving DecidableEq, Repr

namespace Reached

def start : Reached := ⟨[], [], [], none, false⟩

/-- Gives an option its value, which it may not have already. -/
def setExtension (reached : Reached) (which : ExtensionOption) (value : Text) :
    Except Refusal Reached :=
  if (reached.extensions.lookup which).isSome then .error .conflict
  else .ok { reached with extensions := (which, value) :: reached.extensions }

/-- Settles the waiting option, which has to have its value by now. -/
def settle (reached : Reached) : Except Refusal Reached :=
  match reached.waiting with
  | none => .ok reached
  | some (_, none) => .error .missingValue
  | some (which, some value) => { reached with waiting := none }.setExtension which value

/-- Takes a positional argument, of which there are at most five. -/
def takePositional (reached : Reached) (t : Text) : Except Refusal Reached :=
  if 5 ≤ reached.positionals.length then .error .unknownArgument
  else do
    let settled ← reached.settle
    .ok { settled with positionals := settled.positionals ++ [t] }

/-- Takes a plain argument: the value of an option that waits for one, or else a positional. -/
def takePlain (reached : Reached) (t : Text) : Except Refusal Reached :=
  match reached.waiting with
  | some (which, none) => .ok { reached with waiting := some (which, some t) }
  | _ => reached.takePositional t

def takeLong (reached : Reached) (name : Text) (value : Option Text) : Except Refusal Reached :=
  match longOptions.lookup name, value with
  | none, _ => .error .unknownArgument
  | some (.extension which), none => do
    let settled ← reached.settle
    .ok { settled with waiting := some (which, none) }
  | some (.extension which), some value => do
    let settled ← reached.settle
    settled.setExtension which value
  | some _, some _ => .error .unneededValue
  | some (.flag which), none => do
    let settled ← reached.settle
    if settled.flags.contains which then .error .conflict
    else .ok { settled with flags := which :: settled.flags }
  | some (.information which), none => do
    let _ ← reached.settle
    .error which

/-- Takes short options, of which the first decides. -/
def takeShort (reached : Reached) (first : Char) : Except Refusal Reached :=
  if first = 'h' then reached.settle.bind fun _ => .error .help
  else if first = 'V' then reached.settle.bind fun _ => .error .version
  else .error .unknownArgument

def take (reached : Reached) (t : Text) : Except Refusal Reached :=
  if reached.separated then reached.takePositional t
  else match Argument.ofText t with
    | .separator => .ok { reached with separated := true }
    | .long name value => reached.takeLong name value
    | .short first => reached.takeShort first
    | .plain t => reached.takePlain t

end Reached

structure Invocation where
  settings : Settings
  denyMismatches : Bool
  json : Bool
  debug : Bool
  deriving DecidableEq, Repr

/-- The invocation that everything read amounts to, if enough was given. -/
def Reached.finish (reached : Reached) : Except Refusal Invocation := do
  let settled ← reached.settle
  match settled.positionals with
  | sourceRoot :: sourceList :: destinationRoot :: ruleFile :: further =>
    .ok {
      settings := {
        sourceRoot := ⟨sourceRoot⟩
        sourceList := ⟨sourceList⟩
        destinationRoot := ⟨destinationRoot⟩
        ruleFile := ⟨ruleFile⟩
        referenceRoot := further.head?.map Path.mk
        sourceExtension :=
          (settled.extensions.lookup .source).getD Settings.default.sourceExtension
        targetExtension :=
          (settled.extensions.lookup .target).getD Settings.default.targetExtension
        declarationAware := settled.flags.contains .declarationAware }
      denyMismatches := settled.flags.contains .denyMismatches
      json := settled.flags.contains .json
      debug := settled.flags.contains .debug }
  | _ => .error .missingArguments

def Invocation.ofArguments (arguments : List Text) : Except Refusal Invocation := do
  let reached ← arguments.foldlM Reached.take .start
  reached.finish

end TreeMigration.CommandLine
