import StyleCascade.CommandLine.Commands

/-!
# The command line

The whole program as a function of its arguments and of what files answer: options of the
program, the name of a command, and the options and the file of the command.

* `Command` — the commands and their options.
* `usageLines` — how an error in the arguments is shown.
* `checkArguments` — the file that a command is given.
* `run` — what the program does.
-/

namespace StyleCascade.CommandLine

/-- The name that the program is called by. -/
def programName : String := "theme-cascade"

/-- The version of the program. -/
def version : String := "0.1.0"

/-- The option that asks how the program is used. -/
def helpOption : OptionSpec := { name := "--help", takesValue := false }

/-- The options of the program. -/
def programOptions : List OptionSpec := [
  { name := "--version", takesValue := false },
  { name := "--verbose", letter := some 'v', takesValue := false }, helpOption]

/-- The commands. -/
inductive Command where
  | validate
  | inspect
  | resolve
  deriving Repr, DecidableEq

namespace Command

/-- The name of a command. -/
def name : Command → String
  | validate => "validate"
  | inspect => "inspect"
  | resolve => "resolve"

/-- All commands. -/
def all : List Command := [validate, inspect, resolve]

/-- The command of a name. -/
def ofName? (name : String) : Option Command := all.find? (·.name == name)

/-- The options that a command knows. -/
def options : Command → List OptionSpec
  | validate => [{ name := "--context" }, helpOption]
  | inspect => [{ name := "--context" }, helpOption]
  | resolve => [
    { name := "--component" }, { name := "--context" }, { name := "--id" }, { name := "--state" },
    { name := "--attr" }, { name := "--known-context" },
    { name := "--managed", takesValue := false }, { name := "--unmanaged", takesValue := false },
    { name := "--debug", takesValue := false }, helpOption]

/-- The option that a command cannot do without. -/
def neededOption? : Command → Option String
  | resolve => some "--component"
  | _ => none

end Command

/-- The name of the program, with a command behind it. -/
def calledName : Option Command → String
  | some command => programName ++ " " ++ command.name
  | none => programName

/-- How the program, or a command, is called. -/
def usageLine (command : Option Command) : String :=
  "Usage: " ++ calledName command ++
    if command.isSome then " [OPTIONS] THEMEFILE" else " [OPTIONS] COMMAND [ARGS]..."

/-- How an error in the arguments of a command, or of the program, is shown.  An error in the value
of an option stands alone, the others under how to call the program. -/
def usageLines (command : Option Command) (e : UsageError) : List String :=
  let help := "Try '" ++ calledName command ++ " --help' for help."
  shown <| (if e.isOfValue then [] else [usageLine command, help, ""]) ++ ["Error: " ++ e.message]

/-- The end of the program on an error in its arguments. -/
def usageOutcome (command : Option Command) (e : UsageError) : Outcome :=
  { errors := usageLines command e, ending := .exit 2 }

/-- The file that a command is given, when its arguments can be used.  The file is looked at
before options that are missing, and those before arguments that are too many. -/
def checkArguments (files : Files) (command : Command) (given : List GivenOption)
    (others : List String) : Except UsageError String :=
  match others with
  | [] => .error (.argumentMissing "THEMEFILE")
  | path :: extra =>
    if !files.present path then .error (.pathMissing "THEMEFILE" path)
    else
      match command.neededOption?.filter (!isGiven given ·) with
      | some missing => .error (.optionMissing missing)
      | none => if extra.isEmpty then .ok path else .error (.extraArguments extra)

/-- What a command does with the options it is given. -/
def runCommand (verbose : Bool) (files : Files) (command : Command) (given : List GivenOption)
    (path : String) : Outcome :=
  match command with
  | .validate => validateCommand files path (valuesOf given "--context")
  | .inspect => inspectCommand verbose files path (valuesOf given "--context")
  | .resolve =>
    let managed := given.filter fun o => o.name == "--managed" || o.name == "--unmanaged"
    resolveCommand verbose files path
      { query :=
          { component := (valueOf? given "--component").getD ""
            context := valueOf? given "--context"
            identifier := valueOf? given "--id"
            state := valueOf? given "--state"
            managed := managed.getLast?.any (·.name == "--managed") }
        attributes := valuesOf given "--attr"
        knownContexts := valuesOf given "--known-context"
        debug := isGiven given "--debug" }
      (usageLines (some command))

/-- The path that the arguments ask for, if they name a command and a path. -/
def pathOf? (arguments : List String) : Option String := do
  let (_, rest) ← (sortArguments programOptions false arguments).toOption
  let command ← Command.ofName? (← rest.head?)
  let (_, others) ← (sortArguments command.options true rest.tail).toOption
  others.head?

/-- What the program does where options ask about the program itself: it tells its version or how
it is called, as the first of them asks. -/
def information? (command : Option Command) (given : List GivenOption) : Option Outcome :=
  (given.find? fun o => o.name == "--version" || o.name == "--help").map fun o =>
    if o.name == "--version" then { output := [programName ++ ", version " ++ version] }
    else { output := [usageLine command] }

/-- What the program does where no command has the name given.  The name may be an option behind a
double hyphen; so the arguments from there on are sorted once more. -/
def unknownCommand (name : String) (arguments : List String) : Outcome :=
  match sortArguments programOptions false (name :: arguments) with
  | .error e => usageOutcome none e
  | .ok (given, _) =>
    let similar := Text.closestNames (Command.all.map Command.name) name
    (information? none given).getD (usageOutcome none (.noSuchCommand name similar))

/-- What a command does with its arguments.  Their options are sorted first, then the path is
looked at. -/
def callCommand (verbose : Bool) (files : Files) (command : Command) (arguments : List String) :
    Outcome :=
  match sortArguments command.options true arguments with
  | .error e => usageOutcome (some command) e
  | .ok (given, others) =>
    (information? (some command) given).getD <|
      if others.head?.any holdsNull then { ending := .crash (.load .nullInPath) }
      else
        match checkArguments files command given others with
        | .error e => usageOutcome (some command) e
        | .ok path => runCommand verbose files command given path

/-- What the program does. -/
def run (files : Files) (arguments : List String) : Outcome :=
  match sortArguments programOptions false arguments with
  | .error e => usageOutcome none e
  | .ok (given, rest) =>
    (information? none given).getD <|
      match rest with
      | [] => usageOutcome none .commandMissing
      | name :: arguments =>
        match Command.ofName? name with
        | none => unknownCommand name arguments
        | some command => callCommand (isGiven given "--verbose") files command arguments

end StyleCascade.CommandLine
