import StyleCascade.Text.Quoted
import StyleCascade.Text.Similarity

/-!
# Options

The arguments of a command sorted into options and the rest.  An option starts with a hyphen;
its value is the next argument or stands behind an equals sign.  A double hyphen ends the
options.

* `OptionSpec` — an option that a command knows.
* `UsageError` — why arguments cannot be used; `UsageError.message` words it.
* `sortArguments` — the options given, in order, and the other arguments.
-/

namespace StyleCascade.CommandLine

/-- An option that a command knows. -/
structure OptionSpec where
  /-- Its long name, with the hyphens. -/
  name : String
  /-- Its letter, if it has one. -/
  letter : Option Char := none
  /-- Whether it takes a value. -/
  takesValue : Bool := true
  deriving Repr, DecidableEq

/-- An option as it was given. -/
structure GivenOption where
  /-- The long name of the option. -/
  name : String
  /-- Its value; empty for an option that takes none. -/
  value : String
  deriving Repr, DecidableEq

/-- Why the arguments of a command cannot be used. -/
inductive UsageError where
  /-- No option has this name; some have one like it. -/
  | noSuchOption (name : String) (similar : List String)
  /-- The option needs a value, and there is none. -/
  | valueMissing (name : String)
  /-- The option takes no value, and there is one. -/
  | valueUnexpected (name : String)
  /-- An option that is needed is not given. -/
  | optionMissing (name : String)
  /-- An argument that is needed is not given. -/
  | argumentMissing (name : String)
  /-- There are more arguments than the command takes. -/
  | extraArguments (arguments : List String)
  /-- Nothing is at the path given for an argument. -/
  | pathMissing (name path : String)
  /-- No command is given. -/
  | commandMissing
  /-- No command has this name; some have one like it. -/
  | noSuchCommand (name : String) (similar : List String)
  /-- An attribute is not given as its name and its value. -/
  | badAttribute (text : String)
  deriving Repr, DecidableEq

/-- What is said of names that are like one that is not known. -/
def suggestion : List String → String
  | [] => ""
  | [name] => " Did you mean " ++ Text.quoted name ++ "?"
  | names => " (Did you mean one of: " ++ ", ".intercalate (names.map Text.quoted) ++ "?)"

/-- The wording of an error. -/
def UsageError.message : UsageError → String
  | noSuchOption name similar =>
    "No such option " ++ Text.quoted name ++ "." ++ suggestion similar
  | valueMissing name => "Option " ++ Text.quoted name ++ " requires an argument."
  | valueUnexpected name => "Option " ++ Text.quoted name ++ " does not take a value."
  | optionMissing name => "Missing option '" ++ name ++ "'."
  | argumentMissing name => "Missing argument '" ++ name ++ "'."
  | extraArguments arguments =>
    (if arguments.length == 1 then "Got unexpected extra argument ("
      else "Got unexpected extra arguments (") ++ " ".intercalate arguments ++ ")"
  | pathMissing name path =>
    "Invalid value for '" ++ name ++ "': Path " ++ Text.quoted path ++ " does not exist."
  | commandMissing => "Missing command."
  | noSuchCommand name similar =>
    "No such command " ++ Text.quoted name ++ "." ++ suggestion similar
  | badAttribute text => "Invalid value for --attr: expected NAME=VALUE, got " ++ Text.quoted text

/-- Whether an error is about the value of an option that is known. -/
def UsageError.isOfValue : UsageError → Bool
  | valueMissing _ => true
  | valueUnexpected _ => true
  | _ => false

/-- A text before and behind its first equals sign; nothing where it has none. -/
def splitAtEquals? (s : String) : Option (String × String) :=
  match s.toList.dropWhile (· != '=') with
  | _ :: value => some (String.ofList (s.toList.takeWhile (· != '=')), String.ofList value)
  | [] => none

/-- Whether an argument starts as an option does. -/
def looksLikeOption (argument : String) : Bool :=
  argument.length > 1 && argument.toList.head? == some '-'

/-- Options given by their letters behind one hyphen, and the arguments behind them.  An option
that takes a value takes the letters that follow it, or the next argument. -/
def sortLetters (specs : List OptionSpec) :
    List Char → List String → Except UsageError (List GivenOption × List String)
  | [], rest => .ok ([], rest)
  | c :: cs, rest =>
    match specs.find? (·.letter == some c) with
    | none => .error (.noSuchOption (String.ofList ['-', c]) [])
    | some spec =>
      if spec.takesValue then
        match cs, rest with
        | [], [] => .error (.valueMissing (String.ofList ['-', c]))
        | [], value :: rest => .ok ([⟨spec.name, value⟩], rest)
        | cs, rest => .ok ([⟨spec.name, String.ofList cs⟩], rest)
      else (sortLetters specs cs rest).map fun (given, rest) => (⟨spec.name, ""⟩ :: given, rest)

/-- The options that one argument gives, and the arguments behind them; `rest` are the arguments
that follow it. -/
def sortOption (specs : List OptionSpec) (argument : String) (rest : List String) :
    Except UsageError (List GivenOption × List String) :=
  let (name, value?) :=
    match splitAtEquals? argument with
    | some (name, value) => (name, some value)
    | none => (argument, none)
  match specs.find? (·.name == name), value?, rest with
  | some spec, some value, rest =>
    if spec.takesValue then .ok ([⟨name, value⟩], rest) else .error (.valueUnexpected name)
  | some spec, none, [] =>
    if spec.takesValue then .error (.valueMissing name) else .ok ([⟨name, ""⟩], [])
  | some spec, none, next :: rest =>
    if spec.takesValue then .ok ([⟨name, next⟩], rest) else .ok ([⟨name, ""⟩], next :: rest)
  | none, _, rest =>
    match argument.toList with
    | '-' :: '-' :: _ =>
      .error (.noSuchOption name (Text.closestNames (specs.map OptionSpec.name) name))
    | letters => sortLetters specs (letters.drop 1) rest

theorem length_le_of_sortLetters {specs : List OptionSpec} {cs : List Char}
    {rest left : List String} {given : List GivenOption}
    (h : sortLetters specs cs rest = .ok (given, left)) :
    left.length ≤ rest.length := by
  induction cs generalizing given with
  | nil => simp_all [sortLetters]
  | cons c cs ih =>
    rw [sortLetters] at h
    split at h
    · simp at h
    · split at h
      · split at h
        · simp at h
        · obtain ⟨_, rfl⟩ := by simpa using h
          simp
        · obtain ⟨_, rfl⟩ := by simpa using h
          simp
      · cases hr : sortLetters specs cs rest with
        | error e => simp [hr, Except.map] at h
        | ok found =>
          obtain ⟨given', left'⟩ := found
          simp only [hr, Except.map, Except.ok.injEq, Prod.mk.injEq] at h
          obtain ⟨_, rfl⟩ := h
          exact ih hr

theorem length_le_of_sortOption {specs : List OptionSpec} {argument : String}
    {rest left : List String} {given : List GivenOption}
    (h : sortOption specs argument rest = .ok (given, left)) : left.length ≤ rest.length := by
  unfold sortOption at h
  simp only at h
  split at h
  · split at h
    · obtain ⟨_, rfl⟩ := by simpa using h
      simp
    · simp at h
  · split at h
    · simp at h
    · obtain ⟨_, rfl⟩ := by simpa using h
      simp
  · split at h
    · obtain ⟨_, rfl⟩ := by simpa using h
      simp
    · obtain ⟨_, rfl⟩ := by simpa using h
      simp
  · split at h
    · simp at h
    · exact length_le_of_sortLetters h

/-- The options given, in order, and the other arguments.  Where `interspersed` does not hold,
options end at the first other argument. -/
def sortArguments (specs : List OptionSpec) (interspersed : Bool) (arguments : List String) :
    Except UsageError (List GivenOption × List String) :=
  match arguments with
  | [] => .ok ([], [])
  | "--" :: rest => .ok ([], rest)
  | argument :: rest =>
    if looksLikeOption argument then
      match h : sortOption specs argument rest with
      | .error e => .error e
      | .ok (given, left) =>
        have := length_le_of_sortOption h
        (sortArguments specs interspersed left).map fun (more, others) => (given ++ more, others)
    else if interspersed then
      (sortArguments specs interspersed rest).map fun (given, others) => (given, argument :: others)
    else .ok ([], argument :: rest)
termination_by arguments.length

/-- All values given for an option. -/
def valuesOf (given : List GivenOption) (name : String) : List String :=
  (given.filter (·.name == name)).map GivenOption.value

/-- The last value given for an option. -/
def valueOf? (given : List GivenOption) (name : String) : Option String :=
  (valuesOf given name).getLast?

/-- Whether an option is given. -/
def isGiven (given : List GivenOption) (name : String) : Bool := given.any (·.name == name)

end StyleCascade.CommandLine
