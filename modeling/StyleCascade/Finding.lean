/-!
# Findings

What a check finds out about a theme.
-/

namespace StyleCascade

/-- How serious a finding is. -/
inductive Severity where
  | error
  | warning
  | info
  deriving Repr, DecidableEq, Inhabited

/-- The name of a severity. -/
def Severity.name : Severity → String
  | error => "ERROR"
  | warning => "WARNING"
  | info => "INFO"

/-- The severity of a given name. -/
def Severity.ofName? (name : String) : Option Severity :=
  [error, warning, info].find? (·.name == name)

/-- One finding about a theme. -/
structure Finding where
  /-- The name of the check that made it. -/
  check : String
  /-- How serious it is. -/
  severity : Severity
  /-- What was found. -/
  message : String
  /-- The selector that it is about. -/
  selector : Option String := none
  /-- What to do about it. -/
  fix : Option String := none
  deriving Repr, DecidableEq, Inhabited

namespace Finding

/-- Whether a finding is an error. -/
def isError (f : Finding) : Bool := f.severity == .error

/-- Whether a finding is a warning. -/
def isWarning (f : Finding) : Bool := f.severity == .warning

/-- A finding on one line. -/
def text (f : Finding) : String :=
  let place :=
    match f.selector with
    | some selector => " [selector=" ++ selector ++ "]"
    | none => ""
  f.severity.name ++ place ++ ": " ++ f.message

end Finding

end StyleCascade
