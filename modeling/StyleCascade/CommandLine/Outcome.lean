import StyleCascade.Cascade.ClassTables
import StyleCascade.LogRecord
import StyleCascade.Text.ControlSequence
import StyleCascade.Theme.Load

/-!
# What a command does

The lines that a command writes, and how it ends.

* `Crash` — an error that no command answers for.
* `Ending` — the exit code, or a crash.
* `Outcome` — the two streams and the ending.
* `shown`, `logLines` — lines for the reader, and lines of the log.
-/

namespace StyleCascade.CommandLine

/-- An error that no command answers for. -/
inductive Crash where
  /-- A theme file gives no definition, and not for a fault that is told as one of the file. -/
  | load (error : LoadError)
  /-- The class tables of a theme are no mapping. -/
  | badTables (reason : NotAMapping)
  deriving Repr, DecidableEq

/-- The wording of a crash. -/
def Crash.message : Crash → String
  | load error => error.message
  | badTables reason => reason.message

/-- How a command ends. -/
inductive Ending where
  /-- With an exit code. -/
  | exit (code : Nat)
  /-- With an error that it does not answer for. -/
  | crash (reason : Crash)
  deriving Repr, DecidableEq

/-- What a command does. -/
structure Outcome where
  /-- The lines on standard output. -/
  output : List String := []
  /-- The lines on standard error. -/
  errors : List String := []
  /-- How it ends. -/
  ending : Ending := .exit 0
  deriving Repr, DecidableEq

/-- The exit code of a command; a crash has the code one. -/
def Outcome.exitCode (outcome : Outcome) : Nat :=
  match outcome.ending with
  | .exit code => code
  | .crash _ => 1

/-- Lines as they are written. -/
def linesText (lines : List String) : String := String.join (lines.map (· ++ "\n"))

/-- Lines for the reader, who is not to be steered by what a theme holds: control sequences are
left out.  The lines of the log keep them. -/
def shown (lines : List String) : List String := lines.map Text.withoutControls

/-- The lines of the log records that are shown: all of them, or the warnings and errors. -/
def logLines (verbose : Bool) (records : List LogRecord) : List String :=
  (records.filter fun r => verbose || LogLevel.warning.rank ≤ r.level.rank).map LogRecord.text

end StyleCascade.CommandLine
