import StyleCascade.CommandLine.Options
import StyleCascade.CommandLine.Outcome
import StyleCascade.Json.Printer
import StyleCascade.ThemeHost

/-!
# Commands

What the commands do with a theme file: `validate` tells what checks find, `inspect` shows the
rules, and `resolve` answers one query.
-/

namespace StyleCascade.CommandLine

/-- The work of a command on a definition, or the end where the file gives none. -/
def withDefinition (files : Files) (path : String) (work : Definition → Outcome) : Outcome :=
  match Definition.ofFile files path with
  | .ok definition => work definition
  | .error (.file p fault) =>
    { errors := shown ["Load error: " ++ (LoadError.file p fault).message], ending := .exit 1 }
  | .error e => { ending := .crash (.load e) }

/-! ## Validate -/

/-- The number of findings of a severity. -/
def countOf (severity : Severity) (findings : List Finding) : Nat :=
  findings.countP (·.severity == severity)

/-- A finding with what to do about it. -/
def findingLines (f : Finding) : List String :=
  f.text :: (f.fix.filter (· != "")).toList.map ("  fix: " ++ ·)

/-- The findings in a file, and how many there are of each severity. -/
def validateReport (name : String) (findings : List Finding) : Outcome :=
  if findings.isEmpty then { output := shown ["OK: " ++ name ++ " is valid (0 diagnostics)"] }
  else
    let errors := countOf .error findings
    let summary := "Summary: " ++ toString errors ++ " error(s), " ++
      toString (countOf .warning findings) ++ " warning(s), " ++
      toString (countOf .info findings) ++ " info"
    { output := shown (findings.flatMap findingLines ++ ["", summary])
      ending := .exit (if errors == 0 then 0 else 1) }

/-- Tell what the checks find in a theme file. -/
def validateCommand (files : Files) (path : String) (contexts : List String) : Outcome :=
  withDefinition files path fun definition =>
    validateReport (Path.ofText path).name
      (definition.findings (({} : Config).addContexts contexts))

/-! ## Inspect -/

/-- A text with blanks in front of it up to a width. -/
def padLeft (width : Nat) (s : String) : String := "".pushn ' ' (width - s.length) ++ s

/-- A part of a target with its name, where it is given and not empty. -/
def partText (name : String) (part : Option String) : List String :=
  match part with
  | some value => if value == "" then [] else [name ++ "=" ++ value]
  | none => []

/-- A rule on two lines: its weight, selector and target, and its properties. -/
def ruleLines (rule : Rule) : List String :=
  let target := rule.target
  let attributes := String.join (target.attributes.map AttributeClause.text)
  let parts :=
    ["  " ++ padLeft 3 (toString rule.specificity) ++ "  " ++ rule.selector,
      "component=" ++ target.component] ++ partText "context" target.context ++
    partText "id" target.identifier ++ partText "state" target.state ++
    (if target.attributes.isEmpty then [] else ["attrs=" ++ attributes])
  ["  ".intercalate parts, "       props=" ++ Json.write .line (.ofMapping rule.props)]

/-- Show the rules of a theme file. -/
def inspectCommand (verbose : Bool) (files : Files) (path : String) (contexts : List String) :
    Outcome :=
  withDefinition files path fun definition =>
    let rules := definition.rules (({} : Config).addContexts contexts)
    let name := if definition.name == "" then "(unnamed)" else definition.name
    let displayName :=
      if definition.displayName == "" then [] else ["Name:  " ++ definition.displayName]
    { output := shown (["Theme: " ++ name] ++ displayName ++
        ["Rules: " ++ toString rules.length, ""] ++ rules.flatMap ruleLines)
      errors := logLines verbose (rulesLog definition.overrides.entries) }

/-! ## Resolve -/

/-- One query as the arguments of the command give it. -/
structure ResolveRequest where
  /-- The parts of the query but its element. -/
  query : Query
  /-- The attributes of the element, each as its name, an equals sign and its value. -/
  attributes : List String
  /-- Further known contexts. -/
  knownContexts : List String
  /-- Whether the answer tells which rules it comes from. -/
  debug : Bool

/-- The attributes of an element; the first that is not given as a name and a value is an
error. -/
def readAttributes (attributes : List String) : Except UsageError (Mapping String) :=
  Mapping.ofList <$> attributes.mapM fun text =>
    match splitAtEquals? text with
    | some (name, value) => if name == "" then .error (.badAttribute text) else .ok (name, value)
    | none => .error (.badAttribute text)

/-- Answer one query against a theme file.  `usage` words an error in the arguments. -/
def resolveCommand (verbose : Bool) (files : Files) (path : String) (request : ResolveRequest)
    (usage : UsageError → List String) : Outcome :=
  withDefinition files path fun definition =>
    let config := ({ debug := request.debug } : Config).addContexts request.knownContexts
    let host := ThemeHost.start config
    let reports := logLines verbose (host.loadLog definition)
    let loaded := host.load definition
    match loaded.outcome with
    | .error (.invalid errors) =>
      { errors := reports ++ shown (errors.map Finding.text), ending := .exit 1 }
    | .error (.badTables reason) => { errors := reports, ending := .crash (.badTables reason) }
    | .ok _ =>
      match readAttributes request.attributes with
      | .error e => { errors := reports ++ usage e, ending := .exit 2 }
      | .ok attributes =>
        let element :=
          if request.attributes.isEmpty then none else some (Element.ofAttributes attributes)
        let answer := loaded.host.resolve { request.query with element }
        { output := [Json.write .indented (.ofMapping answer.props)]
          errors := reports ++ logLines verbose answer.log }

end StyleCascade.CommandLine
