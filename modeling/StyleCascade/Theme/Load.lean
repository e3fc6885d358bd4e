import StyleCascade.Files.Directory
import StyleCascade.Json.Reader
import StyleCascade.Text.Quoted
import StyleCascade.Text.Utf8
import StyleCascade.Theme.Definition

/-!
# Theme files

A definition from a file in JSON.

* `LoadError` — why a file gives no definition; `LoadError.message` words it.
* `Definition.ofBytes`, `Definition.ofFile` — the definition of a file.
-/

namespace StyleCascade

/-- What is wrong with a theme file. -/
inductive FileFault where
  /-- It cannot be read. -/
  | unreadable (problem : FileProblem)
  /-- It is no JSON; the wording tells why and where. -/
  | malformed (reason : String)
  /-- It holds another value than a mapping. -/
  | notAnObject
  deriving Repr, DecidableEq

/-- Why a path gives no definition. -/
inductive LoadError where
  /-- Something is wrong with the file at the path. -/
  | file (path : Path) (fault : FileFault)
  /-- The path holds a null character, which no system takes. -/
  | nullInPath
  /-- Its bytes are no UTF-8. -/
  | undecodable (fault : Text.Utf8Fault)
  /-- It holds a whole number with too many digits. -/
  | tooManyDigits (count : Nat)
  deriving Repr, DecidableEq

/-- The wording of a fault in the file at a path. -/
def FileFault.message (path : Path) : FileFault → String
  | unreadable problem =>
    let (code, reason) := problem.reason
    "[Errno " ++ toString code ++ "] " ++ reason ++ ": " ++ Text.quoted path.text
  | malformed reason => reason
  | notAnObject => "expected a JSON object at top level"

/-- The wording of an error.  A fault in the file is told with the name of the file. -/
def LoadError.message : LoadError → String
  | file path fault => path.name ++ ": " ++ fault.message path
  | nullInPath => "embedded null byte"
  | undecodable fault => fault.message
  | tooManyDigits count => (Json.Problem.tooManyDigits count).text

/-- Whether a path holds a null character. -/
def holdsNull (path : String) : Bool := path.toList.contains '\x00'

/-- The definition that the bytes of the file at a path give. -/
def Definition.ofBytes (path : Path) (bytes : List UInt8) : Except LoadError Definition := do
  let chars ← (Text.decode bytes).mapError .undecodable
  let text := Text.unifyLineEnds chars
  match Json.read text with
  | .error ⟨.tooManyDigits count, _⟩ => .error (.tooManyDigits count)
  | .error fault => .error (.file path (.malformed (fault.message text)))
  | .ok value =>
    match value.asMapping? with
    | some data => return .ofMapping data
    | none => .error (.file path .notAnObject)

/-- The definition of the file at a path. -/
def Definition.ofFile (files : Files) (text : String) : Except LoadError Definition := do
  if holdsNull text then throw .nullInPath
  let path := Path.ofText text
  let bytes ← (files.read path.text).mapError fun problem => .file path (.unreadable problem)
  Definition.ofBytes path bytes

end StyleCascade
