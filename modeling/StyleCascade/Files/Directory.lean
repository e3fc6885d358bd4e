import StyleCascade.Files.Path
import StyleCascade.Value.Mapping

/-!
# Files

What can be asked of files, and a directory with given files.

* `FileProblem` — why a file cannot be read.
* `Files` — what can be asked: whether something is at a path, and the bytes of a file.
* `Directory` — the files of a directory, by their paths from there.
* `Place`, `Directory.follow` — a place on the way along a path, and where the way ends.
-/

namespace StyleCascade

/-- Why a file cannot be read. -/
inductive FileProblem where
  /-- Nothing is there. -/
  | notFound
  /-- A directory is there. -/
  | isDirectory
  /-- The path goes on behind a file. -/
  | notADirectory
  /-- The path, or a name on it, is longer than a system takes. -/
  | nameTooLong
  /-- The system gives another reason. -/
  | other (code : Nat) (reason : String)
  deriving Repr, DecidableEq

/-- The number and the wording of a problem. -/
def FileProblem.reason : FileProblem → Nat × String
  | notFound => (2, "No such file or directory")
  | notADirectory => (20, "Not a directory")
  | isDirectory => (21, "Is a directory")
  | nameTooLong => (36, "File name too long")
  | other code reason => (code, reason)

/-- What can be asked of files, by the text of a path. -/
structure Files where
  /-- Whether something is at a path. -/
  present : String → Bool
  /-- The bytes of the file at a path. -/
  read : String → Except FileProblem (List UInt8)

/-- The most bytes of a name on a path. -/
def longestName : Nat := 255

/-- The most bytes of a path. -/
def longestPath : Nat := 4095

/-- What is at a place of a directory. -/
inductive FileEntry where
  /-- A file with its bytes. -/
  | file (bytes : List UInt8)
  /-- A directory. -/
  | directory
  deriving Repr

/-- A place on the way along a path. -/
structure Place where
  /-- Whether the way has left the directory that it is looked at from. -/
  outside : Bool
  /-- The names followed since then, or from the directory. -/
  names : List String
  deriving Repr, DecidableEq

/-- The place that a part of a path leads to.  A part that is empty or a dot leads nowhere else,
and a double dot leads back, in the end out of the directory. -/
def Place.step (place : Place) (part : String) : Place :=
  if part == "" || part == "." then place
  else if part == ".." then ⟨place.outside || place.names.isEmpty, place.names.dropLast⟩
  else ⟨place.outside, place.names ++ [part]⟩

/-- The files of a directory by their paths from there. -/
abbrev Directory := Mapping FileEntry

namespace Directory

/-- What is at the end of a way of names.  A directory that holds something need not be named
itself. -/
def entry? (directory : Directory) (parts : List String) : Option FileEntry :=
  if parts.isEmpty then some .directory
  else
    match directory.get? ("/".intercalate parts) with
    | some entry => some entry
    | none =>
      if directory.names.any fun name => parts.isPrefixOf (partsOf name) then some .directory
      else none

/-- What is at a place.  The places outside of the directory that can be named by double dots are
directories, and nothing else is known there. -/
def entryAt (directory : Directory) (place : Place) : Except FileProblem FileEntry :=
  if place.outside then
    if place.names.isEmpty then .ok .directory else .error .notFound
  else
    match directory.entry? place.names with
    | some entry => .ok entry
    | none => .error .notFound

/-- What is at the end of a way from a place.  Only a directory leads on, to names that are not
too long. -/
def follow (directory : Directory) (place : Place) : List String → Except FileProblem FileEntry
  | [] => directory.entryAt place
  | part :: rest =>
    match directory.entryAt place with
    | .error problem => .error problem
    | .ok (.file _) => .error .notADirectory
    | .ok .directory =>
      if part.utf8ByteSize > longestName then .error .nameTooLong
      else follow directory (place.step part) rest

/-- What is at the path of a text; a path from the root starts outside. -/
def find (directory : Directory) (text : String) : Except FileProblem FileEntry :=
  if text == "" then .error .notFound
  else if text.utf8ByteSize > longestPath then .error .nameTooLong
  else directory.follow ⟨text.toList.head? == some '/', []⟩ (partsOf text)

/-- Whether something is at a path. -/
def present (directory : Directory) (text : String) : Bool := (directory.find text).isOk

/-- The bytes of the file at a path. -/
def read (directory : Directory) (text : String) : Except FileProblem (List UInt8) :=
  match directory.find text with
  | .error problem => .error problem
  | .ok .directory => .error .isDirectory
  | .ok (.file bytes) => .ok bytes

/-- The files of a directory as what can be asked of them. -/
def files (directory : Directory) : Files := ⟨directory.present, directory.read⟩

end Directory

end StyleCascade
