import ArtifactGraph.Files.Path

/-!
# Files

`Files` is what a run can do with the files of its surroundings.  Files are read with care:
`Files.readText` takes a regular file only, not one that a link leads to, and none beyond a limit.
-/

namespace ArtifactGraph

/-- What stands at a path. -/
inductive FileStatus where
  /-- A regular file of a size in bytes. -/
  | file (size : Nat)
  | directory
  | link
  /-- A device, a pipe or the like. -/
  | special
  deriving DecidableEq, Repr

/-- What can be done with files. Every step that fails says why. -/
structure Files (m : Type → Type) where
  /-- What stands at a path itself. -/
  status : String → m (Except String FileStatus)
  /-- What stands where a path leads to. -/
  target : String → m (Except String FileStatus)
  /-- The text of a file, wherever it is. -/
  read : String → m (Except String String)
  /-- Writes a file in place of what it held. -/
  write : String → String → m (Except String Unit)

/-- Why a file is not read. -/
inductive FileFault where
  | noStatus (description reason : String)
  | isLink (path : String)
  | notRegular (path : String)
  | tooLarge (path : String) (size limit : Nat)
  | notRead (description reason : String)
  deriving DecidableEq, Repr

namespace FileFault

def message : FileFault → String
  | .noStatus description reason => "Failed to read " ++ description ++ " metadata: " ++ reason
  | .isLink path =>
    "Security: " ++ path ++
      " is a symbolic link. For security reasons, symbolic links are not allowed."
  | .notRegular path => path ++ " is not a regular file"
  | .tooLarge path size limit =>
    "Security: " ++ path ++ " is too large (" ++ toString size ++
      " bytes). Maximum allowed size is " ++ toString limit ++ " bytes."
  | .notRead description reason => "Failed to read " ++ description ++ ": " ++ reason

end FileFault

namespace Files

/-- The size of a regular file. -/
def regularSize (path description : String) (status : Except String FileStatus) :
    Except FileFault Nat :=
  match status with
  | .error reason => .error (.noStatus description reason)
  | .ok .link => .error (.isLink path)
  | .ok (.file size) => .ok size
  | .ok _ => .error (.notRegular path)

/-- Refuses a file beyond a limit. -/
def checkSize (path : String) (size limit : Nat) : Except FileFault Unit :=
  if size > limit then .error (.tooLarge path size limit) else .ok ()

variable {m : Type → Type} [Monad m]

/-- Whether a path leads to something. -/
def «exists» (fs : Files m) (path : String) : m Bool := return (← fs.target path).isOk

/-- Whether a path leads to a directory. -/
def isDirectory (fs : Files m) (path : String) : m Bool := do
  match ← fs.target path with
  | .ok .directory => return true
  | _ => return false

/-- Reads a regular file within a limit. -/
def readText (fs : Files m) (path description : String) (limit : Nat) :
    m (Except FileFault String) := do
  match regularSize path description (← fs.status path) with
  | .error fault => return .error fault
  | .ok size =>
    match checkSize path size limit with
    | .error fault => return .error fault
    | .ok () => return (← fs.read path).mapError (.notRead description)

end Files

end ArtifactGraph
