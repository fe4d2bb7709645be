import ArtifactGraph.BuildModel
import ArtifactGraph.Failure
import ArtifactGraph.Files
import ArtifactGraph.Json.Reader

/-!
# Files of build models

The build tool exports its document to a file, from which a run reads it.
-/

namespace ArtifactGraph.BuildModel

/-- The greatest size of a document, in bytes. -/
def sizeLimit : Nat := 100 * 1024 * 1024

/-- What to do about a document that is not there. -/
def exportHint : String :=
  "Export the build model with the build plugin first, or pass the correct file with --build-model."

/-- The document that is the text of a file. -/
def ofText (path text : String) : Except Failure BuildModel :=
  (Json.decodeText decode text).mapError fun fault => .buildModelUnreadable path fault.message

variable {m : Type → Type} [Monad m]

/-- Reads the document in a file. -/
def load (fs : Files m) (path : String) : m (Except Failure BuildModel) := do
  if !(← fs.exists path) then return .error (.buildModelNotFound path exportHint)
  else
    match ← fs.readText path "build model" sizeLimit with
    | .error fault => return .error (.fileUnreadable path fault.message)
    | .ok text => return ofText path text

end ArtifactGraph.BuildModel
