import ArtifactGraph.Text
import ArtifactGraph.Json.Record

/-!
# Launch modes

How the application is going to be launched.  Only the test mode makes a difference to what is
reconciled.  A mode has three texts: the word a user types, in any case, the name in documents,
and the name in reports.
-/

namespace ArtifactGraph

/-- How an application is launched. -/
inductive LaunchMode where
  | normal
  | test
  | development
  deriving DecidableEq, Repr, Inhabited

namespace LaunchMode

def isTest (m : LaunchMode) : Bool := m == .test

/-- The name of a mode in reports. -/
def toText : LaunchMode → String
  | .normal => "NORMAL"
  | .test => "TEST"
  | .development => "DEVELOPMENT"

/-- The name of a mode in documents. -/
def documentName : LaunchMode → String
  | .normal => "normal"
  | .test => "test"
  | .development => "development"

/-- The mode a user asks for. -/
def parse? (s : String) : Option LaunchMode :=
  if Text.spells s "normal" || Text.spells s "prod" then some .normal
  else if Text.spells s "test" then some .test
  else if Text.spells s "dev" || Text.spells s "development" then some .development
  else none

/-- What is said to a user whose word is no mode. -/
def refusal (s : String) : String :=
  "Invalid launch mode: " ++ s ++ ". Please specify 'normal', 'test' or 'dev'"

/-- Reads the name of a mode in a document. -/
def decode : Json.Decoder LaunchMode :=
  Json.decodeName
    [("normal", .normal), ("test", .test), ("development", .development), ("dev", .development)]

end LaunchMode

end ArtifactGraph
