import ArtifactGraph.Expression
import ArtifactGraph.Locator

/-!
# Faults of effective models

A `ModelFault` is a reason why a POM has no effective model, and `ModelFault.message` says it.
Most of them name the POM that was asked for, not the ancestor in which the fault lies.
-/

namespace ArtifactGraph

/-- The longest chain of a POM and its ancestors. -/
def lineageLimit : Nat := 32

/-- The deepest nesting of imports. -/
def importLimit : Nat := 16

/-- A part of the coordinates that every model has. -/
inductive ModelField where
  | groupId
  | artifactId
  | version
  deriving DecidableEq, Repr

def ModelField.toText : ModelField → String
  | .groupId => "groupId"
  | .artifactId => "artifactId"
  | .version => "version"

/-- Why a POM has no effective model. -/
inductive ModelFault where
  | notLocated (fault : LocateFault)
  /-- What was found is no POM. -/
  | unreadable (location : String)
  /-- A POM is its own ancestor. -/
  | parentCycle (gav ancestor : Gav)
  | parentsTooDeep (gav : Gav)
  | expression (gav : Gav) (fault : Expression.Fault)
  | importWithoutVersion (gav : Gav) (groupId artifactId : String)
  /-- A POM imports itself. -/
  | importCycle (imported : Gav)
  | importsTooDeep (gav : Gav)
  | fieldMissing (gav : Gav) (field : ModelField)
  | namelessDependency (gav : Gav)
  | versionMissing (gav : Gav) (groupId artifactId : String)
  /-- A version has an expression without a value. -/
  | versionUnresolved (gav : Gav) (groupId artifactId version : String)

namespace ModelFault

def message : ModelFault → String
  | .notLocated fault => fault.message
  | .unreadable location => "Failed to parse POM " ++ location
  | .parentCycle gav ancestor =>
    "Cycle in parent chain of " ++ gav.toText ++ " at " ++ ancestor.toText
  | .parentsTooDeep gav =>
    "Parent chain of " ++ gav.toText ++ " exceeds " ++ toString lineageLimit ++ " levels"
  | .expression gav fault =>
    "Failed to interpolate POM of " ++ gav.toText ++ ": " ++ fault.message
  | .importWithoutVersion gav groupId artifactId =>
    "Imported BOM " ++ groupId ++ ":" ++ artifactId ++ " in " ++ gav.toText ++ " has no version"
  | .importCycle imported => "Cycle in BOM imports at " ++ imported.toText
  | .importsTooDeep gav => "BOM imports of " ++ gav.toText ++ " nest too deeply"
  | .fieldMissing gav field => "POM of " ++ gav.toText ++ " is missing " ++ field.toText
  | .namelessDependency gav =>
    "POM of " ++ gav.toText ++ " declares a dependency without groupId or artifactId"
  | .versionMissing gav groupId artifactId =>
    "Dependency " ++ groupId ++ ":" ++ artifactId ++ " of " ++ gav.toText ++ " has no version"
  | .versionUnresolved gav groupId artifactId version =>
    "Dependency " ++ groupId ++ ":" ++ artifactId ++ " of " ++ gav.toText ++
      " has unresolved version " ++ version

end ModelFault

end ArtifactGraph
