import ArtifactGraph.ApplicationModel
import ArtifactGraph.LaunchMode

/-!
# Reports

A `Report` shows an application model to the outside.  Everything in it is text: coordinates are
written out, and flags are there by name.

* `Report.ofModel` makes the report of a model, given the `Stamp` of its making.
* `OutputFormat` says in which form a report is written.
-/

namespace ArtifactGraph

/-- The name under which the program runs and reports. -/
def programName : String := "depinfo"

def programVersion : String := "0.4.0"

/-! ## Formats -/

/-- The form of a written report. -/
inductive OutputFormat where
  | json
  | markdown
  deriving DecidableEq, Repr, Inhabited

namespace OutputFormat

def toText : OutputFormat → String
  | .json => "json"
  | .markdown => "markdown"

/-- The format a user asks for. -/
def parse? (s : String) : Option OutputFormat :=
  if Text.spells s "json" then some .json
  else if Text.spells s "markdown" || Text.spells s "md" then some .markdown
  else none

/-- What is said to a user whose word is no format. -/
def refusal (s : String) : String :=
  "Invalid format: " ++ s ++ ". Please specify 'json' or 'markdown'"

/-- What is said while a report is written. -/
def announcement : OutputFormat → String
  | .json => "📝 Rendering JSON application model..."
  | .markdown => "📝 Rendering Markdown application model..."

end OutputFormat

/-! ## Reports -/

namespace Report

/-- When a report was made, and the number that is its own. -/
structure Stamp where
  timestamp : String
  serial : String
  deriving DecidableEq, Repr

/-- What a report says of itself. -/
structure Metadata where
  toolName : String
  toolVersion : String
  timestamp : String
  serial : String
  launchMode : String
  deriving DecidableEq, Repr

/-- A direct dependency in a report. -/
structure Record where
  groupId : String
  artifactId : String
  classifier : String
  type : String
  version : Option String
  scope : String
  optional : Bool
  flags : List String
  deriving DecidableEq, Repr

/-- An artifact in a report. -/
structure Artifact where
  coordinates : String
  groupId : String
  artifactId : String
  version : String
  flags : List String
  dependencies : List String
  records : List Record
  deriving DecidableEq, Repr

end Report

/-- What is reported of an application. -/
structure Report where
  metadata : Report.Metadata
  application : Report.Artifact
  dependencies : List Report.Artifact
  deriving DecidableEq, Repr

namespace Report

/-- The metadata of a report of this program. -/
def Metadata.ofStamp (stamp : Stamp) (mode : LaunchMode) : Metadata :=
  { toolName := programName, toolVersion := programVersion, timestamp := stamp.timestamp,
    serial := stamp.serial, launchMode := mode.toText }

/-- The report of a direct dependency. -/
def Record.ofDependency (d : DirectDependency) : Record :=
  { groupId := d.groupId, artifactId := d.artifactId, classifier := d.classifier, type := d.type,
    version := d.version, scope := d.scope, optional := d.isOptional, flags := d.flags.names }

/-- The report of an artifact. -/
def Artifact.ofResolved (a : ResolvedArtifact) : Artifact :=
  { coordinates := a.coordinates.toText, groupId := a.coordinates.groupId,
    artifactId := a.coordinates.artifactId, version := a.coordinates.version,
    flags := a.flags.names, dependencies := a.dependencies.map (·.toText),
    records := a.directDependencies.map Record.ofDependency }

/-- The report of a model. -/
def ofModel (stamp : Stamp) (mode : LaunchMode) (model : ApplicationModel) : Report :=
  { metadata := .ofStamp stamp mode, application := .ofResolved model.application,
    dependencies := model.nodes.map Artifact.ofResolved }

/-- The application and then the other artifacts. -/
def artifacts (r : Report) : List Artifact := r.application :: r.dependencies

/-- The number of direct dependencies of all artifacts. -/
def recordCount (r : Report) : Nat := (r.artifacts.flatMap (·.records)).length

end Report

end ArtifactGraph
