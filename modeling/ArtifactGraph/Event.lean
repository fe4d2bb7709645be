import ArtifactGraph.EffectiveModel.Fault
import ArtifactGraph.Report
import ArtifactGraph.Workspace

/-!
# Events of a run

What a run tells while it goes on.  An `Event` says what happened; `Event.message` is its text, and
`Event.kind` says how it is shown.
-/

namespace ArtifactGraph

/-- Something a run tells. -/
inductive Event where
  /-- A member of the configuration has no meaning. -/
  | settingUnknown (name : String)
  | loading (path : String)
  | loaded (artifacts : Nat)
  /-- The artifact at a position of the graph is looked at. -/
  | examining (position total : Nat) (component : Component)
  /-- The POM of a module has no effective model. -/
  | pomUnresolved (gav : Gav) (fault : ModelFault)
  /-- So many modules have direct dependencies that nobody knows. -/
  | modulesUnresolved (count : Nat)
  /-- So many direct dependencies have no counterpart in the graph. -/
  | recordsMissing (count : Nat)
  | reconciled (artifacts : Nat)
  | rendering (format : OutputFormat)
  | written (path : String)

/-- How an event is shown. -/
inductive EventKind where
  /-- A line on the state of the run, for a user who wants such lines. -/
  | status
  /-- A position on the way through the graph. -/
  | progress
  /-- The line that the work is done. -/
  | completion
  /-- A line that is always shown. -/
  | alert
  /-- A line of the log, from a part of the program, on something that is no trouble. -/
  | note (part : String)
  /-- A line of the log, from a part of the program, on something that may be trouble. -/
  | caution (part : String)
  deriving DecidableEq, Repr

/-- The name of a part of the program in the log. -/
def logPart (name : String) : String := programName ++ "::" ++ name

namespace Event

def kind : Event → EventKind
  | .settingUnknown _ => .caution (logPart "config")
  | .loading _ => .status
  | .loaded _ => .status
  | .examining .. => .progress
  | .pomUnresolved .. => .note (logPart "application::services::pom_model_resolver")
  | .modulesUnresolved _ => .alert
  | .recordsMissing _ => .caution (logPart "application::use_cases::build_application_model")
  | .reconciled _ => .completion
  | .rendering _ => .status
  | .written _ => .alert

def message : Event → String
  | .settingUnknown name => "Unknown config field '" ++ name ++ "' will be ignored."
  | .loading path => "📖 Loading build model from: " ++ path
  | .loaded artifacts => "✅ Detected " ++ toString artifacts ++ " resolved artifact(s)"
  | .examining _ _ component => component.displayName
  | .pomUnresolved gav fault =>
    "Failed to resolve POM for " ++ gav.toText ++ ": " ++ fault.message
  | .modulesUnresolved count =>
    "⚠️  Warning: POM could not be resolved for " ++ toString count ++
      " module(s); their direct dependencies are unknown."
  | .recordsMissing count =>
    toString count ++ " declared dependencies have no counterpart in the resolved graph"
  | .reconciled artifacts =>
    "Reconciled direct dependencies of " ++ toString artifacts ++ " artifact(s)"
  | .rendering format => format.announcement
  | .written path => "✅ Report written to: " ++ path

end Event

end ArtifactGraph
