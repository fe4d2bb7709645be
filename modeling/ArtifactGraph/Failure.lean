/-!
# Failures of a run

A `Failure` is a cause for which a run ends, and `Failure.message` is what the user reads: what
happened, and a hint what to do.  An `ExitCode` is how the run ends.
-/

namespace ArtifactGraph

/-- Why a run ends. -/
inductive Failure where
  /-- A project declares a dependency on a project that does not exist. -/
  | projectNotFound (path declaredBy : String)
  /-- A component names a project that the workspace does not have. -/
  | projectComponentUnresolved (buildPath projectPath : String)
  | buildModelNotFound (path suggestion : String)
  | buildModelUnreadable (path details : String)
  | outputNotWritten (path details : String)
  | fileUnreadable (path details : String)
  /-- A setting of the user contradicts itself. -/
  | invalid (message : String)
  deriving DecidableEq, Repr

namespace Failure

/-- A statement followed by a hint. -/
def withHint (statement hint : String) : String := statement ++ "\n\n💡 Hint: " ++ hint

/-- A statement followed by its details and a hint. -/
def withDetails (statement details hint : String) : String :=
  withHint (statement ++ "\nDetails: " ++ details) hint

/-- What the user reads. -/
def message : Failure → String
  | .projectNotFound path declaredBy =>
    withHint
      ("Failed to find project for dependency: " ++ path ++ " (declared by " ++ declaredBy ++ ")")
      "The build model is inconsistent. Re-export it from the build tool."
  | .projectComponentUnresolved buildPath projectPath =>
    withHint
      ("Failed to resolve project component for project '" ++ projectPath ++ "' in build '" ++
        buildPath ++ "'")
      "Check that every included build is present in the build model."
  | .buildModelNotFound path suggestion =>
    withHint ("Build model file not found: " ++ path) suggestion
  | .buildModelUnreadable path details =>
    withDetails ("Failed to parse build model: " ++ path) details
      "Please verify that the file was exported by a compatible build plugin"
  | .outputNotWritten path details =>
    withDetails ("Failed to write to file: " ++ path) details
      "Please verify that the directory exists and you have write permissions"
  | .fileUnreadable path details =>
    withDetails ("Failed to read file: " ++ path) details
      "Please verify that the file exists and you have read permissions"
  | .invalid message => "Validation error: " ++ message

end Failure

/-- How a run ends. -/
inductive ExitCode where
  | success
  | invalidArguments
  | applicationError
  deriving DecidableEq, Repr

namespace ExitCode

def code : ExitCode → Nat
  | .success => 0
  | .invalidArguments => 2
  | .applicationError => 3

def toText : ExitCode → String
  | .success => "Success (0)"
  | .invalidArguments => "Invalid Arguments (2)"
  | .applicationError => "Application Error (3)"

end ExitCode

end ArtifactGraph
