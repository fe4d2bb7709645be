import ArtifactGraph.Failure
import ArtifactGraph.Files
import ArtifactGraph.Report.Json
import ArtifactGraph.Report.Markdown

/-!
# Written reports

A report is written in the format that is asked for.  It goes to a file or to the standard output: a
file is not written through a link, and the directory it is in has to be there.
-/

namespace ArtifactGraph.Report

/-- A report in a format. -/
def text (r : Report) : OutputFormat → String
  | .json => r.jsonText
  | .markdown => r.markdownText

/-- A text that ends in a line end. -/
def closed (text : String) : String :=
  if text.toList.getLast? == some '\n' then text else text ++ "\n"

/-- Why a report cannot be written to what stands at a path. -/
def statusFault? : Except String FileStatus → Option String
  | .ok .link =>
    some ("Security: Output path is a symbolic link. " ++
      "Writing through symbolic links is not allowed.")
  | .ok .directory => some "Output path is a directory"
  | _ => none

variable {m : Type → Type} [Monad m]

/-- Why there is no place for a file, if its directory is not there. -/
def directoryFault? (fs : Files m) (path : String) : m (Option String) :=
  match FilePath.parent? path with
  | none => return none
  | some directory => do
    if directory.isEmpty || (← fs.isDirectory directory) then return none
    else return some ("Parent directory does not exist: " ++ directory)

/-- Writes a report to a file. -/
def writeTo (fs : Files m) (path text : String) : m (Except Failure Unit) := do
  match ← directoryFault? fs path with
  | some details => return .error (.outputNotWritten path details)
  | none =>
    match statusFault? (← fs.status path) with
    | some details => return .error (.outputNotWritten path details)
    | none => return (← fs.write path text).mapError (.outputNotWritten path)

end ArtifactGraph.Report
