import ArtifactGraph.Report

/-!
# Reports in Markdown

A report in Markdown is a head, the direct dependencies of the application, a table of all
artifacts with the direct dependencies of those that have some, and a table of what is missing if
anything is.

A cell of a table is a text on one line whose bars are escaped (`cell`), so that the bars of a row
are those between its cells.  The words of the head are not cells and are not escaped, but for the
name of the application.
-/

namespace ArtifactGraph.Report

/-! ## Cells and rows -/

/-- A character of a cell. -/
def cellChar (c : Char) : List Char :=
  if c == '|' then ['\\', '|'] else if c == '\n' then [' '] else [c]

/-- A text as the content of a cell. -/
def cell (s : String) : String := String.ofList (s.toList.flatMap cellChar)

/-- A row of cells that are ready. -/
def row (cells : List String) : String := "| " ++ Text.joinWith " | " cells ++ " |\n"

/-- The cell of a list of flags. -/
def flagsCell (flags : List String) : String :=
  if flags.isEmpty then "-" else cell (Text.joinWith ", " flags)

/-- The cell of a version. -/
def versionCell (version : Option String) : String := cell (version.getD "-")

/-! ## Direct dependencies -/

/-- What stands for a direct dependency. -/
def Record.title (r : Record) : String :=
  r.groupId ++ ":" ++ r.artifactId ++ (if r.classifier.isEmpty then "" else ":" ++ r.classifier)

/-- The row of a direct dependency. -/
def Record.row (r : Record) : String :=
  Report.row [cell r.title, versionCell r.version, cell r.scope,
    if r.optional then "yes" else "no", flagsCell r.flags]

/-- The texts of a list one after the other. -/
def concat (lines : List String) : String := Text.joinWith "" lines

/-- The table of a list of direct dependencies. -/
def recordTable (records : List Record) : String :=
  if records.isEmpty then "*No direct dependencies*\n\n"
  else
    "| Dependency | Version | Scope | Optional | Flags |\n" ++
      "|------------|---------|-------|----------|-------|\n" ++
      concat (records.map Record.row) ++ "\n"

/-! ## Artifacts -/

/-- The row of an artifact. -/
def Artifact.row (a : Artifact) : String :=
  Report.row [cell a.groupId ++ ":" ++ cell a.artifactId, cell a.version, flagsCell a.flags,
    toString a.records.length]

/-- The section on the direct dependencies of an artifact. -/
def Artifact.recordSection (a : Artifact) : String :=
  "### Direct dependencies of " ++ cell a.coordinates ++ "\n\n" ++ recordTable a.records

/-- The section on the artifacts apart from the application. -/
def inventory (artifacts : List Artifact) : String :=
  "## Resolved Artifacts\n\n" ++
    if artifacts.isEmpty then "*No resolved dependencies*\n\n"
    else
      "| Artifact | Version | Flags | Direct Dependencies |\n" ++
        "|----------|---------|-------|---------------------|\n" ++
        concat (artifacts.map Artifact.row) ++ "\n" ++
        concat ((artifacts.filter (!·.records.isEmpty)).map Artifact.recordSection)

/-! ## What is missing -/

/-- The name that is looked for among the flags of a record. -/
def missingName : String := "MISSING_FROM_APPLICATION"

/-- Whether a direct dependency has no counterpart in the resolved graph. -/
def Record.isMissing (r : Record) : Bool := r.flags.contains missingName

/-- The direct dependencies without a counterpart, with the artifacts that have them. -/
def missing (r : Report) : List (Artifact × Record) :=
  r.artifacts.flatMap fun a => (a.records.filter (·.isMissing)).map (a, ·)

/-- The row of a missing dependency of an artifact. -/
def missingRow (owner : Artifact) (r : Record) : String :=
  row [cell owner.coordinates, cell r.groupId ++ ":" ++ cell r.artifactId, versionCell r.version]

/-- The section on what is missing. -/
def missingSection (r : Report) : String :=
  if r.missing.isEmpty then ""
  else
    "## Missing From Application\n\n" ++
      "Declared dependencies with no counterpart in the resolved application graph.\n\n" ++
      "| Declared By | Dependency | Version |\n" ++
      "|-------------|------------|---------|\n" ++
      concat (r.missing.map fun (owner, d) => missingRow owner d) ++ "\n"

/-! ## The whole -/

/-- The head of a report. -/
def head (r : Report) : String :=
  "# Application Model: " ++ cell r.application.groupId ++ ":" ++ cell r.application.artifactId ++
    "\n\n" ++
    "- **Version:** " ++ r.application.version ++ "\n" ++
    "- **Launch mode:** " ++ r.metadata.launchMode ++ "\n" ++
    "- **Generated by:** " ++ r.metadata.toolName ++ " " ++ r.metadata.toolVersion ++ " at " ++
    r.metadata.timestamp ++ "\n\n"

/-- A report written in Markdown. -/
def markdownText (r : Report) : String :=
  r.head ++ "## Application Direct Dependencies\n\n" ++ recordTable r.application.records ++
    inventory r.dependencies ++ r.missingSection

end ArtifactGraph.Report
