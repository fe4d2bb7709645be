import ArtifactGraph.Json.Printer
import ArtifactGraph.Report

/-!
# Reports in JSON

The members of every record stand in a fixed order.  A classifier that is empty and a version that
is not known are left out.
-/

namespace ArtifactGraph.Report

def Metadata.toJson (d : Metadata) : Json :=
  .object [("tool_name", .string d.toolName), ("tool_version", .string d.toolVersion),
    ("timestamp", .string d.timestamp), ("serial_number", .string d.serial),
    ("launch_mode", .string d.launchMode)]

def Record.toJson (r : Record) : Json :=
  .object <|
    [("group_id", .string r.groupId), ("artifact_id", .string r.artifactId)] ++
    (if r.classifier.isEmpty then [] else [("classifier", .string r.classifier)]) ++
    [("type", .string r.type)] ++
    (match r.version with
      | none => []
      | some v => [("version", .string v)]) ++
    [("scope", .string r.scope), ("optional", .bool r.optional), ("flags", .strings r.flags)]

def Artifact.toJson (a : Artifact) : Json :=
  .object [("coords", .string a.coordinates), ("group_id", .string a.groupId),
    ("artifact_id", .string a.artifactId), ("version", .string a.version),
    ("flags", .strings a.flags), ("dependencies", .strings a.dependencies),
    ("direct_dependencies", .array (a.records.map Record.toJson))]

def toJson (r : Report) : Json :=
  .object [("metadata", r.metadata.toJson), ("application", r.application.toJson),
    ("dependencies", .array (r.dependencies.map Artifact.toJson))]

/-- A report written in JSON. -/
def jsonText (r : Report) : String := r.toJson.pretty

end ArtifactGraph.Report
