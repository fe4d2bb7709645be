import ArtifactGraph.Coordinates
import ArtifactGraph.Flags
import ArtifactGraph.ScopePolicy

/-!
# Direct dependencies

A `DirectDependency` is a record of the reconciled model: a declared dependency together with what
is known of its counterpart in the resolved graph.

Whether it is optional is said by a field and by one of the flags.  `withFlags` sets both, and all
else that changes the flags goes through it.
-/

namespace ArtifactGraph

/-- A direct dependency of an artifact. -/
structure DirectDependency where
  groupId : String := ""
  artifactId : String := ""
  classifier : String := defaultClassifier
  type : String := defaultType
  version : Option String := none
  scope : String := Scope.compile.toText
  isOptional : Bool := false
  flags : Flags := Flags.none
  deriving DecidableEq, Repr

namespace DirectDependency

def key (d : DirectDependency) : ArtifactKey := ⟨d.groupId, d.artifactId, d.classifier, d.type⟩

/-- Whether the resolved graph has no counterpart of the dependency. -/
def isMissing (d : DirectDependency) : Bool := d.flags.has .missingFromApplication

/-- The coordinates of the dependency, if its version is known. -/
def coordinates? (d : DirectDependency) : Option Coordinates := d.version.map d.key.withVersion

/-- The dependency with other flags, which say whether it is optional. -/
def withFlags (d : DirectDependency) (flags : Flags) : DirectDependency :=
  { d with isOptional := flags.has .optional, flags }

theorem isOptional_withFlags (d : DirectDependency) (flags : Flags) :
    (d.withFlags flags).isOptional = (d.withFlags flags).flags.has .optional := rfl

/-- Adds flags to those of the dependency. -/
def addFlags (d : DirectDependency) (flags : Flags) : DirectDependency :=
  d.withFlags (d.flags.insert flags)

/-- Says whether the dependency is optional. -/
def setOptional (d : DirectDependency) (optional : Bool) : DirectDependency :=
  d.withFlags (d.flags.put .optional optional)

/-- The record as a JSON object; a version that is not known is left out. -/
def toJson (d : DirectDependency) : Json :=
  .object <|
    [("group_id", .string d.groupId), ("artifact_id", .string d.artifactId),
      ("classifier", .string d.classifier), ("type", .string d.type)] ++
    (match d.version with
      | none => []
      | some v => [("version", .string v)]) ++
    [("scope", .string d.scope), ("optional", .bool d.isOptional), ("flags", d.flags.toJson)]

end DirectDependency

end ArtifactGraph
