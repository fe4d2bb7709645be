import ArtifactGraph.ApplicationModel
import ArtifactGraph.DeclaredDependency
import ArtifactGraph.LaunchMode

/-!
# Reconciliation

What an artifact declares is matched with the nodes of the application model by key.  Each
declaration that counts becomes a record, with the version and the flags of its node or with a
flag that says there is none, and the nodes found become the edges of the artifact.

Declarations of the test scope count only where tests are run: for the application and its direct
dependencies in test mode.
-/

namespace ArtifactGraph

/-- The edges and the records of an artifact. -/
structure DirectDependencies where
  dependencies : List Coordinates := []
  directDependencies : List DirectDependency := []
  deriving DecidableEq, Repr

/-- Gives an artifact its edges and records, in place of what it had. -/
def DirectDependencies.applyTo (d : DirectDependencies) (a : ResolvedArtifact) :
    ResolvedArtifact :=
  { a with dependencies := d.dependencies, directDependencies := d.directDependencies }

namespace DeclaredDependency

/-- The record of a declaration before it is matched. -/
def toRecord (d : DeclaredDependency) : DirectDependency :=
  { groupId := d.groupId, artifactId := d.artifactId,
    classifier := d.classifier.getD defaultClassifier, type := d.type.getD defaultType,
    version := d.version, scope := d.scope.getD Scope.compile.toText }

/-- The record of a declaration that is matched with a node, or with none. -/
def matchedRecord (d : DeclaredDependency) (node : Option ResolvedArtifact) : DirectDependency :=
  let record := match node with
    | none => d.toRecord.addFlags (.of .missingFromApplication)
    | some n => { d.toRecord with version := some n.coordinates.version }.addFlags n.flags
  (record.setOptional d.optional).addFlags (.of .direct)

@[simp] theorem key_matchedRecord (d : DeclaredDependency) (node : Option ResolvedArtifact) :
    (d.matchedRecord node).key = d.key := by
  cases node <;> rfl

/-- Whether a declaration counts. -/
def isRetained (d : DeclaredDependency) (retainTest : Bool) : Bool :=
  !d.isTestScoped || retainTest

end DeclaredDependency

namespace ApplicationModel

/-- Whether declarations of the test scope count for an artifact. -/
def retainsTests (m : ApplicationModel) (mode : LaunchMode) (target : ResolvedArtifact) : Bool :=
  mode.isTest && (target.isDirect || m.isApplication target.key)

/-- The edges and records of a list of declarations. -/
def reconcile (m : ApplicationModel) (retainTest : Bool) (declared : List DeclaredDependency) :
    DirectDependencies :=
  let retained := declared.filter (·.isRetained retainTest)
  { dependencies := retained.filterMap fun d =>
      (m.get? d.key).map fun n => d.key.withVersion n.coordinates.version
    directDependencies := retained.map fun d => d.matchedRecord (m.get? d.key) }

end ApplicationModel

end ArtifactGraph
