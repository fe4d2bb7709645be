import ArtifactGraph.BuildModel
import ArtifactGraph.EffectiveModel
import ArtifactGraph.Event
import ArtifactGraph.Extraction
import ArtifactGraph.Failure
import ArtifactGraph.Reconciliation

/-!
# Collecting declarations

A `Session` is what a run has found out about the artifacts of the graph: for every key it has
looked at, a `Finding`.  The first finding of a key stays, whether it is a list of declarations or
the fact that the POM of a module has no effective model, so nothing is looked at twice.

* `examine` makes the finding of a component.  Trouble with a POM is a finding like another;
  trouble with the workspace ends the run.
* `Session.collect` adds the finding of a key.
* `Session.reconcileOne` uses a finding on the application model.
-/

namespace ArtifactGraph

/-! ## Declarations of a module -/

/-- The declaration that a dependency of an effective model stands for. Here nothing but the version
is left open. -/
def DeclaredDependency.ofModel (d : ModelDependency) : DeclaredDependency :=
  { groupId := d.groupId, artifactId := d.artifactId, version := d.version,
    classifier := some (d.classifier.getD defaultClassifier),
    type := some (d.type.getD defaultType),
    scope := some (d.scope.getD Scope.compile.toText), optional := d.isOptional }

@[simp] theorem DeclaredDependency.key_ofModel (d : ModelDependency) :
    (DeclaredDependency.ofModel d).key = d.key := rfl

/-- What an effective model declares. Dependencies of the test scope are of no concern to those who
use the module. -/
def EffectiveModel.declared (e : EffectiveModel) : List DeclaredDependency :=
  (e.dependencies.filter fun d => d.scope != some Scope.test.toText).map .ofModel

/-- What the run can do and knows of its surroundings. -/
structure Surroundings (m : Type → Type) where
  locate : Locate m
  /-- Values for expressions in POMs. -/
  system : Bindings
  tell : Event → m Unit

section

variable {m : Type → Type} [Monad m]

/-- What the POM of a module declares. -/
def declaredByModule (s : Surroundings m) (gav : Gav) :
    Modeling m (List DeclaredDependency) := do
  let e ← EffectiveModel.build s.locate s.system .minimal gav
  return e.declared

end

/-! ## Declarations of a project -/

/-- What does not change in the course of a run. -/
structure Circumstances where
  workspace : Workspace
  policy : ScopePolicy
  mode : LaunchMode

namespace Circumstances

/-- The build and the project of a component. -/
def project (c : Circumstances) (p : ProjectComponent) : Except Failure (Build × Project) :=
  match c.workspace.resolve p with
  | none => .error (.projectComponentUnresolved p.buildPath p.projectPath)
  | some found => .ok found

/-- What the project of a component declares. -/
def declaredByProject (c : Circumstances) (p : ProjectComponent) :
    Except Failure (List DeclaredDependency) :=
  match c.project p with
  | .error e => .error e
  | .ok (build, project) =>
    match build.declared c.policy c.mode.isTest project with
    | .error fault => .error (.projectNotFound fault.path fault.declaredBy)
    | .ok declared => .ok declared

end Circumstances

/-! ## Findings -/

/-- What was found out about an artifact. -/
inductive Finding where
  | declared (dependencies : List DeclaredDependency)
  /-- Its POM has no effective model. -/
  | unresolved
  deriving DecidableEq, Repr

namespace Finding

/-- The declarations, if there are any to know. -/
def dependencies? : Finding → Option (List DeclaredDependency)
  | .declared dependencies => some dependencies
  | .unresolved => none

end Finding

section

variable {m : Type → Type} [Monad m]

/-- Finds out what a component declares. -/
def examine (s : Surroundings m) (c : Circumstances) : Component → m (Except Failure Finding)
  | .project p => return (c.declaredByProject p).map .declared
  | .module gav => do
    match ← (declaredByModule s gav).run with
    | .ok declared => return .ok (.declared declared)
    | .error fault =>
      s.tell (.pomUnresolved gav fault)
      return .ok .unresolved

end

/-! ## Sessions -/

/-- The findings of a run, the latest first, at most one for each key. -/
abbrev Session := List (ArtifactKey × Finding)

namespace Session

/-- What was found out about a key. -/
def finding? (session : Session) (key : ArtifactKey) : Option Finding := session.lookup key

/-- The declarations found for a key. -/
def declared? (session : Session) (key : ArtifactKey) : Option (List DeclaredDependency) :=
  (session.finding? key).bind Finding.dependencies?

/-- Whether a key was looked at. -/
def isCollected (session : Session) (key : ArtifactKey) : Bool := (session.finding? key).isSome

/-- The number of keys with declarations. -/
def collectedCount (session : Session) : Nat :=
  session.countP fun entry => entry.2.dependencies?.isSome

/-- The number of keys without. -/
def unresolvedCount (session : Session) : Nat :=
  session.countP fun entry => entry.2.dependencies?.isNone

section

variable {m : Type → Type} [Monad m]

/-- Looks at a component for a key, unless that was done for the key before. -/
def collect (s : Surroundings m) (c : Circumstances) (component : Component) (key : ArtifactKey)
    (session : Session) : m (Except Failure Session) :=
  if session.isCollected key then return .ok session
  else do
    match ← examine s c component with
    | .error e => return .error e
    | .ok finding => return .ok ((key, finding) :: session)

end

/-! ## Use of the findings -/

/-- The model with the declarations of a key reconciled, if there are any for the key and the model
has it. -/
def reconcileOne (session : Session) (mode : LaunchMode) (model : ApplicationModel)
    (key : ArtifactKey) : Option ApplicationModel :=
  match session.declared? key, model.artifact? key with
  | some declared, some target =>
    some (model.update key
      (model.reconcile (model.retainsTests mode target) declared).applyTo)
  | _, _ => none

/-- The model with the declarations of several keys reconciled one after the other, and the number
of those for which that could be done. -/
def reconcileEach (session : Session) (mode : LaunchMode) :
    ApplicationModel → List ArtifactKey → ApplicationModel × Nat
  | model, [] => (model, 0)
  | model, key :: rest =>
    match session.reconcileOne mode model key with
    | none => session.reconcileEach mode model rest
    | some changed =>
      let (result, count) := session.reconcileEach mode changed rest
      (result, count + 1)

end Session

end ArtifactGraph
