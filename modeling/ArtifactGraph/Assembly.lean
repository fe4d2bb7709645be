import ArtifactGraph.Collection

/-!
# Assembling the application model

`assemble` is the work of a run: from the document of the build tool to the reconciled application
model.

1. The project of the application is found and its declarations are collected.
2. The model is seeded (`seed`): the application, and every resolved artifact but the application
   itself, with the flags and edges it was resolved with.
3. The declarations of every resolved artifact are collected (`collectNodes`).
4. The application and then the nodes are reconciled.
-/

namespace ArtifactGraph

/-- What a run counts. -/
structure Statistics where
  /-- Artifacts with known declarations. -/
  collected : Nat
  /-- Modules whose POM has no effective model. -/
  unresolved : Nat
  /-- Artifacts that were reconciled. -/
  reconciled : Nat
  /-- Direct dependencies without a counterpart in the graph. -/
  missing : Nat
  deriving DecidableEq, Repr

/-- The result of a run. -/
structure Assembled where
  model : ApplicationModel
  mode : LaunchMode
  statistics : Statistics
  deriving DecidableEq, Repr

/-- The number of direct dependencies without a counterpart in the graph. -/
def ApplicationModel.missingCount (m : ApplicationModel) : Nat :=
  (m.artifacts.flatMap (·.directDependencies)).countP (·.isMissing)

namespace BuildModel

/-! ## The seeded model -/

/-- The launch mode of a run: the one that is asked for, the one of the document, or the normal
one. -/
def launchModeOf (doc : BuildModel) (requested : Option LaunchMode) : LaunchMode :=
  (requested.or doc.launchMode).getD default

/-- The keys of the direct dependencies of the application: those that the document lists, or else
those that the application declares. -/
def directKeys (doc : BuildModel) (declared : List DeclaredDependency) : List ArtifactKey :=
  doc.applicationDependencies.getD (declared.map (·.key))

/-- The node of a resolved artifact. -/
def nodeOf (direct : List ArtifactKey) (n : ResolvedNode) : ResolvedArtifact :=
  let isProject := match n.component with
    | .project _ => true
    | .module _ => false
  let flags := if isProject then n.flags.add .workspaceModule else n.flags
  { coordinates := n.coordinates,
    flags := if direct.contains n.coordinates.key then flags.add .direct else flags,
    dependencies := n.dependencies }

/-- The application on its own. -/
def applicationOnly (coordinates : Coordinates) : ApplicationModel :=
  { application := { coordinates, flags := .of .workspaceModule } }

/-- Adds the nodes of resolved artifacts; one under the key of the application is left out. -/
def seedNodes (direct : List ArtifactKey) (m : ApplicationModel) (nodes : List ResolvedNode) :
    ApplicationModel :=
  nodes.foldl (fun m n =>
    if m.isApplication n.coordinates.key then m else m.add (nodeOf direct n)) m

/-- The model before anything is reconciled. -/
def seed (doc : BuildModel) (application : Coordinates) (declared : List DeclaredDependency) :
    ApplicationModel :=
  seedNodes (doc.directKeys declared) (applicationOnly application) doc.resolved

/-! ## The run -/

section

variable {m : Type → Type} [Monad m]

/-- Collects the declarations of resolved artifacts, of which the first has this position. -/
def collectNodes (s : Surroundings m) (c : Circumstances) (applicationKey : ArtifactKey)
    (total : Nat) : Nat → Session → List ResolvedNode → m (Except Failure Session)
  | _, session, [] => return .ok session
  | position, session, n :: rest =>
    if applicationKey == n.coordinates.key then
      collectNodes s c applicationKey total (position + 1) session rest
    else do
      s.tell (.examining position total n.component)
      match ← session.collect s c n.component n.coordinates.key with
      | .error e => return .error e
      | .ok session' => collectNodes s c applicationKey total (position + 1) session' rest

/-- The model of a session that is complete, with what there is to count. -/
def conclude (mode : LaunchMode) (session : Session) (seeded : ApplicationModel) : Assembled :=
  let (model, reconciled) :=
    session.reconcileEach mode seeded (seeded.application.key :: seeded.keys)
  { model, mode
    statistics :=
      { collected := session.collectedCount, unresolved := session.unresolvedCount, reconciled,
        missing := model.missingCount } }

/-- Tells what was counted. -/
def tellStatistics (s : Surroundings m) (n : Statistics) : m Unit := do
  if n.unresolved > 0 then s.tell (.modulesUnresolved n.unresolved)
  if n.missing > 0 then s.tell (.recordsMissing n.missing)
  s.tell (.reconciled n.reconciled)

/-- Assembles the application model of a document. -/
def assemble (s : Surroundings m) (policy : ScopePolicy) (requested : Option LaunchMode)
    (doc : BuildModel) : m (Except Failure Assembled) := do
  let mode := doc.launchModeOf requested
  let c : Circumstances := { workspace := doc.workspace, policy, mode }
  match c.project doc.application with
  | .error e => return .error e
  | .ok (_, project) =>
    let key := project.coordinates.key
    match ← Session.collect s c (.project doc.application) key [] with
    | .error e => return .error e
    | .ok session =>
      let seeded := doc.seed project.coordinates ((session.declared? key).getD [])
      match ← collectNodes s c key doc.resolved.length 1 session doc.resolved with
      | .error e => return .error e
      | .ok complete =>
        let result := conclude mode complete seeded
        tellStatistics s result.statistics
        return .ok result

/-- Reads the document of a path and assembles its model. -/
def assembleFrom (s : Surroundings m) (read : String → m (Except Failure BuildModel))
    (policy : ScopePolicy) (requested : Option LaunchMode) (path : String) :
    m (Except Failure Assembled) := do
  s.tell (.loading path)
  match ← read path with
  | .error e => return .error e
  | .ok doc =>
    s.tell (.loaded doc.resolved.length)
    doc.assemble s policy requested

end

end BuildModel

end ArtifactGraph
