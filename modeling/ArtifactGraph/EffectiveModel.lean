import ArtifactGraph.EffectiveModel.Lineage

/-!
# Effective models

The effective model of a triple is what its POM says once the ancestors, the expressions and the
management are taken into account.  It is built in five steps.

* `inherit` merges the lineage: what is nearer counts.  Dependencies are merged by their keys as
  they are written, before any expression is expanded.
* `interpolate` expands expressions, in the properties first and then, with the expanded
  properties, in the dependencies.
* `importBoms` puts the managed dependencies of other models behind its own, in place of the
  entries that import them.
* `applyManagement` fills what a dependency leaves open.
* `check` refuses a model that cannot be used.

`build` is the whole.  An imported model is built in the same way, so `buildWithin` calls itself;
what bounds it is the room for imports inside imports.
-/

namespace ArtifactGraph

/-- What a POM says in the end. -/
structure EffectiveModel where
  groupId : String := ""
  artifactId : String := ""
  version : String := ""
  packaging : String := ""
  properties : Bindings := []
  dependencies : List ModelDependency := []
  management : List ModelDependency := []
  deriving DecidableEq, Repr

/-- How much is asked of a model. -/
inductive Strictness where
  /-- The model and its dependencies have names. -/
  | minimal
  /-- Every dependency has a version, too, and no expression is left in it. -/
  | strict
  deriving DecidableEq, Repr

namespace EffectiveModel

def gav (e : EffectiveModel) : Gav := ⟨e.groupId, e.artifactId, e.version⟩

/-! ## Inheritance -/

/-- The preferred entries, and behind them those of the fallback whose key none of the preferred
ones has. -/
def mergeByKey (preferred fallback : List ModelDependency) : List ModelDependency :=
  let keys := preferred.map (·.key)
  preferred ++ fallback.filter fun d => !keys.contains d.key

/-- The packaging of a POM that names none. -/
def defaultPackaging : String := "jar"

/-- What a POM makes of the model it inherits. The artifact and the packaging are never inherited;
the group and the version are, from the reference to the parent or else from the parent's model. -/
def inheritFrom (inherited : EffectiveModel) (pom : Pom) : EffectiveModel :=
  { groupId := ((Pom.trimmed pom.groupId).or
      (pom.parent.bind fun p => Pom.trimmed p.groupId)).getD inherited.groupId
    artifactId := (Pom.trimmed pom.artifactId).getD ""
    version := ((Pom.trimmed pom.version).or
      (pom.parent.bind fun p => Pom.trimmed p.version)).getD inherited.version
    packaging := (Pom.trimmed pom.packaging).getD defaultPackaging
    properties := NameMap.extend inherited.properties pom.propertyMap
    dependencies := mergeByKey pom.modelDependencies inherited.dependencies
    management := mergeByKey pom.managedDependencies inherited.management }

/-- The model of a lineage. -/
def inherit : List Pom → EffectiveModel
  | [] => {}
  | pom :: ancestors => inheritFrom (inherit ancestors) pom

/-! ## Expressions -/

/-- The names that stand for the coordinates of the model itself. -/
def ownValues (namespaceName : String) (e : EffectiveModel) : List (String × String) :=
  [(namespaceName ++ ".groupId", e.groupId), (namespaceName ++ ".artifactId", e.artifactId),
    (namespaceName ++ ".version", e.version), (namespaceName ++ ".packaging", e.packaging)]

/-- The names that stand for the parts of the reference to the parent which are there. -/
def parentValues (parent : Pom.Parent) : List (String × String) :=
  [("project.parent.groupId", parent.groupId), ("project.parent.artifactId", parent.artifactId),
    ("project.parent.version", parent.version)].filterMap fun (name, value) =>
      (Pom.trimmed value).map (name, ·)

/-- The names that stand for the model and its parent. -/
def projectValues (e : EffectiveModel) (parent : Option Pom.Parent) : Bindings :=
  NameMap.ofList (ownValues "project" e ++ ownValues "pom" e ++
    match parent with
    | none => []
    | some p => parentValues p)

/-- Expands the texts of properties, in the order of their names. -/
def interpolateProperties (layers : Expression.Layers) :
    Bindings → Except Expression.Fault Bindings
  | [] => .ok []
  | (name, value) :: rest => do
    let expansion ← Expression.interpolate layers value
    let others ← interpolateProperties layers rest
    return (name, expansion) :: others

/-- Expands the texts of a dependency, field by field. -/
def interpolateDependency (layers : Expression.Layers) (d : ModelDependency) :
    Except Expression.Fault ModelDependency := do
  let groupId ← Expression.interpolate layers d.groupId
  let artifactId ← Expression.interpolate layers d.artifactId
  let version ← Expression.interpolateOptional layers d.version
  let classifier ← Expression.interpolateOptional layers d.classifier
  let type ← Expression.interpolateOptional layers d.type
  let scope ← Expression.interpolateOptional layers d.scope
  let optional ← Expression.interpolateOptional layers d.optional
  return { groupId, artifactId, version, classifier, type, scope, optional }

/-- Expands the texts of dependencies in their order. -/
def interpolateDependencies (layers : Expression.Layers) :
    List ModelDependency → Except Expression.Fault (List ModelDependency)
  | [] => .ok []
  | d :: rest => do
    let expanded ← interpolateDependency layers d
    let others ← interpolateDependencies layers rest
    return expanded :: others

/-- Expands the properties, and then with their help the dependencies and the management. The
coordinates and the packaging of the model stay as they are. -/
def interpolate (system : Bindings) (parent : Option Pom.Parent) (e : EffectiveModel) :
    Except Expression.Fault EffectiveModel := do
  let values := projectValues e parent
  let properties ← interpolateProperties [values, e.properties, system] e.properties
  let layers := [values, properties, system]
  let dependencies ← interpolateDependencies layers e.dependencies
  let management ← interpolateDependencies layers e.management
  return { e with properties, dependencies, management }

/-- The model of a lineage with its expressions expanded. -/
def ofLineage (system : Bindings) (lineage : List Pom) :
    Except Expression.Fault EffectiveModel :=
  interpolate system (lineage.head?.bind (·.parent)) (inherit lineage)

/-! ## Imports -/

/-- Whether an entry of the management stands for the management of another model. -/
def isImport (d : ModelDependency) : Bool := d.scope == some "import" && d.type == some "pom"

section

variable {m : Type → Type} [Monad m]

/-- Puts the managed dependencies of the imported models behind those in `managed`, one import
after the other.  The imports between the first request and `importer` are in `importing`; without
a way to build there is no room for another one. -/
def importBoms (build? : Option (Gav → Modeling m EffectiveModel)) (importing : List Gav)
    (importer : Gav) (managed : List ModelDependency) :
    List ModelDependency → Modeling m (List ModelDependency)
  | [] => return managed
  | bom :: rest =>
    match bom.version with
    | none => throw (.importWithoutVersion importer bom.groupId bom.artifactId)
    | some version =>
      let imported : Gav := ⟨bom.groupId, bom.artifactId, version⟩
      if importing.contains imported || imported == importer then throw (.importCycle imported)
      else
        match build? with
        | none => throw (.importsTooDeep importer)
        | some build => do
          let model ← build imported
          importBoms build? importing importer (mergeByKey managed model.management) rest

end

/-! ## Management -/

/-- The entry of the management for a key; the last one, if there are several. -/
def managed? (management : List ModelDependency) (key : ArtifactKey) : Option ModelDependency :=
  management.reverse.find? (·.key == key)

/-- Fills what a dependency leaves open. -/
def fill (management : List ModelDependency) (d : ModelDependency) : ModelDependency :=
  match managed? management d.key with
  | none => d
  | some entry =>
    { d with version := d.version.or entry.version, scope := d.scope.or entry.scope,
             optional := d.optional.or entry.optional }

/-- Fills what the dependencies of a model leave open. -/
def applyManagement (e : EffectiveModel) : EffectiveModel :=
  { e with dependencies := e.dependencies.map (fill e.management) }

/-! ## Check -/

/-- What is wrong with a dependency. -/
def dependencyFault? (gav : Gav) (level : Strictness) (d : ModelDependency) :
    Option ModelFault :=
  if d.groupId.isEmpty || d.artifactId.isEmpty then some (.namelessDependency gav)
  else
    match level with
    | .minimal => none
    | .strict =>
      match d.version with
      | none => some (.versionMissing gav d.groupId d.artifactId)
      | some version =>
        if Text.occurs "$\x7b" version then
          some (.versionUnresolved gav d.groupId d.artifactId version)
        else none

/-- The first thing that is wrong with a model that was asked for under a triple. -/
def fault? (e : EffectiveModel) (gav : Gav) (level : Strictness) : Option ModelFault :=
  if e.groupId.isEmpty then some (.fieldMissing gav .groupId)
  else if e.artifactId.isEmpty then some (.fieldMissing gav .artifactId)
  else if e.version.isEmpty then some (.fieldMissing gav .version)
  else e.dependencies.findSome? (dependencyFault? gav level)

/-- The model, if nothing is wrong with it. -/
def check (e : EffectiveModel) (gav : Gav) (level : Strictness) :
    Except ModelFault EffectiveModel :=
  match e.fault? gav level with
  | some fault => .error fault
  | none => .ok e

/-! ## The whole -/

section

variable {m : Type → Type} [Monad m]

/-- Builds a model, with a way to build the models it imports. -/
def buildWith (fetch : Pom.Fetch m) (system : Bindings)
    (build? : Option (Gav → Modeling m EffectiveModel)) (importing : List Gav)
    (level : Strictness) (gav : Gav) : Modeling m EffectiveModel := do
  let lineage ← Pom.lineage fetch gav
  match ofLineage system lineage with
  | .error fault => throw (.expression gav fault)
  | .ok e =>
    let (imports, own) := e.management.partition isImport
    let management ← importBoms build? importing gav own imports
    ExceptT.mk (pure (({ e with management } : EffectiveModel).applyManagement.check gav level))

/-- Builds the model of a triple, with room for a number of imports inside one another. -/
def buildWithin (fetch : Pom.Fetch m) (system : Bindings) :
    Nat → List Gav → Strictness → Gav → Modeling m EffectiveModel
  | 0, importing, level, gav => buildWith fetch system none importing level gav
  | room + 1, importing, level, gav =>
    buildWith fetch system
      (some fun imported => buildWithin fetch system room (gav :: importing) .minimal imported)
      importing level gav

/-- Builds the effective model of a triple. -/
def build (locate : Locate m) (system : Bindings) (level : Strictness) (gav : Gav) :
    Modeling m EffectiveModel :=
  buildWithin (Pom.fetch locate) system importLimit [] level gav

end

end EffectiveModel

end ArtifactGraph
