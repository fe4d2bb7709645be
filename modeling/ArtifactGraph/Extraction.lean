import ArtifactGraph.DeclaredDependency
import ArtifactGraph.Workspace

/-!
# What a project declares

A project declares a dependency by writing it into a configuration; the scope policy says which
configurations count and which scope their declarations have.  `Build.declared` walks the rows
of the policy, not the configurations of the project, so what the policy does not mention is not
even looked at.

A declaration of a project path must name a project of the same build.
-/

namespace ArtifactGraph

/-- A declared path that names no project of the build. -/
structure UnknownProject where
  /-- The path, completed. -/
  path : String
  /-- The path of the project that declares it. -/
  declaredBy : String
  deriving DecidableEq, Repr

namespace Build

/-- The dependency that a declaration of a project stands for, in a scope. -/
def declaredBy (b : Build) (p : Project) (scope : Scope) :
    Declaration → Except UnknownProject DeclaredDependency
  | .external group name version => .ok (.ofBuildScript group name version scope.toText)
  | .project path =>
    let target := p.absolutePath path
    match b.project? target with
    | none => .error ⟨target, p.path⟩
    | some q => .ok (.ofBuildScript q.group q.name (some q.version) scope.toText)

/-- The dependencies of the declarations of a configuration, in their order. -/
def declaredIn (b : Build) (p : Project) (scope : Scope) :
    List Declaration → Except UnknownProject (List DeclaredDependency)
  | [] => .ok []
  | d :: rest =>
    match b.declaredBy p scope d with
    | .error e => .error e
    | .ok dep => (b.declaredIn p scope rest).map (dep :: ·)

/-- The dependencies of all rows of a policy, in the order of the rows. -/
def declaredUnder (b : Build) (p : Project) :
    List (String × Scope) → Except UnknownProject (List DeclaredDependency)
  | [] => .ok []
  | (configuration, scope) :: rest =>
    match b.declaredIn p scope ((p.configuration? configuration).getD []) with
    | .error e => .error e
    | .ok deps => (b.declaredUnder p rest).map (deps ++ ·)

/-- What a project of the build declares: each dependency once, in the order of the policy. -/
def declared (b : Build) (policy : ScopePolicy) (includeTest : Bool) (p : Project) :
    Except UnknownProject (List DeclaredDependency) :=
  (b.declaredUnder p (policy.mappings includeTest)).map firstOccurrences

end Build

end ArtifactGraph
