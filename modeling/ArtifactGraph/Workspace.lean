import ArtifactGraph.Coordinates
import ArtifactGraph.NameMap

/-!
# Workspaces

What the build tool knows of the sources: a `Workspace` is a root build with the builds it
includes, a `Build` has projects, and a `Project` declares dependencies in configurations.

* Paths name projects inside a build; `Project.absolutePath` completes a relative one.
* A `ProjectComponent` names a project across builds, and `Workspace.resolve` finds it.
-/

namespace ArtifactGraph

/-- The path of a root project and of a root build. -/
def rootPath : String := ":"

/-- A dependency as a build script writes it: on a module, or on a project of the same build. -/
inductive Declaration where
  | external (group name : String) (version : Option String)
  | project (path : String)
  deriving DecidableEq, Repr

/-- A project: where it is, its own coordinates, and what it declares in each configuration. -/
structure Project where
  path : String
  group : String
  name : String
  version : String
  configurations : NameMap (List Declaration) := []
  deriving DecidableEq, Repr

/-- A build and its projects. -/
structure Build where
  path : String := rootPath
  projects : List Project := []
  deriving DecidableEq, Repr

/-- The root build and the builds it includes. -/
structure Workspace where
  root : Build
  included : List Build := []
  deriving DecidableEq, Repr

/-- The place of a project in a workspace. -/
structure ProjectComponent where
  buildPath : String := rootPath
  projectPath : String
  deriving DecidableEq, Repr

/-- Where an artifact comes from: a project of the workspace, or a module of a repository. -/
inductive Component where
  | project (component : ProjectComponent)
  | module (gav : Gav)
  deriving DecidableEq, Repr

/-! ## Projects -/

namespace Project

/-- The path that a path written in this project stands for. -/
def absolutePath (p : Project) (path : String) : String :=
  if rootPath.toList.isPrefixOf path.toList then path
  else if p.path == rootPath then rootPath ++ path
  else p.path ++ ":" ++ path

/-- The artifact a project builds. -/
def coordinates (p : Project) : Coordinates :=
  { groupId := p.group, artifactId := p.name, version := p.version }

def configuration? (p : Project) (name : String) : Option (List Declaration) :=
  p.configurations.get? name

end Project

/-- The project of a path; the first one, if several have it. -/
def Build.project? (b : Build) (path : String) : Option Project :=
  b.projects.find? (·.path == path)

/-! ## Components -/

namespace Workspace

/-- The included build of a path; the first one, if several have it. -/
def included? (w : Workspace) (path : String) : Option Build :=
  w.included.find? (·.path == path)

/-- The build and the project that a component names. The root build is asked first, then the first
included build of that path. -/
def resolve (w : Workspace) (c : ProjectComponent) : Option (Build × Project) :=
  let inRoot := if c.buildPath == w.root.path then w.root.project? c.projectPath else none
  match inRoot with
  | some p => some (w.root, p)
  | none =>
    match w.included? c.buildPath with
    | none => none
    | some b => (b.project? c.projectPath).map (b, ·)

end Workspace

/-- How a component is called in messages. -/
def Component.displayName : Component → String
  | .project c =>
    if c.buildPath == rootPath then "project " ++ c.projectPath
    else "project " ++ c.buildPath ++ c.projectPath
  | .module gav => gav.toText

end ArtifactGraph
