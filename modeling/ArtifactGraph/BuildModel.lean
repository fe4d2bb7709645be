import ArtifactGraph.Flags
import ArtifactGraph.LaunchMode
import ArtifactGraph.Workspace

/-!
# Build models

The document that the build tool exports: the application, the workspace, and every artifact the
build tool resolved, with its flags and its edges.

The rest of the module reads the parts of the document.  The root build and the included builds
stand beside the other members of the document, so all its members that are not read on the spot
are kept until its end, and then the workspace is made of them.
-/

namespace ArtifactGraph

/-- An artifact as the build tool resolved it. -/
structure ResolvedNode where
  component : Component
  coordinates : Coordinates
  flags : Flags := Flags.none
  dependencies : List Coordinates := []
  deriving DecidableEq, Repr

/-- What the build tool exports. -/
structure BuildModel where
  application : ProjectComponent
  launchMode : Option LaunchMode := none
  workspace : Workspace
  resolved : List ResolvedNode := []
  /-- The direct dependencies of the application, if the build tool lists them. -/
  applicationDependencies : Option (List ArtifactKey) := none
  deriving DecidableEq, Repr

/-! ## Declarations and projects -/

namespace Declaration

/-- Reads the reference to a module. -/
def decodeExternal : Json.Decoder Declaration := fun v => do
  let fields ← Json.recordFields ["group", "name", "version"] Json.skippable
    (fun field v =>
      if field == "version" then Json.decodeOptional Json.decodeString v
      else (Json.decodeString v).map some) v
  let name ← Json.required fields "name"
  return .external (((fields.lookup "group").join).getD "") (name.getD "")
    ((fields.lookup "version").join)

/-- Reads the reference to a project. -/
def decodeProject : Json.Decoder Declaration := fun v => do
  let fields ← Json.textFields ["path"] v
  let path ← Json.required fields "path"
  return .project path

def decode : Json.Decoder Declaration :=
  Json.decodeAlternative [("external", decodeExternal), ("project", decodeProject)]

end Declaration

namespace Project

/-- The fields of a project as they are read. -/
inductive Field where
  | text (s : String)
  | configurations (m : NameMap (List Declaration))

/-- Reads the configurations; of a repeated one the last counts. -/
def decodeConfigurations : Json.Decoder (NameMap (List Declaration))
  | .object members =>
    members.foldlM (fun m (name, v) =>
      (Json.decodeList Declaration.decode v).map (m.insert name ·)) []
  | _ => .error .malformed

def decodeField : String → Json.Decoder Field
  | "configurations", v => (decodeConfigurations v).map .configurations
  | _, v => (Json.decodeString v).map .text

/-- A text among the fields. -/
def text (fields : List (String × Field)) (name : String) : Except DecodeFault String :=
  match fields.lookup name with
  | some (.text s) => .ok s
  | _ => .error .malformed

/-- Reads a project. -/
def decode : Json.Decoder Project := fun v => do
  let fields ← Json.recordFields ["path", "group", "name", "version", "configurations"]
    Json.skippable decodeField v
  let path ← text fields "path"
  let group ← text fields "group"
  let name ← text fields "name"
  let version ← text fields "version"
  let configurations := match fields.lookup "configurations" with
    | some (.configurations m) => m
    | _ => []
  return { path, group, name, version, configurations }

end Project

/-! ## Builds and workspaces -/

namespace Build

/-- The fields of a build as they are read. -/
inductive Field where
  | path (s : String)
  | projects (ps : List Project)

def decodeField : String → Json.Decoder Field
  | "projects", v => (Json.decodeList Project.decode v).map .projects
  | _, v => (Json.decodeString v).map .path

/-- Reads a build. -/
def decode : Json.Decoder Build := fun v => do
  let fields ← Json.recordFields ["build_path", "projects"] Json.skippable decodeField v
  let path := match fields.lookup "build_path" with
    | some (.path s) => s
    | _ => rootPath
  let projects := match fields.lookup "projects" with
    | some (.projects ps) => ps
    | _ => []
  return { path, projects }

end Build

namespace Workspace

/-- The fields of a workspace as they are read. -/
inductive Field where
  | root (b : Build)
  | included (bs : List Build)

def decodeField : String → Json.Decoder Field
  | "root", v => (Build.decode v).map .root
  | _, v => (Json.decodeList Build.decode v).map .included

/-- Reads a workspace. -/
def decode : Json.Decoder Workspace := fun v => do
  let fields ← Json.recordFields ["root", "included_builds"] Json.skippable decodeField v
  let included := match fields.lookup "included_builds" with
    | some (.included bs) => bs
    | _ => []
  match fields.lookup "root" with
  | some (.root root) => return { root, included }
  | _ => throw .malformed

end Workspace

/-! ## Components and resolved nodes -/

/-- Reads the place of a project. -/
def ProjectComponent.decode : Json.Decoder ProjectComponent := fun v => do
  let fields ← Json.textFields ["build_path", "project_path"] v
  let projectPath ← Json.required fields "project_path"
  return { buildPath := (fields.lookup "build_path").getD rootPath, projectPath }

def Component.decode : Json.Decoder Component :=
  Json.decodeAlternative
    [("project", fun v => (ProjectComponent.decode v).map .project),
      ("module", fun v => (Gav.decode v).map .module)]

namespace ResolvedNode

/-- The fields of a resolved node as they are read. -/
inductive Field where
  | component (c : Component)
  | coordinates (c : Coordinates)
  | flags (fs : Flags)
  | dependencies (cs : List Coordinates)

def decodeField : String → Json.Decoder Field
  | "component", v => (Component.decode v).map .component
  | "coords", v => (Coordinates.decode v).map .coordinates
  | "flags", v => (Flags.decode v).map .flags
  | _, v => (Json.decodeList Coordinates.decode v).map .dependencies

/-- Reads a resolved node. -/
def decode : Json.Decoder ResolvedNode := fun v => do
  let fields ← Json.recordFields ["component", "coords", "flags", "dependencies"]
    Json.skippable decodeField v
  let flags := match fields.lookup "flags" with
    | some (.flags fs) => fs
    | _ => Flags.none
  let dependencies := match fields.lookup "dependencies" with
    | some (.dependencies cs) => cs
    | _ => []
  match fields.lookup "component", fields.lookup "coords" with
  | some (.component component), some (.coordinates coordinates) =>
    return { component, coordinates, flags, dependencies }
  | _, _ => throw .malformed

end ResolvedNode

/-! ## The document -/

namespace BuildModel

/-- The members of a document that are read where they stand. -/
inductive Field where
  | application (c : ProjectComponent)
  | launchMode (m : Option LaunchMode)
  | resolved (ns : List ResolvedNode)
  | applicationDependencies (ks : Option (List ArtifactKey))

def decodeField : String → Json.Decoder Field
  | "application", v => (ProjectComponent.decode v).map .application
  | "launch_mode", v => (Json.decodeOptional LaunchMode.decode v).map .launchMode
  | "resolved", v => (Json.decodeList ResolvedNode.decode v).map .resolved
  | _, v =>
    (Json.decodeOptional (Json.decodeList ArtifactKey.decode) v).map .applicationDependencies

/-- How deep arrays and objects may be nested in a member that is kept. -/
def keptDepth : Nat := 126

/-- Reads a document, which has to be an object. -/
def decode : Json.Decoder BuildModel
  | .object members => do
    let fields ← Json.fieldsOfMembers
      ["application", "launch_mode", "resolved", "application_dependencies"]
      (Json.storable keptDepth) decodeField [] members
    let workspace ← Workspace.decode (.object members)
    let launchMode := match fields.lookup "launch_mode" with
      | some (.launchMode m) => m
      | _ => none
    let resolved := match fields.lookup "resolved" with
      | some (.resolved ns) => ns
      | _ => []
    let applicationDependencies := match fields.lookup "application_dependencies" with
      | some (.applicationDependencies ks) => ks
      | _ => none
    match fields.lookup "application" with
    | some (.application application) =>
      return { application, launchMode, workspace, resolved, applicationDependencies }
    | _ => throw .malformed
  | _ => .error .malformed

end BuildModel

end ArtifactGraph
