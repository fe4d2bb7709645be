import ArtifactGraph.DirectDependency

/-!
# Application models

An `ApplicationModel` is the application's own artifact with the resolved artifacts around it, the
nodes.  Nodes are found by their key, which is theirs alone: adding a node under a key that is
taken puts it in the place of the node it replaces.

* `get?` sees the nodes only; `artifact?` sees the application first, so a node under the
  application's own key is hidden from it.
* `update` changes what `artifact?` sees and nothing else.
-/

namespace ArtifactGraph

/-- An artifact of the resolved graph, with its edges and its direct dependencies. -/
structure ResolvedArtifact where
  coordinates : Coordinates
  flags : Flags := Flags.none
  dependencies : List Coordinates := []
  directDependencies : List DirectDependency := []
  deriving DecidableEq, Repr

namespace ResolvedArtifact

def key (a : ResolvedArtifact) : ArtifactKey := a.coordinates.key

def isDirect (a : ResolvedArtifact) : Bool := a.flags.has .direct

/-- Adds flags to those of the artifact. -/
def addFlags (a : ResolvedArtifact) (flags : Flags) : ResolvedArtifact :=
  { a with flags := a.flags.insert flags }

end ResolvedArtifact

/-- The application and the resolved artifacts it is made of. -/
structure ApplicationModel where
  application : ResolvedArtifact
  nodes : List ResolvedArtifact := []
  deriving DecidableEq, Repr

namespace ApplicationModel

/-- Puts a node in the place of the one with its key, or at the end. -/
def addTo (node : ResolvedArtifact) : List ResolvedArtifact → List ResolvedArtifact
  | [] => [node]
  | n :: rest => if n.key = node.key then node :: rest else n :: addTo node rest

/-- Adds a node, in place of the node of its key if there is one. -/
def add (m : ApplicationModel) (node : ResolvedArtifact) : ApplicationModel :=
  { m with nodes := addTo node m.nodes }

def isApplication (m : ApplicationModel) (key : ArtifactKey) : Bool := m.application.key == key

/-- The node of a key. -/
def get? (m : ApplicationModel) (key : ArtifactKey) : Option ResolvedArtifact :=
  m.nodes.find? (·.key == key)

/-- The artifact of a key: the application, or else a node. -/
def artifact? (m : ApplicationModel) (key : ArtifactKey) : Option ResolvedArtifact :=
  if m.isApplication key then some m.application else m.get? key

/-- Changes the first node of a key. -/
def updateNode (key : ArtifactKey) (f : ResolvedArtifact → ResolvedArtifact) :
    List ResolvedArtifact → List ResolvedArtifact
  | [] => []
  | n :: rest => if n.key = key then f n :: rest else n :: updateNode key f rest

/-- Changes the artifact of a key: the application, or else a node. -/
def update (m : ApplicationModel) (key : ArtifactKey) (f : ResolvedArtifact → ResolvedArtifact) :
    ApplicationModel :=
  if m.isApplication key then { m with application := f m.application }
  else { m with nodes := updateNode key f m.nodes }

/-- The keys of the nodes in their order. -/
def keys (m : ApplicationModel) : List ArtifactKey := m.nodes.map (·.key)

/-- The application and then the nodes. -/
def artifacts (m : ApplicationModel) : List ResolvedArtifact := m.application :: m.nodes

end ApplicationModel

end ArtifactGraph
