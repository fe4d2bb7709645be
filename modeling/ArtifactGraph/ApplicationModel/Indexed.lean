import ArtifactGraph.ApplicationModel

/-!
# Application models with an index

An `IndexedModel` is an application model that notes where the node of each key is stored, so that
no list has to be searched.  Nodes are stored in the order in which their keys were added, a node
that is replaced keeps its place, and a position that is noted stays.

* `get?` and `artifact?` read, and `place?` is where an artifact can be changed.
* `view` forgets the index.
-/

namespace ArtifactGraph

/-- The application and its nodes, with the positions of the keys that were added. -/
structure IndexedModel where
  application : ResolvedArtifact
  nodes : List ResolvedArtifact := []
  positions : List (ArtifactKey × Nat) := []
  deriving DecidableEq, Repr

namespace IndexedModel

/-- A place in a model where an artifact is. -/
inductive Place where
  | application
  | node (position : Nat)
  deriving DecidableEq, Repr

/-- The model without its index. -/
def view (m : IndexedModel) : ApplicationModel := { application := m.application, nodes := m.nodes }

/-- The keys of the nodes in their order. -/
def keys (m : IndexedModel) : List ArtifactKey := m.nodes.map (·.key)

/-- The position that is noted for a key. -/
def position? (m : IndexedModel) (key : ArtifactKey) : Option Nat := m.positions.lookup key

/-- Adds a node, in place of the node of its key if there is one. -/
def add (m : IndexedModel) (node : ResolvedArtifact) : IndexedModel :=
  match m.position? node.key with
  | some i => { m with nodes := m.nodes.set i node }
  | none =>
    { m with
      nodes := m.nodes ++ [node]
      positions := (node.key, m.nodes.length) :: m.positions }

def isApplication (m : IndexedModel) (key : ArtifactKey) : Bool := m.application.key == key

/-- The node of a key. -/
def get? (m : IndexedModel) (key : ArtifactKey) : Option ResolvedArtifact :=
  (m.position? key).bind (m.nodes[·]?)

/-- The artifact of a key: the application, or else a node. -/
def artifact? (m : IndexedModel) (key : ArtifactKey) : Option ResolvedArtifact :=
  if m.isApplication key then some m.application else m.get? key

/-- The place of the artifact of a key. -/
def place? (m : IndexedModel) (key : ArtifactKey) : Option Place :=
  if m.isApplication key then some .application else (m.position? key).map .node

/-- The artifact at a place. -/
def at? (m : IndexedModel) : Place → Option ResolvedArtifact
  | .application => some m.application
  | .node i => m.nodes[i]?

/-- Changes the artifact at a place. -/
def modifyAt (m : IndexedModel) (f : ResolvedArtifact → ResolvedArtifact) : Place → IndexedModel
  | .application => { m with application := f m.application }
  | .node i => { m with nodes := m.nodes.modify i f }

/-- Changes the artifact of a key. -/
def update (m : IndexedModel) (key : ArtifactKey) (f : ResolvedArtifact → ResolvedArtifact) :
    IndexedModel :=
  match m.place? key with
  | some place => m.modifyAt f place
  | none => m

end IndexedModel

end ArtifactGraph
