import ArtifactGraph.Json.Record

/-!
# Coordinates of artifacts

Three ways to name an artifact.

* `ArtifactKey` names it apart from its version; keys are ordered field by field.
* `Coordinates` is a key with a version.
* `Gav` is the triple under which the POM of a module is found.

Each has a text with colons and a form as a JSON record, whose classifier may be left out when it
is empty and whose type may be left out when it is `jar`.
-/

namespace ArtifactGraph

/-- The classifier of an artifact that names none. -/
def defaultClassifier : String := ""

/-- The type of an artifact that names none. -/
def defaultType : String := "jar"

/-- The identity of an artifact whatever its version. -/
structure ArtifactKey where
  groupId : String
  artifactId : String
  classifier : String := defaultClassifier
  type : String := defaultType
  deriving DecidableEq, Repr, Inhabited

/-- Group, artifact and version: what a POM is found under. -/
structure Gav where
  groupId : String
  artifactId : String
  version : String
  deriving DecidableEq, Repr, Inhabited

/-- An artifact key and a version. -/
structure Coordinates where
  groupId : String
  artifactId : String
  classifier : String := defaultClassifier
  type : String := defaultType
  version : String
  deriving DecidableEq, Repr, Inhabited

/-! ## Conversions and texts -/

namespace ArtifactKey

/-- The text of a key: an empty classifier is left out. -/
def toText (k : ArtifactKey) : String :=
  if k.classifier.isEmpty then k.groupId ++ ":" ++ k.artifactId ++ ":" ++ k.type
  else k.groupId ++ ":" ++ k.artifactId ++ ":" ++ k.classifier ++ ":" ++ k.type

/-- The order of keys: by group, artifact, classifier and type, each by its code points. -/
def compareTo (k l : ArtifactKey) : Ordering :=
  compare k.groupId l.groupId |>.then (compare k.artifactId l.artifactId)
    |>.then (compare k.classifier l.classifier) |>.then (compare k.type l.type)

/-- The coordinates of a version. -/
def withVersion (k : ArtifactKey) (version : String) : Coordinates :=
  { groupId := k.groupId, artifactId := k.artifactId, classifier := k.classifier, type := k.type,
    version := version }

end ArtifactKey

namespace Gav

def toText (g : Gav) : String := g.groupId ++ ":" ++ g.artifactId ++ ":" ++ g.version

end Gav

namespace Coordinates

/-- The text of coordinates: an empty classifier keeps its place. -/
def toText (c : Coordinates) : String :=
  c.groupId ++ ":" ++ c.artifactId ++ ":" ++ c.classifier ++ ":" ++ c.type ++ ":" ++ c.version

def key (c : Coordinates) : ArtifactKey := ⟨c.groupId, c.artifactId, c.classifier, c.type⟩

def gav (c : Coordinates) : Gav := ⟨c.groupId, c.artifactId, c.version⟩

@[simp] theorem key_withVersion (k : ArtifactKey) (v : String) : (k.withVersion v).key = k := rfl

@[simp] theorem withVersion_key (c : Coordinates) : c.key.withVersion c.version = c := rfl

end Coordinates

/-! ## JSON records -/

namespace Json

/-- Decodes a record of strings. -/
def textFields (names : List String) (v : Json) : Except DecodeFault (List (String × String)) :=
  recordFields names skippable (fun _ => decodeString) v

end Json

namespace ArtifactKey

def toJson (k : ArtifactKey) : Json :=
  .object [("group_id", .string k.groupId), ("artifact_id", .string k.artifactId),
    ("classifier", .string k.classifier), ("type", .string k.type)]

/-- Reads a key. -/
def decode : Json.Decoder ArtifactKey := fun v => do
  let fields ← Json.textFields ["group_id", "artifact_id", "classifier", "type"] v
  let groupId ← Json.required fields "group_id"
  let artifactId ← Json.required fields "artifact_id"
  return { groupId, artifactId,
           classifier := (fields.lookup "classifier").getD defaultClassifier,
           type := (fields.lookup "type").getD defaultType }

end ArtifactKey

namespace Coordinates

def toJson (c : Coordinates) : Json :=
  .object [("group_id", .string c.groupId), ("artifact_id", .string c.artifactId),
    ("classifier", .string c.classifier), ("type", .string c.type), ("version", .string c.version)]

/-- Reads coordinates. -/
def decode : Json.Decoder Coordinates := fun v => do
  let fields ← Json.textFields ["group_id", "artifact_id", "classifier", "type", "version"] v
  let groupId ← Json.required fields "group_id"
  let artifactId ← Json.required fields "artifact_id"
  let version ← Json.required fields "version"
  return { groupId, artifactId, version,
           classifier := (fields.lookup "classifier").getD defaultClassifier,
           type := (fields.lookup "type").getD defaultType }

end Coordinates

namespace Gav

def toJson (g : Gav) : Json :=
  .object [("group_id", .string g.groupId), ("artifact_id", .string g.artifactId),
    ("version", .string g.version)]

/-- Reads a triple. -/
def decode : Json.Decoder Gav := fun v => do
  let fields ← Json.textFields ["group_id", "artifact_id", "version"] v
  let groupId ← Json.required fields "group_id"
  let artifactId ← Json.required fields "artifact_id"
  let version ← Json.required fields "version"
  return { groupId, artifactId, version }

end Gav

end ArtifactGraph
