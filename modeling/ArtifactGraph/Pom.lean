import ArtifactGraph.Coordinates
import ArtifactGraph.NameMap
import ArtifactGraph.Text
import ArtifactGraph.Xml.Fields
import ArtifactGraph.Xml.Reader

/-!
# POMs

A `Pom` is the part of a POM that counts for dependencies, as it is written; elements outside this
part are passed over.  A `ModelDependency` is a dependency of it in a usable form: its texts are
trimmed, and a blank one is as good as none.

`Pom.read?` reads a document.  The elements `dependency` of a list have to follow each other:
comments and white space may stand between them, another text may not, and after another element
no more of them may come.  A field whose element stands for nothing is missing.
-/

namespace ArtifactGraph

/-! ## Dependencies of a model -/

/-- A dependency or a managed dependency of a POM. -/
structure ModelDependency where
  groupId : String
  artifactId : String
  version : Option String := none
  classifier : Option String := none
  type : Option String := none
  scope : Option String := none
  /-- The text that says whether the dependency is optional. -/
  optional : Option String := none
  deriving DecidableEq, Repr

namespace ModelDependency

/-- Whether the dependency is optional: the word `true`, in any case and with blanks around it. -/
def isOptional (d : ModelDependency) : Bool :=
  match d.optional with
  | none => false
  | some s => Text.sameIgnoringCase (Text.trim s) "true"

/-- The key under which management finds the dependency. -/
def key (d : ModelDependency) : ArtifactKey :=
  ⟨d.groupId, d.artifactId, d.classifier.getD defaultClassifier, d.type.getD defaultType⟩

end ModelDependency

/-! ## POMs as written -/

namespace Pom

/-- The reference to the parent of a POM. -/
structure Parent where
  groupId : Option String := none
  artifactId : Option String := none
  version : Option String := none
  deriving DecidableEq, Repr

/-- A dependency as it is written. -/
structure RawDependency where
  groupId : Option String := none
  artifactId : Option String := none
  version : Option String := none
  classifier : Option String := none
  type : Option String := none
  scope : Option String := none
  optional : Option String := none
  deriving DecidableEq, Repr

/-- A text that may be missing, trimmed; a blank one is missing too. -/
def trimmed (s : Option String) : Option String := s.bind Text.nonBlank?

namespace Parent

/-- The triple of the parent, if all of it is there. -/
def gav? (p : Parent) : Option Gav := do
  let groupId ← trimmed p.groupId
  let artifactId ← trimmed p.artifactId
  let version ← trimmed p.version
  return ⟨groupId, artifactId, version⟩

end Parent

/-- The usable form of a dependency. -/
def RawDependency.toModel (d : RawDependency) : ModelDependency :=
  { groupId := (trimmed d.groupId).getD "", artifactId := (trimmed d.artifactId).getD "",
    version := trimmed d.version, classifier := trimmed d.classifier, type := trimmed d.type,
    scope := trimmed d.scope, optional := trimmed d.optional }

end Pom

/-- The part of a POM that counts for dependencies. -/
structure Pom where
  groupId : Option String := none
  artifactId : Option String := none
  version : Option String := none
  packaging : Option String := none
  parent : Option Pom.Parent := none
  properties : Option Bindings := none
  dependencies : Option (List Pom.RawDependency) := none
  /-- The section on management, and the list in it, either of which may be missing. -/
  management : Option (Option (List Pom.RawDependency)) := none
  deriving DecidableEq, Repr

namespace Pom

/-- The properties of a POM. -/
def propertyMap (p : Pom) : Bindings := p.properties.getD []

/-- The dependencies of a POM. -/
def modelDependencies (p : Pom) : List ModelDependency :=
  (p.dependencies.getD []).map RawDependency.toModel

/-- The managed dependencies of a POM. -/
def managedDependencies (p : Pom) : List ModelDependency :=
  (p.management.join.getD []).map RawDependency.toModel

/-- The triple of the parent of a POM, if it names one. -/
def parentGav? (p : Pom) : Option Gav := p.parent.bind Parent.gav?

/-! ## Reading -/

open Xml (Element Item Reading fieldValue localName)
open Xml.Reading (enter leave passOver)

/-- Reads the reference to a parent. -/
def readParent (e : Element) : Reading Parent := do
  let fields ← e.textFields ["groupId", "artifactId", "version"]
  return { groupId := fieldValue fields "groupId", artifactId := fieldValue fields "artifactId",
           version := fieldValue fields "version" }

/-- Reads a dependency. -/
def readDependency (e : Element) : Reading RawDependency := do
  let fields ← e.textFields
    ["groupId", "artifactId", "version", "classifier", "type", "scope", "optional"]
  return { groupId := fieldValue fields "groupId", artifactId := fieldValue fields "artifactId",
           version := fieldValue fields "version", classifier := fieldValue fields "classifier",
           type := fieldValue fields "type", scope := fieldValue fields "scope",
           optional := fieldValue fields "optional" }

/-- The name under which a text directly inside the properties is known. -/
def textProperty : String := "$text"

/-- The name under which an attribute of the properties is known: a mark and the local name, or the
whole name if it declares a namespace. -/
def attributeProperty (name : String) : String :=
  "@" ++ (if Xml.isDeclaration name then name else localName name)

/-- The pairs of the attributes of the properties. -/
def attributeProperties? :
    List (String × List Char) → Option (List (String × String))
  | [] => some []
  | (name, raw) :: rest => do
    let value ← Xml.resolveReferences? raw
    let others ← attributeProperties? rest
    return (attributeProperty name, String.ofList value) :: others

/-- The pairs of the content of the properties. -/
def itemProperties : List Item → Reading (List (String × String))
  | [] => return []
  | .text resolved :: rest => do
    let value ← resolved
    let others ← itemProperties rest
    return (textProperty, value) :: others
  | .element e :: rest => do
    enter e
    let value ← e.text?
    leave
    let others ← itemProperties rest
    return (localName e.name, value) :: others

/-- Reads properties; of a repeated one the last counts. -/
def readProperties (e : Element) : Reading Bindings := do
  let attributes ← e.attributes?
  let fromAttributes ← attributeProperties? attributes
  let fromItems ← itemProperties e.items
  return NameMap.ofList (fromAttributes ++ fromItems)

/-- Where a reader stands in a list of dependencies. -/
inductive ListPlace where
  /-- No dependency was read. -/
  | before
  /-- The last item was a dependency, in an element of this name. -/
  | within (name : String)
  /-- Something else stood behind the last dependency. -/
  | behind

/-- Reads the items of a list of dependencies; `read` holds the dependencies so far, last one
first. -/
def dependenciesOfItems (place : ListPlace) (read : List RawDependency) :
    List Item → Reading (List RawDependency)
  | [] => return read.reverse
  | .text none :: _ => failure
  | .text (some _) :: rest =>
    match place with
    | .within _ => failure
    | _ => dependenciesOfItems place read rest
  | .element e :: rest => do
    enter e
    let follows := match place with
      | .before => localName e.name == "dependency"
      | .within name => e.name == name
      | .behind => false
    if follows then
      let d ← readDependency e
      leave
      dependenciesOfItems (.within e.name) (d :: read) rest
    else if localName e.name == "dependency" then failure
    else
      passOver e
      match place with
      | .before => dependenciesOfItems .before read rest
      | _ => dependenciesOfItems .behind read rest

/-- Reads a list of dependencies. -/
def readDependencies (e : Element) : Reading (List RawDependency) :=
  if e.hasAttributes then dependenciesOfItems .before [] e.items else failure

/-- Reads the section on management. -/
def readManagement (e : Element) : Reading (Option (List RawDependency)) := do
  let fields ← e.fields ["dependencies"] fun _ child => readDependencies child
  return fieldValue fields "dependencies"

/-- The fields of a POM as they are read. -/
inductive Field where
  | text (s : String)
  | parent (p : Parent)
  | properties (m : Bindings)
  | dependencies (ds : List RawDependency)
  | management (ds : Option (List RawDependency))

/-- The names of the elements of a POM that count. -/
def fieldNames : List String :=
  ["groupId", "artifactId", "version", "packaging", "parent", "properties", "dependencies",
    "dependencyManagement"]

/-- Reads the field of a name. -/
def readField (name : String) (e : Element) : Reading Field :=
  match name with
  | "parent" => return .parent (← readParent e)
  | "properties" => return .properties (← readProperties e)
  | "dependencies" => return .dependencies (← readDependencies e)
  | "dependencyManagement" => return .management (← readManagement e)
  | _ => return .text (← e.text?)

/-- A text among the fields of a POM. -/
def textField (fields : List (String × Option Field)) (name : String) : Option String :=
  match fieldValue fields name with
  | some (.text s) => some s
  | _ => none

/-- The POM of the fields read. -/
def ofFields (fields : List (String × Option Field)) : Pom :=
  { groupId := textField fields "groupId"
    artifactId := textField fields "artifactId"
    version := textField fields "version"
    packaging := textField fields "packaging"
    parent := match fieldValue fields "parent" with
      | some (.parent p) => some p
      | _ => none
    properties := match fieldValue fields "properties" with
      | some (.properties m) => some m
      | _ => none
    dependencies := match fieldValue fields "dependencies" with
      | some (.dependencies ds) => some ds
      | _ => none
    management := match fieldValue fields "dependencyManagement" with
      | some (.management ds) => some ds
      | _ => none }

/-- Reads the root element of a POM. Its name does not matter. -/
def readRoot (root : Element) : Reading Pom := do
  enter root
  return ofFields (← root.fields fieldNames readField)

/-- Reads a POM. -/
def read? (document : String) : Option Pom := do
  let root ← Xml.readRoot? document
  let (pom, _) ← (readRoot root).run []
  return pom

end Pom

end ArtifactGraph
