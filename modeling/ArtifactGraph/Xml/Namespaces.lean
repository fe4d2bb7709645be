import ArtifactGraph.Xml

/-!
# Namespaces

An attribute `xmlns:w` binds the word `w` to a namespace, for names that start with `w:`.  The words
that an element binds are its `Scope`; the scopes of the elements around a place say what a name
means there.

* `Element.scope?` is the scope of an element, unless it binds a word that it may not bind.
* `Element.isNil` says whether an element declares that it stands for nothing.
-/

namespace ArtifactGraph.Xml

/-! ## Declarations -/

/-- The namespace of the word `xml`, to which no other word may be bound. -/
def xmlNamespace : String := "http://www.w3.org/XML/1998/namespace"

/-- The namespace of declarations, to which no word may be bound. -/
def declarationNamespace : String := "http://www.w3.org/2000/xmlns/"

/-- The namespace of the attribute `nil`. -/
def instanceNamespace : String := "http://www.w3.org/2001/XMLSchema-instance"

/-- The word that an attribute of this name binds. -/
def boundWord? (name : String) : Option String :=
  if qualifier? name == some "xmlns" then some (localName name) else none

/-- Whether an attribute of this name declares a namespace, be it that of names without a colon. -/
def isDeclaration (name : String) : Bool := name == "xmlns" || (boundWord? name).isSome

/-- Whether a word may be bound to a namespace. -/
def mayBind (word space : String) : Bool :=
  if word == "xml" then space == xmlNamespace
  else word != "xmlns" && space != xmlNamespace && space != declarationNamespace

/-! ## Scopes -/

/-- The words that an element binds, with their namespaces. The last binding stands first. -/
abbrev Scope := List (String × String)

/-- The scopes that count at a place, the innermost one first. -/
abbrev Scopes := List Scope

/-- The bindings among attributes, with those before them. The look ends at an attribute that is not
well-formed. -/
def bindings? (before : Scope) : List Attribute → Option Scope
  | .quoted name raw :: rest =>
    match boundWord? name with
    | none => bindings? before rest
    | some word =>
      if mayBind word (String.ofList raw) then bindings? ((word, String.ofList raw) :: before) rest
      else none
  | _ => some before

/-- The namespace that a word is bound to. The empty word is never bound. -/
def Scopes.space? (scopes : Scopes) (word : String) : Option String :=
  if word.isEmpty then none else scopes.flatten.lookup word

/-- Whether an attribute says that its element stands for nothing: it is named `nil`, its namespace
is the one of instances, and its value is `true` or `1`, as it is written. -/
def saysNil (scopes : Scopes) (name : String) (raw : List Char) : Bool :=
  localName name == "nil" && (raw == ['t', 'r', 'u', 'e'] || raw == ['1']) &&
    (qualifier? name).any fun word => scopes.space? word == some instanceNamespace

namespace Element

/-- The scope of an element, unless it binds a word that it may not bind. -/
def scope? (e : Element) : Option Scope := bindings? [] e.written

/-- Whether an element declares that it stands for nothing. A fault among its attributes does not
matter, and a repeated one does not count. -/
def isNil (e : Element) (scopes : Scopes) : Bool :=
  (firstPairs [] e.written).any fun (name, raw) => saysNil scopes name raw

end Element

end ArtifactGraph.Xml
