import ArtifactGraph.Xml.Content
import ArtifactGraph.Xml.Namespaces

/-!
# Reading elements

A `Reading` goes through a document from front to back and knows the scopes that count where it
stands; it fails at the first fault.  `enter` makes the scope of an element count, `leave` ends the
innermost one, and `passOver` does not look into an element.

`Element.fields` reads an element whose children are fields, each at most once.  A field that
stands for nothing is passed over and has no value.
-/

namespace ArtifactGraph.Xml

/-- A step through a document. -/
abbrev Reading := StateT Scopes Option

namespace Reading

/-- Makes the scope of an element count. -/
def enter (e : Element) : Reading Unit := do
  let scope ← e.scope?
  modify (scope :: ·)

/-- Ends the innermost scope. -/
def leave : Reading Unit := modify List.tail

/-- Passes over an element in front of others, of which the next one is entered if it is an element.
A text at its start is read, so its references have to stand for something; of the elements in it
the first one is entered, and so is what begins there. What was entered and not left by then stays,
as nobody sees how the elements end. -/
def passOver (e : Element) : Reading Unit :=
  match e.items with
  | [] => leave
  | [.text (some _)] => leave
  | .text none :: _ => failure
  | .text (some _) :: .text _ :: _ => return ()
  | .text (some _) :: .element next :: _ => enter next
  | .element first :: rest => do
    enter first
    match first.items with
    | [] => leave
    | .text _ :: _ => pure ()
    | .element inner :: _ => enter inner
    match rest with
    | [] => leave
    | .text _ :: _ => pure ()
    | .element next :: _ => enter next

/-- The scopes that count when an element that was entered is looked at: where an element begins in
it, that one is in view too. -/
def inView (e : Element) : Reading Scopes := do
  match e.items with
  | .element first :: _ => return (← first.scope?) :: (← get)
  | _ => get

/-- Whether a field stands for nothing: it says so itself, or the element says so that it is a field
of. -/
def isNil (owner field : Element) : Reading Bool := do
  let scopes ← inView field
  return owner.isNil scopes || field.isNil scopes

end Reading

/-! ## Fields -/

open Reading (enter leave passOver)

/-- Reads the items of an element whose children are fields of the given local names. A field that
is repeated is a fault; other elements and texts are passed over. `seen` holds the fields so far. -/
def fieldsOfItems {α : Type} (owner : Element) (names : List String)
    (read : String → Element → Reading α) (seen : List (String × Option α)) :
    List Item → Reading (List (String × Option α))
  | [] => return seen
  | .text none :: _ => failure
  | .text (some _) :: rest => fieldsOfItems owner names read seen rest
  | .element e :: rest => do
    enter e
    let name := localName e.name
    if names.contains name then
      if (seen.lookup name).isSome then failure
      else if ← Reading.isNil owner e then
        passOver e
        fieldsOfItems owner names read (seen ++ [(name, none)]) rest
      else
        let a ← read name e
        leave
        fieldsOfItems owner names read (seen ++ [(name, some a)]) rest
    else
      passOver e
      fieldsOfItems owner names read seen rest

namespace Element

/-- Whether the attributes of an element are well-formed. -/
def hasAttributes (e : Element) : Bool := e.attributes?.isSome

/-- Reads an element that was entered and whose children are fields. A field has no value if it
stands for nothing. -/
def fields {α : Type} (e : Element) (names : List String) (read : String → Element → Reading α) :
    Reading (List (String × Option α)) :=
  if e.hasAttributes then fieldsOfItems e names read [] e.items else failure

/-- Reads an element whose children are fields that hold texts. -/
def textFields (e : Element) (names : List String) : Reading (List (String × Option String)) :=
  e.fields names fun _ child => child.text?

end Element

/-- The value of a field, if it is there and stands for something. -/
def fieldValue {α : Type} (fields : List (String × Option α)) (name : String) : Option α :=
  (fields.lookup name).join

end ArtifactGraph.Xml
