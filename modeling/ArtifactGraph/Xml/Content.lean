import ArtifactGraph.Xml

/-!
# The content of elements

The content of an element as its readers see it: a list of `Item`s, texts and elements.

Neighbouring texts and sections run together into one text.  White space at the start of a run is
cut off, and at its end if it ends with a raw text; a run of white space alone is no item.
Sections and characters written as references are not cut.  A document type declaration breaks a
run.

`Element.text?` reads an element that holds a text and nothing else.
-/

namespace ArtifactGraph.Xml

/-! ## Runs of text -/

/-- A piece of a run. -/
inductive Piece where
  | raw (chars : List Char)
  | cdata (chars : List Char)

/-- A run without the white space at its start. -/
def trimRunStart : List Piece → List Piece
  | .raw chars :: rest =>
    match chars.dropWhile isSpace with
    | [] => trimRunStart rest
    | kept => .raw kept :: rest
  | run => run

/-- A run without the white space at its end, if a raw text stands there. -/
def trimRunEnd : List Piece → List Piece
  | [] => []
  | [.raw chars] => [.raw (chars.reverse.dropWhile isSpace).reverse]
  | piece :: rest => piece :: trimRunEnd rest

/-- The text of the pieces of a run, unless a reference in them stands for nothing. -/
def runText? : List Piece → Option (List Char)
  | [] => some []
  | .raw chars :: rest => do
    let resolved ← resolveReferences? chars
    let others ← runText? rest
    return resolved ++ others
  | .cdata chars :: rest => (runText? rest).map (chars ++ ·)

/-! ## Items -/

/-- A text or an element. The text is missing if one of its references stands for nothing. -/
inductive Item where
  | text (resolved : Option String)
  | element (e : Element)

/-- The item of a run, if it is one. -/
def runItem (run : List Piece) : List Item :=
  match trimRunStart run with
  | [] => []
  | kept => [.text ((runText? (trimRunEnd kept)).map String.ofList)]

/-- The items of a content; `run` holds the pieces of the run before it, last one first. -/
def itemsFrom (run : List Piece) : List Node → List Item
  | [] => runItem run.reverse
  | .text raw :: rest => itemsFrom (.raw raw :: run) rest
  | .cdata chars :: rest => itemsFrom (.cdata chars :: run) rest
  | .doctype :: rest => runItem run.reverse ++ itemsFrom [] rest
  | .element name tagRest children :: rest =>
    runItem run.reverse ++ .element ⟨name, tagRest, children⟩ :: itemsFrom [] rest

/-- The items of a content. -/
def items (children : List Node) : List Item := itemsFrom [] children

namespace Element

def items (e : Element) : List Item := Xml.items e.children

/-- The text of an element that holds nothing else. -/
def text? (e : Element) : Option String :=
  match e.items with
  | [] => some ""
  | [.text resolved] => resolved
  | _ => none

end Element

end ArtifactGraph.Xml
