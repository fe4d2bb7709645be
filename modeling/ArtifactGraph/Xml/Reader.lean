import ArtifactGraph.Xml

/-!
# Reading XML

`Xml.readRoot?` reads a document up to the end of its root element, and does not look at what
follows it.  The document has to be well-formed as far as it is read: every tag, comment and
section ends, and an element ends with a tag of its own name.

The rules of markup are the plain ones: a tag ends at the first `>` outside quotes, a comment at
the first `-->`, a section at the first `]]>`, an instruction at the first `?>`, and a document
type declaration at the `>` that balances it.
-/

namespace ArtifactGraph.Xml

/-! ## Markup -/

/-- A piece of markup. -/
inductive Markup where
  | comment
  | instruction
  | doctype
  | cdata (chars : List Char)
  | startTag (name : String) (tagRest : List Char)
  /-- A tag that is start and end at once. -/
  | emptyTag (name : String) (tagRest : List Char)
  | endTag (name : String)

/-- The inside of a tag up to the first `>` outside quotes, and what follows the tag. `read` holds
the characters before, last one first. -/
def tagInside? (quote : Option Char) (read : List Char) :
    List Char → Option (List Char × List Char)
  | [] => none
  | c :: rest =>
    match quote with
    | some q => tagInside? (if c == q then none else some q) (c :: read) rest
    | none =>
      if c == '>' then some (read.reverse, rest)
      else tagInside? (if c == '\x22' || c == '\x27' then some c else none) (c :: read) rest

/-- What stands before the `>` that balances the `<` of a declaration, and what follows it. -/
def balanced? (depth : Nat) (read : List Char) : List Char → Option (List Char × List Char)
  | [] => none
  | c :: rest =>
    if c == '<' then balanced? (depth + 1) (c :: read) rest
    else if c == '>' then
      match depth with
      | 0 => some (read.reverse, rest)
      | d + 1 => balanced? d (c :: read) rest
    else balanced? depth (c :: read) rest

/-- Whether the inside of a declaration says what type the document has. -/
def isDoctype (inside : List Char) : Bool :=
  (inside.take 7).map Char.toUpper == "DOCTYPE".toList && (inside.drop 7).any (!isSpace ·)

/-- A tag of its inside. -/
def tagOf (inside : List Char) : Markup :=
  let split := fun cs =>
    (String.ofList (cs.takeWhile (!isSpace ·)), cs.dropWhile (!isSpace ·))
  match inside.reverse with
  | '/' :: rest =>
    let (name, tagRest) := split rest.reverse
    .emptyTag name tagRest
  | _ =>
    let (name, tagRest) := split inside
    .startTag name tagRest

/-- Reads markup from behind its `<`. -/
def readMarkup? : List Char → Option (Markup × List Char)
  | '!' :: '-' :: '-' :: rest =>
    (Text.breakOn? ['-', '-', '>'] rest).map fun (_, after) => (.comment, after)
  | '!' :: '[' :: 'C' :: 'D' :: 'A' :: 'T' :: 'A' :: '[' :: rest =>
    (Text.breakOn? [']', ']', '>'] rest).map fun (chars, after) => (.cdata chars, after)
  | '!' :: rest =>
    match balanced? 0 [] rest with
    | none => none
    | some (inside, after) => if isDoctype inside then some (.doctype, after) else none
  | '?' :: '>' :: _ => none
  | '?' :: rest =>
    (Text.breakOn? ['?', '>'] rest).map fun (_, after) => (.instruction, after)
  | '/' :: rest =>
    (tagInside? none [] rest).map fun (inside, after) =>
      (.endTag (String.ofList (inside.reverse.dropWhile isSpace).reverse), after)
  | [] => none
  | rest => (tagInside? none [] rest).map fun (inside, after) => (tagOf inside, after)

/-! ## Content -/

/-- Reads the content of an element up to its end tag. `read` holds the nodes so far, last one
first. Each step takes a character at least, so a text's length is fuel enough. -/
def readContent (name : String) : Nat → List Node → List Char → Option (List Node × List Char)
  | 0, _, _ => none
  | n + 1, read, cs =>
    match cs with
    | [] => none
    | '<' :: rest =>
      match readMarkup? rest with
      | none => none
      | some (.comment, after) => readContent name n read after
      | some (.instruction, after) => readContent name n read after
      | some (.doctype, after) => readContent name n (.doctype :: read) after
      | some (.cdata chars, after) => readContent name n (.cdata chars :: read) after
      | some (.endTag e, after) => if e == name then some (read.reverse, after) else none
      | some (.emptyTag e tagRest, after) =>
        readContent name n (.element e tagRest [] :: read) after
      | some (.startTag e tagRest, after) =>
        match readContent e n [] after with
        | none => none
        | some (children, after') =>
          readContent name n (.element e tagRest children :: read) after'
    | _ =>
      readContent name n (.text (cs.takeWhile (· != '<')) :: read) (cs.dropWhile (· != '<'))

/-! ## Documents -/

/-- Reads what comes before the root element, where no text may stand, and the root element. -/
def readProlog : Nat → List Char → Option Element
  | 0, _ => none
  | n + 1, cs =>
    match cs with
    | [] => none
    | '<' :: rest =>
      match readMarkup? rest with
      | none => none
      | some (.comment, after) => readProlog n after
      | some (.instruction, after) => readProlog n after
      | some (.doctype, after) => readProlog n after
      | some (.cdata _, _) => none
      | some (.endTag _, _) => none
      | some (.emptyTag name tagRest, _) => some ⟨name, tagRest, []⟩
      | some (.startTag name tagRest, after) =>
        (readContent name n [] after).map fun (children, _) => ⟨name, tagRest, children⟩
    | _ =>
      if (cs.takeWhile (· != '<')).all isSpace then readProlog n (cs.dropWhile (· != '<'))
      else none

/-- The root element of a document, which may start with a byte order mark. -/
def readRoot? (document : String) : Option Element :=
  match document.toList with
  | '\uFEFF' :: cs => readProlog (cs.length + 1) cs
  | cs => readProlog (cs.length + 1) cs

end ArtifactGraph.Xml
