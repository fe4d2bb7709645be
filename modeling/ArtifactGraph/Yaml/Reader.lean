import ArtifactGraph.Yaml.Scalar

/-!
# Reading YAML

`Yaml.read?` reads a document with one value.  It knows block and flow collections, plain scalars on
one line, quoted scalars, comments and the marks around a document; every JSON text is such a
document.  It does not know tags, anchors, aliases, directives and block scalars, and refuses a
document that has them.

A value in block style is read from the column of its first character on: what stands further to the
left belongs to something else.  Every call reads a character or hands the place to a reader of a
more special kind, so a multiple of the length of the text is fuel enough.
-/

namespace ArtifactGraph.Yaml

/-! ## Flow collections -/

mutual
/-- Reads a value inside a flow collection, from its first character on. -/
def flowValue? : Nat → Place → Option (Yaml × Place)
  | 0, _ => none
  | n + 1, p =>
    match p.rest with
    | '[' :: _ => flowItems? n [] p.advance.nextInFlow
    | '\x7b' :: _ => flowEntries? n [] p.advance.nextInFlow
    | _ => scalar? true p

/-- Reads the items of a flow sequence, of which some were read, last one first. -/
def flowItems? : Nat → List Yaml → Place → Option (Yaml × Place)
  | 0, _, _ => none
  | n + 1, read, p =>
    match p.rest with
    | ']' :: _ => some (.sequence read.reverse, p.advance)
    | _ => do
      let (item, q) ← flowValue? n p
      let q := q.nextInFlow
      match q.rest with
      | ',' :: _ => flowItems? n (item :: read) q.advance.nextInFlow
      | ']' :: _ => some (.sequence (item :: read).reverse, q.advance)
      | _ => none

/-- Reads the entries of a flow mapping, of which some were read, last one first. -/
def flowEntries? : Nat → List (Yaml × Yaml) → Place → Option (Yaml × Place)
  | 0, _, _ => none
  | n + 1, read, p =>
    match p.rest with
    | '\x7d' :: _ => some (.mapping read.reverse, p.advance)
    | _ => do
      let (key, q) ← flowValue? n p
      let (value, q) ← flowEntryValue? n p q.nextInFlow
      match q.rest with
      | ',' :: _ => flowEntries? n ((key, value) :: read) q.advance.nextInFlow
      | '\x7d' :: _ => some (.mapping ((key, value) :: read).reverse, q.advance)
      | _ => none

/-- Reads the value of an entry behind its key, which began at the first of the places; without
a colon there is none. -/
def flowEntryValue? : Nat → Place → Place → Option (Yaml × Place)
  | 0, _, _ => none
  | n + 1, key, p =>
    match p.rest with
    | ':' :: _ =>
      if !key.isKeyAt p then none
      else
        let q := p.advance.nextInFlow
        match q.rest with
        | ',' :: _ => some (.empty, q)
        | '\x7d' :: _ => some (.empty, q)
        | _ => do
          let (value, q) ← flowValue? n q
          return (value, q.nextInFlow)
    | _ => some (.empty, p)
end

/-- Whether a place is at a flow collection. -/
def atFlow (p : Place) : Bool := p.rest.head? == some '[' || p.rest.head? == some '\x7b'

/-! ## Block collections -/

/-- Whether a place is at the mark of an item. -/
def atItem (p : Place) : Bool :=
  match p.rest with
  | '-' :: cs => atBreak cs
  | _ => false

/-- Whether nothing but a comment is left on the line of a place. -/
def atLineEnd (p : Place) : Bool :=
  match p.skipInline.rest with
  | [] => true
  | c :: _ => isBreak c || c == '#'

/-- The place behind the colon of a key that began at `key`, if a place is at such a colon. -/
def behindKey? (key p : Place) : Option Place :=
  let q := p.skipInline
  match q.rest with
  | ':' :: cs => if atBreak cs && key.isKeyAt q then some q.advance else none
  | _ => none

/-- Reads the scalar or the flow collection that a place is at. -/
def leaf? (fuel : Nat) (p : Place) : Option (Yaml × Place) :=
  if atFlow p then flowValue? fuel p else scalar? false p

mutual
/-- Reads a value whose first character is in a column from `least` on; if there is none, the value
is empty. `tabs` says whether tabs may stand before it on this line. -/
def blockValue? : Nat → Bool → Nat → Place → Option (Yaml × Place)
  | 0, _, _, _ => none
  | n + 1, tabs, least, p =>
    let q := p.next tabs
    if q.rest.isEmpty || q.atDocumentMark || q.column < least then some (.empty, q)
    else if atItem q then blockItems? n q.column [] q
    else do
      let (first, r) ← leaf? n q
      match behindKey? q r with
      | some _ => blockEntries? n q.column [] q
      | none => if atLineEnd r then some (first, r) else none

/-- Reads the items in a column, of which some were read, last one first. -/
def blockItems? : Nat → Nat → List Yaml → Place → Option (Yaml × Place)
  | 0, _, _, _ => none
  | n + 1, column, read, p => do
    let (item, q) ← blockValue? n false (column + 1) p.advance
    let q := q.next true
    if q.column == column && atItem q && !q.atDocumentMark then
      blockItems? n column (item :: read) q
    else if q.rest.isEmpty || q.column ≤ column then some (.sequence (item :: read).reverse, q)
    else none

/-- Reads the entries in a column, of which some were read, last one first. -/
def blockEntries? : Nat → Nat → List (Yaml × Yaml) → Place → Option (Yaml × Place)
  | 0, _, _, _ => none
  | n + 1, column, read, p => do
    let (key, q) ← leaf? n p
    let q ← behindKey? p q
    let (value, r) ← entryValue? n column q
    let r := r.next true
    let entries := (key, value) :: read
    if r.rest.isEmpty || r.atDocumentMark || r.column < column then
      some (.mapping entries.reverse, r)
    else if r.column == column && !atItem r then blockEntries? n column entries r
    else none

/-- Reads the value of an entry behind its colon. On the line of the key only a leaf may stand;
items of a sequence may stand in the column of the key. -/
def entryValue? : Nat → Nat → Place → Option (Yaml × Place)
  | 0, _, _ => none
  | n + 1, column, p =>
    if atLineEnd p then
      let q := p.next true
      if q.column == column && atItem q && !q.atDocumentMark then blockItems? n column [] q
      else blockValue? n true (column + 1) p
    else do
      let (value, q) ← leaf? n p.skipInline
      if atLineEnd q then some (value, q) else none
end

/-! ## Documents -/

/-- The place behind the mark at the start of a document, if there is one, and whether there is. -/
def behindStart (p : Place) : Place × Bool :=
  let q := p.next false
  if q.atDocumentMark && q.rest.head? == some '-' then (q.advanceBy 3, true) else (p, false)

/-- Whether there is nothing more behind the value of a document. -/
def atEnd (p : Place) : Bool :=
  let q := p.next true
  q.rest.isEmpty ||
    (q.atDocumentMark && q.rest.head? == some '.' && ((q.advanceBy 3).next true).rest.isEmpty)

/-- Reads a document with one value. -/
def read? (document : String) : Option Yaml :=
  let cs := lines document.toList
  if cs.all isReadable then
    let (p, isMarked) := behindStart { rest := cs }
    match blockValue? (8 * cs.length + 8) isMarked 0 p with
    | some (value, p) => if atEnd p then some value else none
    | none => none
  else none

end ArtifactGraph.Yaml
