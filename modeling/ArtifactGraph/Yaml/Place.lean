/-!
# Places in YAML documents

A `Place` is what is left of a text, with the number of its line, its column and the number of bytes
before it.  `Place.next` is the place of the next token.

A line ends at a line feed, a line separator or a paragraph separator; the other line ends of the
format are made line feeds before a text is read.  A tab is white space, but in block style not at
the start of a line, where the column matters.
-/

namespace ArtifactGraph.Yaml

/-! ## Characters -/

/-- A character that may stand in a document. -/
def isReadable (c : Char) : Bool :=
  let n := c.toNat
  n == 9 || n == 10 || n == 13 || (0x20 ≤ n && n ≤ 0x7E) || n == 0x85 ||
    (0xA0 ≤ n && n != 0xFFFE && n != 0xFFFF)

/-- White space inside a line. -/
def isBlank (c : Char) : Bool := c == ' ' || c == '\t'

/-- The end of a line. -/
def isBreak (c : Char) : Bool := c == '\n' || c == '\u2028' || c == '\u2029'

/-- A mark of the byte order, which may stand at the start of a line. -/
def isByteOrderMark (c : Char) : Bool := c == '\uFEFF'

/-- Whether a list of characters begins with white space or is at its end. -/
def atBreak : List Char → Bool
  | [] => true
  | c :: _ => isBlank c || isBreak c

/-- The characters of a document with line feeds for carriage returns and for next lines. -/
def lines : List Char → List Char
  | '\r' :: '\n' :: cs => '\n' :: lines cs
  | '\r' :: cs => '\n' :: lines cs
  | '\u0085' :: cs => '\n' :: lines cs
  | c :: cs => c :: lines cs
  | [] => []

/-! ## Places -/

/-- What is left of a text, and where that is. -/
structure Place where
  line : Nat := 0
  column : Nat := 0
  /-- The number of bytes before the place. -/
  offset : Nat := 0
  rest : List Char

namespace Place

/-- The place behind the first character. -/
def advance (p : Place) : Place :=
  match p.rest with
  | [] => p
  | c :: cs =>
    if isBreak c then ⟨p.line + 1, 0, p.offset + c.utf8Size, cs⟩
    else ⟨p.line, p.column + 1, p.offset + c.utf8Size, cs⟩

/-- The place behind a number of characters. -/
def advanceBy : Nat → Place → Place
  | 0, p => p
  | n + 1, p => advanceBy n p.advance

/-- The place behind the characters of a kind. -/
def passWhile (ok : Char → Bool) (p : Place) : Place := p.advanceBy (p.rest.takeWhile ok).length

/-- Passes the white space on a line. -/
def skipInline (p : Place) : Place := p.passWhile isBlank

/-- The number of characters of white space, line ends and comments at the start of a text. `tabs`
says whether tabs are white space on this line, `atStart` whether the text starts a line, and
`inComment` whether it continues a comment. -/
def spaceCount (inFlow tabs atStart inComment : Bool) : List Char → Nat
  | [] => 0
  | c :: cs =>
    if isBreak c then spaceCount inFlow inFlow true false cs + 1
    else if inComment || c == ' ' || (c == '\t' && tabs) || (isByteOrderMark c && atStart) then
      spaceCount inFlow tabs false inComment cs + 1
    else if c == '#' then spaceCount inFlow tabs false true cs + 1
    else 0

/-- The place of the next token in block style; `tabs` says whether tabs may stand before it on this
line. -/
def next (tabs : Bool) (p : Place) : Place :=
  p.advanceBy (spaceCount false tabs (p.column == 0) false p.rest)

/-- The place of the next token in flow style. -/
def nextInFlow (p : Place) : Place :=
  p.advanceBy (spaceCount true true (p.column == 0) false p.rest)

/-- The greatest number of bytes from the start of a key to its colon. -/
def keyLimit : Nat := 1024

/-- Whether what begins at a place is a key if there is a colon at another one: both are on a line,
and not too far from each other. -/
def isKeyAt (p colon : Place) : Bool :=
  p.line == colon.line && colon.offset ≤ p.offset + keyLimit

/-- Whether a place is at a mark of documents: that between them, or that behind them. -/
def atDocumentMark (p : Place) : Bool :=
  p.column == 0 && (['-', '-', '-'].isPrefixOf p.rest || ['.', '.', '.'].isPrefixOf p.rest) &&
    atBreak (p.rest.drop 3)

end Place

end ArtifactGraph.Yaml
