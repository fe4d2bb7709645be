import ArtifactGraph.Text.Digits
import ArtifactGraph.Yaml
import ArtifactGraph.Yaml.Place

/-!
# YAML scalars

Reading the scalars of YAML: plain ones on one line, and those in quotes.

White space inside quotes stands for itself unless it holds a line end.  Then its blanks do not
count, and neither does a line feed that comes first; alone that one is a space.
-/

namespace ArtifactGraph.Yaml

/-! ## Plain scalars -/

/-- A character that has a meaning inside a flow collection. -/
def isFlowMark (c : Char) : Bool := [',', '[', ']', '\x7b', '\x7d'].contains c

/-- A character with which a plain scalar cannot begin. -/
def isIndicator (c : Char) : Bool :=
  isFlowMark c || isBlank c || isBreak c ||
    ['#', '&', '*', '!', '|', '>', '\x27', '\x22', '%', '@', '\x60'].contains c

/-- Whether a colon in front of these characters ends a key: white space or the end follows, or in
a flow collection a mark of it. -/
def endsKey (inFlow : Bool) (cs : List Char) : Bool :=
  atBreak cs || (inFlow && (cs.head?.map isFlowMark).getD false)

/-- The characters of a plain scalar on a line, with the white space behind it; `before` is the
character before them. -/
def plainChars (inFlow : Bool) (before : Option Char) : List Char → List Char
  | [] => []
  | c :: cs =>
    if isBreak c || (c == ':' && endsKey inFlow cs) || (inFlow && isFlowMark c) ||
        (c == '#' && before.any isBlank) then []
    else c :: plainChars inFlow (some c) cs

/-- Reads a plain scalar. -/
def plainScalar? (inFlow : Bool) (p : Place) : Option (Yaml × Place) :=
  match p.rest with
  | [] => none
  | c :: cs =>
    let bad := isIndicator c || ((c == '-' || c == '?' || c == ':') && endsKey inFlow cs)
    if bad then none
    else
      let chars := plainChars inFlow none p.rest
      some (.scalar (String.ofList (chars.reverse.dropWhile isBlank).reverse) true,
        p.advanceBy chars.length)

/-! ## White space inside quotes -/

/-- What the line ends in white space stand for. -/
def folded : List Char → List Char
  | ['\n'] => [' ']
  | '\n' :: others => others
  | breaks => breaks

/-- The white space at a place. -/
def spaceAt (p : Place) : List Char := p.rest.takeWhile fun c => isBlank c || isBreak c

/-- Reads white space inside quotes: what it stands for, and the place behind it. -/
def readSpace (p : Place) : List Char × Place :=
  let space := spaceAt p
  let breaks := space.filter isBreak
  (if breaks.isEmpty then space else folded breaks, p.advanceBy space.length)

/-- Reads a line end behind a backslash, and the white space behind it, in which only further line
ends count. -/
def readJoin (p : Place) : List Char × Place :=
  let q := p.advanceBy 2
  ((spaceAt q).filter isBreak, q.advanceBy (spaceAt q).length)

/-! ## Escapes -/

/-- The characters that a single character behind a backslash stands for. -/
def escapes : List (Char × Char) :=
  [('0', '\x00'), ('a', '\x07'), ('b', '\x08'), ('t', '\t'), ('\t', '\t'), ('n', '\n'),
    ('v', '\x0b'), ('f', '\x0c'), ('r', '\r'), ('e', '\x1b'), (' ', ' '), ('\x22', '\x22'),
    ('/', '/'), ('\\', '\\'), ('N', '\u0085'), ('_', '\u00a0'), ('L', '\u2028'),
    ('P', '\u2029')]

/-- The number of digits of an escape by number. -/
def escapeDigits : List (Char × Nat) := [('x', 2), ('u', 4), ('U', 8)]

/-- The character of a number, if there is one. -/
def charOf? (n : Nat) : Option Char := if n.isValidChar then some (Char.ofNat n) else none

/-- Reads an escape: the character it stands for, and the place behind it. -/
def escape? (p : Place) : Option (Char × Place) :=
  match p.rest.drop 1 with
  | [] => none
  | c :: cs =>
    match escapes.lookup c with
    | some d => some (d, p.advanceBy 2)
    | none => do
      let count ← escapeDigits.lookup c
      let digits := cs.take count
      if digits.length < count then none
      else
        let n ← Text.number? 16 digits
        let d ← charOf? n
        return (d, p.advanceBy (2 + count))

/-! ## Quoted scalars -/

/-- Reads a scalar in single quotes behind the first of them; `read` holds what was read, last
character first. -/
def singleQuoted? : Nat → List Char → Place → Option (List Char × Place)
  | 0, _, _ => none
  | n + 1, read, p =>
    if p.atDocumentMark then none
    else
      match p.rest with
      | [] => none
      | '\x27' :: '\x27' :: _ => singleQuoted? n ('\x27' :: read) (p.advanceBy 2)
      | '\x27' :: _ => some (read, p.advance)
      | c :: _ =>
        if isBlank c || isBreak c then
          let (text, q) := readSpace p
          singleQuoted? n (text.reverse ++ read) q
        else singleQuoted? n (c :: read) p.advance

/-- Reads a scalar in double quotes behind the first of them; `read` holds what was read, last
character first. -/
def doubleQuoted? : Nat → List Char → Place → Option (List Char × Place)
  | 0, _, _ => none
  | n + 1, read, p =>
    if p.atDocumentMark then none
    else
      match p.rest with
      | [] => none
      | '\x22' :: _ => some (read, p.advance)
      | '\\' :: d :: _ =>
        if isBreak d then
          let (text, q) := readJoin p
          doubleQuoted? n (text.reverse ++ read) q
        else
          match escape? p with
          | none => none
          | some (c, q) => doubleQuoted? n (c :: read) q
      | c :: _ =>
        if isBlank c || isBreak c then
          let (text, q) := readSpace p
          doubleQuoted? n (text.reverse ++ read) q
        else doubleQuoted? n (c :: read) p.advance

/-- Reads a quoted scalar. -/
def quotedScalar? (p : Place) : Option (Yaml × Place) :=
  let text (r : List Char × Place) : Yaml × Place :=
    (.scalar (String.ofList r.1.reverse) false, r.2)
  match p.rest with
  | '\x27' :: cs => (singleQuoted? (cs.length + 1) [] p.advance).map text
  | '\x22' :: cs => (doubleQuoted? (cs.length + 1) [] p.advance).map text
  | _ => none

/-- Whether a place is at a quote. -/
def atQuote (p : Place) : Bool := p.rest.head? == some '\x27' || p.rest.head? == some '\x22'

/-- Reads a scalar. -/
def scalar? (inFlow : Bool) (p : Place) : Option (Yaml × Place) :=
  if atQuote p then quotedScalar? p else plainScalar? inFlow p

end ArtifactGraph.Yaml
