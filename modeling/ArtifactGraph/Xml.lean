import ArtifactGraph.Text
import ArtifactGraph.Text.Digits

/-!
# XML documents

A `Node` is a piece of the content of an element, as it is written: texts are raw, with their
references, and a tag keeps what stands behind its name without a look at it.  Comments and
processing instructions leave no node.

* `Element.written` takes the attributes of a tag apart, and `Element.attributes?` refuses those
  that are not well-formed.
* `resolveReferences?` gives the text of a raw text.
* `localName` and `qualifier?` are the parts of a name around its first colon.
-/

namespace ArtifactGraph.Xml

/-- A piece of the content of an element. -/
inductive Node where
  /-- Characters with their references. -/
  | text (raw : List Char)
  /-- Characters that stand for themselves. -/
  | cdata (chars : List Char)
  /-- A document type declaration. -/
  | doctype
  /-- An element: its name, the rest of its tag, and its content. -/
  | element (name : String) (tagRest : List Char) (children : List Node)
  deriving Inhabited

/-- An element of a document. -/
structure Element where
  name : String
  tagRest : List Char
  children : List Node

/-- The white space of the format. -/
def isSpace (c : Char) : Bool := c == ' ' || c == '\t' || c == '\r' || c == '\n'

/-- The part of a name behind its first colon, or all of it if it has none. -/
def localName (name : String) : String :=
  match name.toList.dropWhile (· != ':') with
  | [] => name
  | _ :: rest => String.ofList rest

/-- The part of a name before its first colon, if it has one. -/
def qualifier? (name : String) : Option String :=
  if name.toList.contains ':' then some (String.ofList (name.toList.takeWhile (· != ':')))
  else none

/-! ## References -/

/-- The character of a code that is neither zero nor a surrogate. -/
def character? (code : Nat) : Option Char :=
  if code != 0 && (code < 0xD800 || (0xDFFF < code && code < 0x110000)) then some (Char.ofNat code)
  else none

/-- The character that a reference of a name stands for: one of the five of the format, or the
character of a code. -/
def reference? : List Char → Option Char
  | ['l', 't'] => some '<'
  | ['g', 't'] => some '>'
  | ['a', 'm', 'p'] => some '&'
  | ['q', 'u', 'o', 't'] => some '\x22'
  | ['a', 'p', 'o', 's'] => some '\x27'
  | '#' :: 'x' :: digits => (Text.number? 16 digits).bind character?
  | '#' :: digits => (Text.number? 10 digits).bind character?
  | _ => none

/-- Resolves the references of a raw text. `name` holds the characters of the reference that is
being read, and `read` those of the text so far, both last one first. -/
def resolveFrom (name : Option (List Char)) (read : List Char) : List Char → Option (List Char)
  | [] => if name.isNone then some read.reverse else none
  | c :: rest =>
    match name with
    | none =>
      if c == '&' then resolveFrom (some []) read rest else resolveFrom none (c :: read) rest
    | some name =>
      if c == ';' then
        match reference? name.reverse with
        | none => none
        | some r => resolveFrom none (r :: read) rest
      else if c == '&' then none
      else resolveFrom (some (c :: name)) read rest

/-- The text of a raw text, unless one of its references stands for nothing. -/
def resolveReferences? (raw : List Char) : Option (List Char) := resolveFrom none [] raw

/-! ## Attributes -/

/-- An attribute as it is written. -/
inductive Attribute where
  /-- A name with a value in quotes. -/
  | quoted (name : String) (raw : List Char)
  /-- A name with a value that is not in quotes. -/
  | unquoted (name : String)
  /-- A name without a sign behind it, or a value without an end. -/
  | malformed

/-- What stands behind the name of a tag. A fault is passed over: a value without quotes ends at
white space, and what follows a name without a sign is a name again. -/
def attributesFrom : Nat → List Char → List Attribute
  | 0, _ => []
  | n + 1, cs =>
    match cs.dropWhile isSpace with
    | [] => []
    | c :: rest =>
      let inName := fun d => d != '=' && !isSpace d
      let name := String.ofList (c :: rest.takeWhile inName)
      match (rest.dropWhile inName).dropWhile isSpace with
      | '=' :: afterSign =>
        match afterSign.dropWhile isSpace with
        | [] => [.malformed]
        | quote :: afterQuote =>
          if quote == '\x22' || quote == '\x27' then
            match afterQuote.dropWhile (· != quote) with
            | [] => [.malformed]
            | _ :: afterValue =>
              .quoted name (afterQuote.takeWhile (· != quote)) :: attributesFrom n afterValue
          else .unquoted name :: attributesFrom n (afterQuote.dropWhile (!isSpace ·))
      | others => .malformed :: attributesFrom n others

/-- The names and the raw values of attributes; `seen` are the names before. Every value has to be
quoted and no name may be repeated. -/
def pairs? (seen : List String) : List Attribute → Option (List (String × List Char))
  | [] => some []
  | .quoted name raw :: rest =>
    if seen.contains name then none
    else (pairs? (name :: seen) rest).map ((name, raw) :: ·)
  | _ :: _ => none

/-- The attributes with a value in quotes whose names were not there before; `seen` are the names
before. -/
def firstPairs (seen : List String) : List Attribute → List (String × List Char)
  | [] => []
  | .quoted name raw :: rest =>
    if seen.contains name then firstPairs seen rest
    else (name, raw) :: firstPairs (name :: seen) rest
  | .unquoted name :: rest => firstPairs (name :: seen) rest
  | .malformed :: rest => firstPairs seen rest

namespace Element

/-- The attributes of an element as they are written. -/
def written (e : Element) : List Attribute := attributesFrom (e.tagRest.length + 1) e.tagRest

/-- The attributes of an element, with their raw values, if they are well-formed. -/
def attributes? (e : Element) : Option (List (String × List Char)) := pairs? [] e.written

end Element

end ArtifactGraph.Xml
