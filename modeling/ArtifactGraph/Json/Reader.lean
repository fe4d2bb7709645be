import ArtifactGraph.Json
import ArtifactGraph.Text.Digits

/-!
# Reading JSON

`Json.read` reads a value off a text.  It is strict: no comments, no trailing commas, no
control characters in strings, and numbers as the grammar has them.  Where the text stops
being JSON the value holds a `fault` and nothing is left to read.

The groups are white space, strings, numbers and values.  The three functions on values
spend one unit of fuel on each value, item and member, so a text's length is fuel enough.
-/

namespace ArtifactGraph.Json

/-! ## White space -/

/-- The four characters that may stand between tokens. -/
def isSpace (c : Char) : Bool := c == ' ' || c == '\n' || c == '\t' || c == '\r'

def skipSpace (cs : List Char) : List Char := cs.dropWhile isSpace

/-! ## Strings -/

/-- The first half of a surrogate pair. -/
def isHighSurrogate (n : Nat) : Bool := 0xD800 ≤ n && n ≤ 0xDBFF

/-- The second half of a surrogate pair. -/
def isLowSurrogate (n : Nat) : Bool := 0xDC00 ≤ n && n ≤ 0xDFFF

/-- The code point of a surrogate pair. -/
def pairedSurrogates (high low : Nat) : Nat := 0x10000 + (high - 0xD800) * 0x400 + (low - 0xDC00)

/-- The character of an escape of two characters. -/
def shortEscape? : Char → Option Char
  | '\x22' => some '\x22'
  | '\\' => some '\\'
  | '/' => some '/'
  | 'b' => some '\x08'
  | 'f' => some '\x0c'
  | 'n' => some '\n'
  | 'r' => some '\r'
  | 't' => some '\t'
  | _ => none

/-- A string token, as far as it could be read. -/
inductive StringToken where
  /-- The characters of the string, and what follows it. -/
  | text (chars rest : List Char)
  /-- A string with half of a surrogate pair, and what follows it. -/
  | unpaired (rest : List Char)
  /-- No string. -/
  | broken

/-- The name that a string token is, missing if nobody can read it, and what follows it. -/
def StringToken.name? : StringToken → Option (Option String × List Char)
  | .text chars rest => some (some (String.ofList chars), rest)
  | .unpaired rest => some (none, rest)
  | .broken => none

/-- Where a reader stands inside a string. -/
inductive StringPlace where
  | plain
  /-- Behind a backslash. -/
  | escape
  /-- Inside a code of four digits: how many are missing, and the value of those read. -/
  | code (missing value : Nat)

/-- What a reader knows of a string: the characters read so far, last one first, the half of a
surrogate pair that waits for the other half, and whether a half was left alone. -/
structure StringDraft where
  read : List Char := []
  high : Option Nat := none
  lonely : Bool := false

namespace StringDraft

/-- A half that waits is left alone. -/
def settle (d : StringDraft) : StringDraft :=
  match d.high with
  | none => d
  | some _ => { d with high := none, lonely := true }

/-- Adds a character. -/
def push (d : StringDraft) (c : Char) : StringDraft :=
  let d := d.settle
  { d with read := c :: d.read }

/-- Adds the character of a code, which may be one half of a surrogate pair. -/
def pushCode (d : StringDraft) (n : Nat) : StringDraft :=
  if isLowSurrogate n then
    match d.high with
    | some high =>
      { d with read := Char.ofNat (pairedSurrogates high n) :: d.read, high := none }
    | none => { d with lonely := true }
  else if isHighSurrogate n then { d.settle with high := some n }
  else d.push (Char.ofNat n)

/-- The token of a string that is complete. -/
def token (d : StringDraft) (rest : List Char) : StringToken :=
  if d.settle.lonely then .unpaired rest else .text d.read.reverse rest

end StringDraft

/-- Reads a string from behind its opening quote. -/
def readString : StringPlace → StringDraft → List Char → StringToken
  | _, _, [] => .broken
  | .plain, d, c :: rest =>
    if c == '\x22' then d.token rest
    else if c == '\\' then readString .escape d rest
    else if c.toNat < 0x20 then .broken
    else readString .plain (d.push c) rest
  | .escape, d, c :: rest =>
    if c == 'u' then readString (.code 3 0) d rest
    else
      match shortEscape? c with
      | none => .broken
      | some e => readString .plain (d.push e) rest
  | .code missing value, d, c :: rest =>
    match Text.digit? 16 c with
    | none => .broken
    | some digit =>
      match missing with
      | 0 => readString .plain (d.pushCode (value * 16 + digit)) rest
      | m + 1 => readString (.code m (value * 16 + digit)) d rest

/-! ## Numbers -/

/-- The digits at the start of a text, and the rest. -/
def spanDigits (cs : List Char) : List Char × List Char :=
  (cs.takeWhile Char.isDigit, cs.dropWhile Char.isDigit)

/-- The whole part of a number: a lone zero, or digits that start with another one. -/
def wholePart? (cs : List Char) : Option (List Char × List Char) :=
  match spanDigits cs with
  | ([], _) => none
  | (['0'], rest) => some (['0'], rest)
  | ('0' :: _, _) => none
  | (digits, rest) => some (digits, rest)

/-- The part after the point, if there is a point. -/
def fractionPart? : List Char → Option (List Char × List Char)
  | '.' :: rest =>
    match spanDigits rest with
    | ([], _) => none
    | (digits, rest') => some ('.' :: digits, rest')
  | cs => some ([], cs)

/-- The sign of an exponent, if there is one. -/
def exponentSign : List Char → List Char × List Char
  | '+' :: rest => (['+'], rest)
  | '-' :: rest => (['-'], rest)
  | cs => ([], cs)

/-- The exponent, if there is one. -/
def exponentPart? : List Char → Option (List Char × List Char)
  | c :: rest =>
    if c == 'e' || c == 'E' then
      let (sign, rest') := exponentSign rest
      match spanDigits rest' with
      | ([], _) => none
      | (digits, rest'') => some (c :: sign ++ digits, rest'')
    else some ([], c :: rest)
  | [] => some ([], [])

/-- The spelling of a number at the start of a text, and the rest. -/
def number? (cs : List Char) : Option (List Char × List Char) := do
  let (sign, cs) := match cs with
    | '-' :: rest => (['-'], rest)
    | _ => ([], cs)
  let (whole, cs) ← wholePart? cs
  let (fraction, cs) ← fractionPart? cs
  let (exponent, cs) ← exponentPart? cs
  return (sign ++ whole ++ fraction ++ exponent, cs)

/-! ## Values -/

/-- The value of a broken text: nothing is left to read behind it. -/
def broken : Json × Option (List Char) := (.fault false, none)

/-- The value of an object that breaks off behind members, last one first. -/
def brokenMembers (read : List (String × Json)) : Json × Option (List Char) :=
  (.object (read.reverse ++ [("", .fault false)]), none)

/-- A member of a name, which is missing if nobody can read it. -/
def namedMember (name : Option String) (v : Json) : String × Json :=
  match name with
  | some name => (name, v)
  | none => ("", .unnamed v)

mutual
/-- Reads a value. The rest is missing if the text stops being JSON. -/
def readValue : Nat → List Char → Json × Option (List Char)
  | 0, _ => broken
  | n + 1, cs =>
    match skipSpace cs with
    | '{' :: rest =>
      match skipSpace rest with
      | '}' :: rest' => (.object [], some rest')
      | rest' => readMembers n [] rest'
    | '[' :: rest =>
      match skipSpace rest with
      | ']' :: rest' => (.array [], some rest')
      | rest' => readItems n [] rest'
    | '\x22' :: rest =>
      match readString .plain {} rest with
      | .text chars rest' => (.string (String.ofList chars), some rest')
      | .unpaired rest' => (.fault true, some rest')
      | .broken => broken
    | 't' :: 'r' :: 'u' :: 'e' :: rest => (.bool true, some rest)
    | 'f' :: 'a' :: 'l' :: 's' :: 'e' :: rest => (.bool false, some rest)
    | 'n' :: 'u' :: 'l' :: 'l' :: rest => (.null, some rest)
    | cs' =>
      match number? cs' with
      | some (literal, rest) => (.number (String.ofList literal), some rest)
      | none => broken

/-- Reads the items of an array behind its bracket; `read` holds those read so far, last one
first. -/
def readItems : Nat → List Json → List Char → Json × Option (List Char)
  | 0, read, _ => (.array (read.reverse ++ [.fault false]), none)
  | n + 1, read, cs =>
    match readValue n cs with
    | (v, none) => (.array ((v :: read).reverse), none)
    | (v, some rest) =>
      match skipSpace rest with
      | ',' :: rest' => readItems n (v :: read) rest'
      | ']' :: rest' => (.array ((v :: read).reverse), some rest')
      | _ => (.array ((v :: read).reverse ++ [.fault false]), none)

/-- Reads the members of an object behind its brace; `read` holds those read so far, last one
first. -/
def readMembers : Nat → List (String × Json) → List Char → Json × Option (List Char)
  | 0, read, _ => brokenMembers read
  | n + 1, read, cs =>
    match skipSpace cs with
    | '\x22' :: rest =>
      match (readString .plain {} rest).name? with
      | none => brokenMembers read
      | some (name, rest') =>
        match skipSpace rest' with
        | ':' :: rest'' =>
          match readValue n rest'' with
          | (v, none) => (.object ((namedMember name v :: read).reverse), none)
          | (v, some after) =>
            match skipSpace after with
            | ',' :: after' => readMembers n (namedMember name v :: read) after'
            | '}' :: after' => (.object ((namedMember name v :: read).reverse), some after')
            | _ => brokenMembers (namedMember name v :: read)
        | _ => brokenMembers read
    | _ => brokenMembers read
end

/-- Reads the value at the start of a text, and says whether nothing but white space follows it. -/
def read (s : String) : Json × Bool :=
  let cs := s.toList
  match readValue (2 * cs.length + 1) cs with
  | (v, some rest) => (v, (skipSpace rest).isEmpty)
  | (v, none) => (v, false)

/-- The value a text spells, if it is JSON through and through. -/
def parse? (s : String) : Option Json :=
  match read s with
  | (v, true) => if v.skippable then some v else none
  | (_, false) => none

end ArtifactGraph.Json
