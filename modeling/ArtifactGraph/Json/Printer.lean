import ArtifactGraph.Json
import ArtifactGraph.Text.Digits

/-!
# Writing JSON

Two written forms of a value: `compact`, without any white space, and `pretty`, with a line
for each item and member, two spaces deeper per level.  Only the quote, the backslash and the
control characters below a space are written as escapes.

A `fault` and an `unnamed` value have no written form; `null` stands in their place.
-/

namespace ArtifactGraph.Json

/-! ## Strings -/

/-- The written form of a character inside a string. -/
def escapeChar (c : Char) : List Char :=
  if c == '\x22' then ['\\', '\x22']
  else if c == '\\' then ['\\', '\\']
  else if c == '\x08' then ['\\', 'b']
  else if c == '\x0c' then ['\\', 'f']
  else if c == '\n' then ['\\', 'n']
  else if c == '\r' then ['\\', 'r']
  else if c == '\t' then ['\\', 't']
  else if c.toNat < 0x20 then
    ['\\', 'u', '0', '0', Text.smallDigit (c.toNat / 16), Text.smallDigit (c.toNat % 16)]
  else [c]

/-- The written form of a string, with its quotes. -/
def quoted (s : String) : String :=
  String.ofList ('\x22' :: s.toList.flatMap escapeChar ++ ['\x22'])

/-! ## Compact form -/

mutual
/-- The form without white space. -/
def compact : Json → String
  | .null => "null"
  | .bool b => if b then "true" else "false"
  | .number literal => literal
  | .string s => quoted s
  | .array items => "[" ++ compactItems items ++ "]"
  | .object members => "\x7b" ++ compactMembers members ++ "\x7d"
  | .fault _ => "null"
  | .unnamed _ => "null"

def compactItems : List Json → String
  | [] => ""
  | [v] => compact v
  | v :: rest => compact v ++ "," ++ compactItems rest

def compactMembers : List (String × Json) → String
  | [] => ""
  | [(k, v)] => quoted k ++ ":" ++ compact v
  | (k, v) :: rest => quoted k ++ ":" ++ compact v ++ "," ++ compactMembers rest
end

/-! ## Pretty form -/

/-- The start of a line at a depth. -/
def lineStart (depth : Nat) : String := "\n" ++ String.ofList (List.replicate (2 * depth) ' ')

mutual
/-- The form with a line for each item and member, for a value that stands at a depth. -/
def prettyAt (depth : Nat) : Json → String
  | .array [] => "[]"
  | .array (v :: rest) => "[" ++ prettyItems (depth + 1) (v :: rest) ++ lineStart depth ++ "]"
  | .object [] => "\x7b\x7d"
  | .object (m :: rest) =>
    "\x7b" ++ prettyMembers (depth + 1) (m :: rest) ++ lineStart depth ++ "\x7d"
  | .null => "null"
  | .bool b => if b then "true" else "false"
  | .number literal => literal
  | .string s => quoted s
  | .fault _ => "null"
  | .unnamed _ => "null"

def prettyItems (depth : Nat) : List Json → String
  | [] => ""
  | [v] => lineStart depth ++ prettyAt depth v
  | v :: rest => lineStart depth ++ prettyAt depth v ++ "," ++ prettyItems depth rest

def prettyMembers (depth : Nat) : List (String × Json) → String
  | [] => ""
  | [(k, v)] => lineStart depth ++ quoted k ++ ": " ++ prettyAt depth v
  | (k, v) :: rest =>
    lineStart depth ++ quoted k ++ ": " ++ prettyAt depth v ++ "," ++ prettyMembers depth rest
end

/-- The form with a line for each item and member. -/
def pretty (v : Json) : String := prettyAt 0 v

end ArtifactGraph.Json
