import ArtifactGraph.NameMap
import ArtifactGraph.Text

/-!
# Expressions in texts

A text may hold expressions, each a name in `${` and `}`.  `interpolate` puts in the place of every
expression the text its name stands for, with the expressions of that text expanded in turn.

* Names are looked up in layers, the first of which that has the name counts.  The blanks around
  a name do not matter.
* An expression without a value stays as it is, and so does one without an end.
* A name that is expanded keeps its text for the rest of the run, so it is expanded once.
* A name that leads back to itself is a fault, and so is a text that grows too long.
-/

namespace ArtifactGraph.Expression

/-! ## Pieces of a text -/

/-- A piece of a text with expressions. -/
inductive Piece where
  | text (chars : List Char)
  /-- What stands between the braces of an expression. -/
  | reference (inside : List Char)

/-- The pieces of a text. An expression without an end is text. Each piece that is followed by
another takes a character at least, so a text's length is fuel enough. -/
def piecesOf : Nat → List Char → List Piece
  | 0, cs => [.text cs]
  | n + 1, cs =>
    match Text.breakOn? ['$', '{'] cs with
    | none => [.text cs]
    | some (before, after) =>
      match Text.breakOn? ['}'] after with
      | none => [.text cs]
      | some (inside, rest) => .text before :: .reference inside :: piecesOf n rest

/-- The pieces of a text. -/
def pieces (value : String) : List Piece := piecesOf value.length value.toList

/-! ## Expansion -/

/-- Why a text cannot be expanded. -/
inductive Fault where
  /-- The name is being expanded already, inside the given names. -/
  | cycle (inProgress : List String) (name : String)
  /-- The expansion of the text is too long. -/
  | tooLong (value : String)
  deriving DecidableEq, Repr

/-- The greatest length of an expansion, in bytes of UTF-8. -/
def lengthLimit : Nat := 65536

def Fault.message : Fault → String
  | .cycle inProgress name =>
    "Recursive expression cycle: " ++ Text.joinWith " -> " inProgress ++ " -> " ++ name
  | .tooLong value =>
    "Expression expands beyond " ++ toString lengthLimit ++ " bytes while interpolating '" ++
      value ++ "'"

/-- Names that were expanded, with their expansions. -/
abbrev Memo := List (String × String)

/-- A way to find the expansion of a name, which may have none. -/
abbrev Resolver := Memo → String → Except Fault (Option String × Memo)

/-- Expands the pieces of `value`; `out` is the expansion of the pieces before. The length is
measured behind every expression. -/
def expandPieces (resolve : Resolver) (value : String) (out : String) (memo : Memo) :
    List Piece → Except Fault (String × Memo)
  | [] => .ok (out, memo)
  | .text chars :: rest =>
    expandPieces resolve value (out ++ String.ofList chars) memo rest
  | .reference inside :: rest =>
    match resolve memo (Text.trim (String.ofList inside)) with
    | .error e => .error e
    | .ok (found, memo') =>
      let out' := match found with
        | some expansion => out ++ expansion
        | none => out ++ "$\x7b" ++ String.ofList inside ++ "\x7d"
      if out'.utf8ByteSize > lengthLimit then .error (.tooLong value)
      else expandPieces resolve value out' memo' rest

/-- Finds the expansion of a name, inside the names that are in progress. The fuel is the number of
names that may still come into progress: a name without fuel is one of those in progress. -/
def resolveName (lookup : String → Option String) : Nat → List String → Resolver
  | fuel, inProgress, memo, name =>
    match memo.lookup name with
    | some expansion => .ok (some expansion, memo)
    | none =>
      match lookup name with
      | none => .ok (none, memo)
      | some raw =>
        if inProgress.contains name then .error (.cycle inProgress name)
        else
          match fuel with
          | 0 => .error (.cycle inProgress name)
          | n + 1 =>
            match expandPieces (resolveName lookup n (inProgress ++ [name])) raw "" memo
              (pieces raw) with
            | .error e => .error e
            | .ok (expansion, memo') => .ok (some expansion, (name, expansion) :: memo')

/-- Expands a text where names stand for texts; `count` bounds the number of names that do. -/
def expand (lookup : String → Option String) (count : Nat) (value : String) :
    Except Fault String :=
  (expandPieces (resolveName lookup count []) value "" [] (pieces value)).map (·.1)

/-! ## Layers -/

/-- Maps that are asked one after the other. -/
abbrev Layers := List Bindings

/-- The text of a name in the first layer that has it. -/
def Layers.get? (layers : Layers) (name : String) : Option String :=
  layers.findSome? (NameMap.get? · name)

/-- Expands a text with names of layers. -/
def interpolate (layers : Layers) (value : String) : Except Fault String :=
  expand layers.get? layers.flatten.length value

/-- Expands a text that may be missing. -/
def interpolateOptional (layers : Layers) : Option String → Except Fault (Option String)
  | none => .ok none
  | some value => (interpolate layers value).map some

end ArtifactGraph.Expression
