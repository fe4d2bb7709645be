import ArtifactGraph.Json.Reader

/-!
# Decoding records

A record is written as an object of its fields, in any order and among members of other
names, or as an array of the fields in their order, from whose end fields may be missing.
`recordFields` walks either form in reading order and decodes each field where it
stands, so of several faults the first one is reported.

* A field that repeats is a fault, and so is a member whose name nobody can read.
* A member of another name must be fit to be passed over, as the `pass` argument says.
* An array with more items than there are fields is a fault behind its last field.
-/

namespace ArtifactGraph

/-- Why a document cannot be decoded. -/
inductive DecodeFault where
  /-- The text is no JSON, or not a document of the wanted form. -/
  | malformed
  /-- A flag of this name does not exist. -/
  | unknownFlag (name : String)
  deriving DecidableEq, Repr

/-- What is said of a document that cannot be decoded. -/
def DecodeFault.message : DecodeFault → String
  | .malformed => "the document does not have the expected form"
  | .unknownFlag name => "unknown dependency flag '" ++ name ++ "'"

namespace Json

/-- A way to decode values. -/
abbrev Decoder (α : Type) := Json → Except DecodeFault α

/-- The members that an array of fields stands for. What is too much is a fault. -/
def namedItems : List String → List Json → List (String × Json)
  | _, [] => []
  | [], _ :: _ => [("", .fault false)]
  | name :: names, v :: rest => (name, v) :: namedItems names rest

/-- The members of a record in reading order. -/
def recordMembers (names : List String) : Json → Except DecodeFault (List (String × Json))
  | .object members => .ok members
  | .array items => .ok (namedItems names items)
  | _ => .error .malformed

/-- Decodes the members of known names in reading order, each name once; `seen` holds the fields
decoded before. -/
def fieldsOfMembers {α : Type} (names : List String) (pass : Json → Bool)
    (decode : String → Decoder α) (seen : List (String × α)) :
    List (String × Json) → Except DecodeFault (List (String × α))
  | [] => .ok seen
  | (_, .unnamed _) :: _ => .error .malformed
  | (name, v) :: rest =>
    if names.contains name then
      if (seen.lookup name).isSome then .error .malformed
      else
        match decode name v with
        | .error e => .error e
        | .ok a => fieldsOfMembers names pass decode (seen ++ [(name, a)]) rest
    else if pass v then fieldsOfMembers names pass decode seen rest
    else .error .malformed

/-- Decodes the fields of a record of the given names. -/
def recordFields {α : Type} (names : List String) (pass : Json → Bool)
    (decode : String → Decoder α) (v : Json) : Except DecodeFault (List (String × α)) :=
  match recordMembers names v with
  | .error e => .error e
  | .ok members => fieldsOfMembers names pass decode [] members

/-- The value of a field that has to be there. -/
def required {α : Type} (fields : List (String × α)) (name : String) : Except DecodeFault α :=
  match fields.lookup name with
  | some a => .ok a
  | none => .error .malformed

/-! ## Common decoders -/

/-- A string. -/
def decodeString : Decoder String
  | .string s => .ok s
  | _ => .error .malformed

/-- A value, or none for null. -/
def decodeOptional {α : Type} (decode : Decoder α) : Decoder (Option α)
  | .null => .ok none
  | v => (decode v).map some

/-- The items of an array, decoded in reading order. -/
def decodeItems {α : Type} (decode : Decoder α) : List Json → Except DecodeFault (List α)
  | [] => .ok []
  | v :: rest =>
    match decode v with
    | .error e => .error e
    | .ok a => (decodeItems decode rest).map (a :: ·)

/-- An array. -/
def decodeList {α : Type} (decode : Decoder α) : Decoder (List α)
  | .array items => decodeItems decode items
  | _ => .error .malformed

/-- The single member of an object with the name of the chosen alternative. -/
def decodeAlternative {α : Type} (alternatives : List (String × Decoder α)) : Decoder α
  | .object ((name, v) :: rest) =>
    match alternatives.lookup name with
    | none => .error .malformed
    | some decode =>
      match decode v with
      | .error e => .error e
      | .ok a => if rest.isEmpty then .ok a else .error .malformed
  | _ => .error .malformed

/-- A name out of a table; it may also stand as the name of a single null member. -/
def decodeName {α : Type} (table : List (String × α)) : Decoder α
  | .string s =>
    match table.lookup s with
    | some a => .ok a
    | none => .error .malformed
  | .object [(name, .null)] =>
    match table.lookup name with
    | some a => .ok a
    | none => .error .malformed
  | _ => .error .malformed

/-- Decodes a whole text: one value with nothing but white space around it. -/
def decodeText {α : Type} (decode : Decoder α) (s : String) : Except DecodeFault α :=
  match read s with
  | (v, clean) =>
    match decode v with
    | .error e => .error e
    | .ok a => if clean then .ok a else .error .malformed

end Json

end ArtifactGraph
