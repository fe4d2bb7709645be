import ArtifactGraph.Text
import ArtifactGraph.Text.Digits

/-!
# YAML values

A value of a YAML document.  A scalar is a text; whether it was quoted matters only where something
else than a text is wanted, as a plain `true` is a truth value and a quoted one is not.  Mappings
keep their entries in order, with repeats.

An empty document is an empty plain scalar.  Where a mapping is wanted, such a scalar is an empty
one.
-/

namespace ArtifactGraph

/-- A value of a YAML document. -/
inductive Yaml where
  | scalar (text : String) (plain : Bool)
  | sequence (items : List Yaml)
  | mapping (entries : List (Yaml × Yaml))
  deriving Inhabited

namespace Yaml

/-- The value of nothing. -/
def empty : Yaml := .scalar "" true

/-- The plain texts that stand for no value. -/
def nullWords : List String := ["", "~", "null", "Null", "NULL"]

/-- Whether a value stands for no value. -/
def isNull : Yaml → Bool
  | .scalar text plain => plain && nullWords.contains text
  | _ => false

/-- The text of a scalar. -/
def text? : Yaml → Option String
  | .scalar text _ => some text
  | _ => none

/-- The truth value of a plain scalar. -/
def bool? : Yaml → Option Bool
  | .scalar text true =>
    if ["true", "True", "TRUE"].contains text then some true
    else if ["false", "False", "FALSE"].contains text then some false
    else none
  | _ => none

/-- The items of a sequence. -/
def items? : Yaml → Option (List Yaml)
  | .sequence items => some items
  | _ => none

/-- The entries of a mapping whose keys are texts. -/
def textKeys? : List (Yaml × Yaml) → Option (List (String × Yaml))
  | [] => some []
  | (key, value) :: rest => do
    let name ← key.text?
    let others ← textKeys? rest
    return (name, value) :: others

/-- The entries of a mapping by the texts of their keys. -/
def entries? : Yaml → Option (List (String × Yaml))
  | .mapping entries => textKeys? entries
  | .scalar "" true => some []
  | _ => none

/-! ## Values that are kept -/

/-- The natural number that digits spell, with a mark of their base before them. Decimal ones do
not start with a zero. -/
def magnitude? : List Char → Option Nat
  | '0' :: 'x' :: digits => Text.number? 16 digits
  | '0' :: 'o' :: digits => Text.number? 8 digits
  | '0' :: 'b' :: digits => Text.number? 2 digits
  | '0' :: _ :: _ => none
  | digits => Text.number? 10 digits

/-- Whether a plain text can be kept. A whole number has to fit into a word of 64 bits; one that is
beyond 128 bits is not kept as a whole number. -/
def fitsWord (text : String) : Bool :=
  match text.toList with
  | '-' :: cs => (magnitude? cs).all fun n => n ≤ Nat.pow 2 63 || Nat.pow 2 127 < n
  | '+' :: cs => (magnitude? cs).all fun n => n < Nat.pow 2 64 || Nat.pow 2 128 ≤ n
  | cs => (magnitude? cs).all fun n => n < Nat.pow 2 64 || Nat.pow 2 128 ≤ n

mutual
/-- Whether a value can be kept for later: its numbers fit, no text is the key of two entries of a
mapping, and collections are nested at most `depth` deep. -/
def storable (depth : Nat) : Yaml → Bool
  | .scalar text plain => !plain || fitsWord text
  | .sequence items =>
    match depth with
    | 0 => false
    | d + 1 => storableItems d items
  | .mapping entries =>
    match depth with
    | 0 => false
    | d + 1 => Text.distinct (entries.filterMap (·.1.text?)) && storableEntries d entries

def storableItems (depth : Nat) : List Yaml → Bool
  | [] => true
  | v :: rest => storable depth v && storableItems depth rest

def storableEntries (depth : Nat) : List (Yaml × Yaml) → Bool
  | [] => true
  | (key, v) :: rest => storable depth key && storable depth v && storableEntries depth rest
end

end Yaml

end ArtifactGraph
