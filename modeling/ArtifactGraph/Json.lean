/-!
# JSON values

A value as it stands in a document: members keep their order and their repeats,
and a number keeps its spelling.

A text that is no JSON is read up to its fault, which then stands in the value as
`fault`.  A decoder that walks a value in reading order therefore meets the faults of
a document in reading order too.  `skippable` and `storable` say which values may be
passed over and which may be kept for later.
-/

namespace ArtifactGraph

/-- A JSON value, or as much of one as could be read. -/
inductive Json where
  | null
  | bool (b : Bool)
  /-- A number by its spelling. -/
  | number (literal : String)
  | string (s : String)
  | array (items : List Json)
  | object (members : List (String × Json))
  /-- The place where a text stops being JSON. A skippable one is a string whose escapes leave half
  of a surrogate pair: nobody can read it, but it can be passed over. -/
  | fault (canSkip : Bool)
  /-- The value of a member whose name leaves half of a surrogate pair: nobody can read the name,
  but the member can be passed over if its value can. -/
  | unnamed (v : Json)
  deriving Inhabited

namespace Json

/-- A natural number. -/
def ofNat (n : Nat) : Json := .number (toString n)

/-- A list of strings. -/
def strings (ss : List String) : Json := .array (ss.map .string)

/-- A string, or null. -/
def stringOrNull : Option String → Json
  | none => .null
  | some s => .string s

/-! ## Values that are passed over or kept -/

mutual
/-- Whether a value can be passed over: nothing in it breaks the text off. -/
def skippable : Json → Bool
  | .fault canSkip => canSkip
  | .array items => skippableItems items
  | .object members => skippableMembers members
  | .unnamed v => skippable v
  | _ => true

def skippableItems : List Json → Bool
  | [] => true
  | v :: rest => skippable v && skippableItems rest

def skippableMembers : List (String × Json) → Bool
  | [] => true
  | (_, v) :: rest => skippable v && skippableMembers rest
end

/-! ### Numbers that are kept

A number that is kept is a double: a whole number and a power of ten, each rounded to a double, are
multiplied, and the product is rounded. Only as many digits count as a word of 64 bits holds. -/

/-- A whole number that may stand before the power of ten. -/
def significandBound : Nat := Nat.pow 2 64

/-- Appends decimal digits to a number as long as it stays below the bound, and gives the rest. -/
def appendDigits (n : Nat) : List Char → Nat × List Char
  | [] => (n, [])
  | c :: cs =>
    let next := 10 * n + (c.toNat - '0'.toNat)
    if next < significandBound then appendDigits next cs else (n, c :: cs)

/-- The value of decimal digits. -/
def digitsValue (ds : List Char) : Nat := ds.foldl (fun n c => 10 * n + (c.toNat - '0'.toNat)) 0

/-- The whole number and the power of ten that a number without its sign is read as. -/
def scaled (unsigned : List Char) : Nat × Int :=
  let isMark := fun c => c == 'e' || c == 'E'
  let digits := unsigned.takeWhile (!isMark ·)
  let exponent := (unsigned.dropWhile (!isMark ·)).drop 1
  let size : Int := digitsValue (exponent.filter Char.isDigit)
  let fraction := (digits.dropWhile (· != '.')).drop 1
  let (whole, cut) := appendDigits 0 (digits.takeWhile (· != '.'))
  let (n, unread) := appendDigits whole fraction
  (n, (if exponent.head? == some '-' then -size else size) + cut.length + unread.length -
    fraction.length)

/-- The double that is nearest to a whole number, where half a unit goes to the even neighbour. -/
def nearestDouble (n : Nat) : Nat :=
  let unit := Nat.pow 2 (n.log2 - 52)
  let rest := n % unit
  let up := 2 * rest > unit || (2 * rest == unit && n / unit % 2 == 1)
  (n / unit + if up then 1 else 0) * unit

/-- The least whole number that rounds to infinity. -/
def infinityBound : Nat := Nat.pow 2 1024 - Nat.pow 2 970

/-- The greatest power of ten that is a double. -/
def greatestPower : Nat := 308

/-- Whether a number of this spelling is kept as a finite double. -/
def isFiniteLiteral (literal : String) : Bool :=
  let (n, power) := scaled (literal.toList.dropWhile (· == '-'))
  n == 0 || power < 0 ||
    (power.toNat ≤ greatestPower &&
      nearestDouble n * nearestDouble (Nat.pow 10 power.toNat) < infinityBound)

mutual
/-- Whether a value can be kept for later: all of it could be read, every number in it is a finite
double, and arrays and objects are nested less than `depth` deep. -/
def storable (depth : Nat) : Json → Bool
  | .fault _ => false
  | .unnamed _ => false
  | .number literal => isFiniteLiteral literal
  | .array items =>
    match depth with
    | 0 => false
    | d + 1 => storableItems d items
  | .object members =>
    match depth with
    | 0 => false
    | d + 1 => storableMembers d members
  | _ => true

def storableItems (depth : Nat) : List Json → Bool
  | [] => true
  | v :: rest => storable depth v && storableItems depth rest

def storableMembers (depth : Nat) : List (String × Json) → Bool
  | [] => true
  | (_, v) :: rest => storable depth v && storableMembers depth rest
end

end Json

end ArtifactGraph
