/-!
# Digits

Numbers as digits of a base: `digit?` and `number?` read them, and `smallDigit` and `capitalDigit`
are written.  The letters follow the ten digits, in either case.
-/

namespace ArtifactGraph.Text

/-- The value of a digit of a base below 37. -/
def digit? (base : Nat) (c : Char) : Option Nat :=
  let n := c.toNat
  let value :=
    if '0' ≤ c && c ≤ '9' then some (n - '0'.toNat)
    else if 'a' ≤ c && c ≤ 'z' then some (n - 'a'.toNat + 10)
    else if 'A' ≤ c && c ≤ 'Z' then some (n - 'A'.toNat + 10)
    else none
  value.filter (· < base)

/-- The value of a sequence of digits, of which there has to be one at least. -/
def number? (base : Nat) : List Char → Option Nat
  | [] => none
  | ds => ds.foldlM (fun n c => (digit? base c).map (base * n + ·)) 0

/-- The digit of a number below sixteen, where `letter` is the digit of ten. -/
def digitFrom (letter : Char) (n : Nat) : Char :=
  Char.ofNat (if n < 10 then '0'.toNat + n else letter.toNat + n - 10)

/-- The small hexadecimal digit of a number below sixteen. -/
def smallDigit (n : Nat) : Char := digitFrom 'a' n

/-- The capital hexadecimal digit of a number below sixteen. -/
def capitalDigit (n : Nat) : Char := digitFrom 'A' n

/-- A small digit is read as the number that it was written for. -/
theorem digit?_smallDigit : ∀ n < 16, digit? 16 (smallDigit n) = some n := by decide

/-- A capital digit is read as the number that it was written for. -/
theorem digit?_capitalDigit : ∀ n < 16, digit? 16 (capitalDigit n) = some n := by decide

end ArtifactGraph.Text
