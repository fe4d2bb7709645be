/-!
# Text

Operations on texts that the whole library shares.

* Blanks: `isBlank` is the Unicode property White_Space, `trim` cuts blanks off
  both ends, and `nonBlank?` answers the trimmed text unless nothing is left.
* Comparison: `sameIgnoringCase` folds the case of ASCII letters only, while
  `spells` compares the lower-case form of a text with an ASCII word; `distinct` says that the
  texts of a list differ.
* Search and assembly: `occurs`, `splitOnChar`, `joinWith`.
-/

namespace ArtifactGraph.Text

/-! ## Blanks -/

/-- A character of the Unicode property White_Space. -/
def isBlank (c : Char) : Bool :=
  let n := c.toNat
  (9 ≤ n && n ≤ 13) || n == 0x20 || n == 0x85 || n == 0xA0 || n == 0x1680 ||
    (0x2000 ≤ n && n ≤ 0x200A) || n == 0x2028 || n == 0x2029 || n == 0x202F ||
    n == 0x205F || n == 0x3000

/-- The characters between the first and the last one that `p` does not hold of. -/
def trimBy (p : Char → Bool) (cs : List Char) : List Char :=
  ((cs.dropWhile p).reverse.dropWhile p).reverse

/-- The text without the blanks at its ends. -/
def trim (s : String) : String := String.ofList (trimBy isBlank s.toList)

/-- The trimmed text, unless the text holds blanks only. -/
def nonBlank? (s : String) : Option String :=
  let t := trim s
  if t.isEmpty then none else some t

/-! ## Comparison -/

/-- Equality up to the case of ASCII letters. -/
def sameIgnoringCase (s t : String) : Bool :=
  s.toList.map Char.toLower == t.toList.map Char.toLower

/-- The lower-case form of a character whose lower-case form is an ASCII letter. These are the
capital ASCII letters and the Kelvin sign; every other character is its own image here, and none
of those has a lower-case form inside ASCII other than itself. -/
def lowerToAscii (c : Char) : Char :=
  if c.toNat == 0x212A then 'k' else c.toLower

/-- Whether the lower-case form of a text is the given word of small ASCII letters. -/
def spells (s word : String) : Bool := s.toList.map lowerToAscii == word.toList

/-- Whether no text of a list is repeated. -/
def distinct : List String → Bool
  | [] => true
  | s :: rest => !rest.contains s && distinct rest

/-! ## Search and assembly -/

/-- Whether one list of characters stands inside another without a gap. -/
def occursIn (needle : List Char) : List Char → Bool
  | [] => needle.isEmpty
  | c :: rest => needle.isPrefixOf (c :: rest) || occursIn needle rest

theorem occursIn_iff {needle cs : List Char} : occursIn needle cs = true ↔ needle <:+: cs := by
  induction cs with
  | nil => rw [occursIn, List.isEmpty_iff, List.infix_nil]
  | cons c rest ih =>
    rw [occursIn, Bool.or_eq_true, ih, List.isPrefixOf_iff_prefix, List.infix_cons_iff]

/-- Whether the first text stands inside the second. -/
def occurs (needle s : String) : Bool := occursIn needle.toList s.toList

/-- The pieces between the occurrences of a separator; there is always at least one. -/
def splitCharsOn (sep : Char) : List Char → List (List Char)
  | [] => [[]]
  | c :: rest =>
    if c == sep then [] :: splitCharsOn sep rest
    else
      match splitCharsOn sep rest with
      | [] => [[c]]
      | piece :: pieces => (c :: piece) :: pieces

/-- The pieces of a text between the occurrences of a separator. -/
def splitOnChar (sep : Char) (s : String) : List String :=
  (splitCharsOn sep s.toList).map String.ofList

/-- The texts one after the other, with a separator between neighbours. -/
def joinWith (sep : String) : List String → String
  | [] => ""
  | [s] => s
  | s :: rest => s ++ sep ++ joinWith sep rest

/-- `breakOn?` with the characters already passed, last one first. -/
def breakOnFrom (mark passed : List Char) : List Char → Option (List Char × List Char)
  | [] => if mark.isEmpty then some (passed.reverse, []) else none
  | c :: rest =>
    if mark.isPrefixOf (c :: rest) then some (passed.reverse, (c :: rest).drop mark.length)
    else breakOnFrom mark (c :: passed) rest

/-- What stands before the first occurrence of `mark`, and what stands after it. -/
def breakOn? (mark cs : List Char) : Option (List Char × List Char) := breakOnFrom mark [] cs

theorem eq_append_of_breakOnFrom {mark passed cs before after : List Char}
    (h : breakOnFrom mark passed cs = some (before, after)) :
    passed.reverse ++ cs = before ++ mark ++ after := by
  induction cs generalizing passed with
  | nil =>
    by_cases hm : mark.isEmpty <;> simp_all [breakOnFrom]
  | cons c rest ih =>
    by_cases hp : mark.isPrefixOf (c :: rest)
    · simp only [breakOnFrom, hp, if_true, Option.some.injEq, Prod.mk.injEq] at h
      obtain ⟨rfl, rfl⟩ := h
      obtain ⟨t, ht⟩ := List.isPrefixOf_iff_prefix.1 hp
      rw [← ht]
      simp
    · simp only [breakOnFrom, hp, Bool.false_eq_true, if_false] at h
      simpa using ih h

/-- A text broken at a mark is the part before it, the mark and the part after it. -/
theorem eq_append_of_breakOn? {mark cs before after : List Char}
    (h : breakOn? mark cs = some (before, after)) : cs = before ++ mark ++ after := by
  simpa using eq_append_of_breakOnFrom h

end ArtifactGraph.Text
