import ArtifactGraph.Json.Reader
import Mathlib.Data.List.DropRight
import Mathlib.Data.List.TakeWhile

/-!
# JSON texts as they are written

The grammar of JSON texts beside their reader.  White space is free between tokens, a character of a
string may be written in several ways, and a number is its spelling.

* Strings.  `WritesChars` has a rule for each way to write a character; `readString_of_writes` reads
  the characters back.
* Numbers.  `IsNumber` is the grammar of numbers; `number?_of_isNumber` finds the end of one.
* Values.  `Writes` has a rule for each kind of value, with `WritesPadded`, `WritesItems` and
  `WritesMembers` for what stands inside others.
* Reading.  `readValue_of_writes` and the three lemmas with it are one induction over the four;
  `read_of_writesText` is for whole texts.
-/

namespace ArtifactGraph.Json

/-! ## White space -/

/-- Characters that may stand between tokens. -/
def IsGap (cs : List Char) : Prop := ∀ c ∈ cs, isSpace c = true

theorem isGap_nil : IsGap [] := fun _ hc => absurd hc List.not_mem_nil

theorem IsGap.skipSpace_append {gap : List Char} (h : IsGap gap) (rest : List Char) :
    skipSpace (gap ++ rest) = skipSpace rest :=
  List.dropWhile_append_of_pos h

theorem IsGap.skipSpace_eq_nil {gap : List Char} (h : IsGap gap) : skipSpace gap = [] :=
  List.dropWhile_eq_nil_iff.2 h

theorem skipSpace_skipSpace (cs : List Char) : skipSpace (skipSpace cs) = skipSpace cs :=
  List.dropWhile_idempotent _ cs

theorem skipSpace_cons {c : Char} (h : isSpace c = false) (rest : List Char) :
    skipSpace (c :: rest) = c :: rest := by
  rw [skipSpace, List.dropWhile_cons, h, if_neg Bool.false_ne_true]

/-! ## Strings -/

/-- Four hexadecimal digits, and the number that they are. -/
def IsCode (digits : List Char) (n : Nat) : Prop :=
  digits.length = 4 ∧ Text.number? 16 digits = some n

/-- How the characters of a string may be written: as they are, as an escape of two characters, or
by their code points, which are two codes beyond the first 65536 characters. -/
inductive WritesChars : List Char → List Char → Prop
  | nil : WritesChars [] []
  | plain {c : Char} {cs chars : List Char} (hquote : c ≠ '\x22') (hescape : c ≠ '\\')
      (hcontrol : 0x20 ≤ c.toNat) (hrest : WritesChars cs chars) :
      WritesChars (c :: cs) (c :: chars)
  | short {e c : Char} {cs chars : List Char} (he : shortEscape? e = some c)
      (hrest : WritesChars cs chars) : WritesChars ('\\' :: e :: cs) (c :: chars)
  | code {c : Char} {digits cs chars : List Char} (hcode : IsCode digits c.toNat)
      (hrest : WritesChars cs chars) : WritesChars ('\\' :: 'u' :: (digits ++ cs)) (c :: chars)
  | pair {c : Char} {high low cs chars : List Char} (hbeyond : 0x10000 ≤ c.toNat)
      (hhigh : IsCode high (0xD800 + (c.toNat - 0x10000) / 0x400))
      (hlow : IsCode low (0xDC00 + (c.toNat - 0x10000) % 0x400)) (hrest : WritesChars cs chars) :
      WritesChars ('\\' :: 'u' :: (high ++ '\\' :: 'u' :: (low ++ cs))) (c :: chars)

theorem not_surrogate (c : Char) :
    isHighSurrogate c.toNat = false ∧ isLowSurrogate c.toNat = false := by
  have hvalid : c.toNat < 0xD800 ∨ 0xDFFF < c.toNat ∧ c.toNat < 0x110000 := c.valid
  simp only [isHighSurrogate, isLowSurrogate, Bool.and_eq_false_iff, decide_eq_false_iff_not]
  omega

section

variable {d : StringDraft} {c : Char} {rest : List Char}

theorem readString_quote : readString .plain d ('\x22' :: rest) = d.token rest := rfl

theorem readString_plain (hquote : c ≠ '\x22') (hescape : c ≠ '\\') (hcontrol : 0x20 ≤ c.toNat) :
    readString .plain d (c :: rest) = readString .plain (d.push c) rest := by
  rw [readString, if_neg (by simpa using hquote), if_neg (by simpa using hescape),
    if_neg (by omega)]

theorem readString_short {e : Char} (he : shortEscape? e = some c) :
    readString .plain d ('\\' :: e :: rest) = readString .plain (d.push c) rest := by
  have hu : e ≠ 'u' := by
    rintro rfl
    cases he
  show readString .escape d (e :: rest) = _
  rw [readString, if_neg (by simpa using hu), he]

/-- The digits of a code are read one by one. -/
theorem readString_code {digits : List Char} {n : Nat} (h : IsCode digits n) :
    readString .plain d ('\\' :: 'u' :: (digits ++ rest)) =
      readString .plain (d.pushCode n) rest := by
  obtain ⟨hlength, hnumber⟩ := h
  obtain ⟨a, b, c, e, rfl⟩ : ∃ a b c e, digits = [a, b, c, e] := by
    match digits, hlength with
    | [a, b, c, e], _ => exact ⟨a, b, c, e, rfl⟩
  simp only [Text.number?, List.foldlM_cons, List.foldlM_nil, Option.bind_eq_bind,
    Option.bind_eq_some_iff, Option.map_eq_some_iff, Option.pure_def, Option.some.injEq] at hnumber
  obtain ⟨_, ⟨p, hp, rfl⟩, _, ⟨q, hq, rfl⟩, _, ⟨r, hr, rfl⟩, _, ⟨s, hs, rfl⟩, rfl⟩ := hnumber
  show readString (.code 3 0) d (a :: b :: c :: e :: rest) = _
  simp only [readString, hp, hq, hr, hs]
  congr 2
  omega

end

/-- A draft of some characters, in which nothing is pending. -/
def draftOf (read : List Char) : StringDraft := { read := read }

theorem push_draftOf (read : List Char) (c : Char) : (draftOf read).push c = draftOf (c :: read) :=
  rfl

theorem pushCode_draftOf (read : List Char) (c : Char) :
    (draftOf read).pushCode c.toNat = draftOf (c :: read) := by
  obtain ⟨hhigh, hlow⟩ := not_surrogate c
  rw [StringDraft.pushCode, hhigh, hlow, if_neg Bool.false_ne_true, if_neg Bool.false_ne_true,
    Char.ofNat_toNat, push_draftOf]

/-- The two codes of a character beyond the first 65536 are its two halves. -/
theorem pushCode_pushCode_draftOf (read : List Char) {c : Char} (h : 0x10000 ≤ c.toNat) :
    ((draftOf read).pushCode (0xD800 + (c.toNat - 0x10000) / 0x400)).pushCode
        (0xDC00 + (c.toNat - 0x10000) % 0x400) = draftOf (c :: read) := by
  have hvalid : c.toNat < 0xD800 ∨ 0xDFFF < c.toNat ∧ c.toNat < 0x110000 := c.valid
  generalize hhigh : 0xD800 + (c.toNat - 0x10000) / 0x400 = high
  generalize hlow : 0xDC00 + (c.toNat - 0x10000) % 0x400 = low
  have hpaired : pairedSurrogates high low = c.toNat := by
    unfold pairedSurrogates
    omega
  have hfirst : isHighSurrogate high = true ∧ isLowSurrogate high = false := by
    simp only [isHighSurrogate, isLowSurrogate, Bool.and_eq_true, Bool.and_eq_false_iff,
      decide_eq_true_eq, decide_eq_false_iff_not]
    omega
  have hsecond : isLowSurrogate low = true := by
    simp only [isLowSurrogate, Bool.and_eq_true, decide_eq_true_eq]
    omega
  have hpending : (draftOf read).pushCode high = { read := read, high := some high } := by
    rw [StringDraft.pushCode, hfirst.1, hfirst.2, if_neg Bool.false_ne_true, if_pos rfl]
    rfl
  rw [hpending, StringDraft.pushCode, hsecond, if_pos rfl]
  show draftOf (Char.ofNat (pairedSurrogates high low) :: read) = _
  rw [hpaired, Char.ofNat_toNat]

/-- The characters of a string are read back, however they are written. -/
theorem readString_draftOf {cs chars : List Char} (h : WritesChars cs chars)
    (read rest : List Char) :
    readString .plain (draftOf read) (cs ++ '\x22' :: rest) =
      .text (read.reverse ++ chars) rest := by
  induction h generalizing read with
  | nil =>
    rw [List.nil_append, readString_quote, List.append_nil]
    rfl
  | plain hquote hescape hcontrol _ ih =>
    rw [List.cons_append, readString_plain hquote hescape hcontrol, push_draftOf, ih]
    simp
  | short he _ ih =>
    rw [List.cons_append, List.cons_append, readString_short he, push_draftOf, ih]
    simp
  | code hcode _ ih =>
    rw [List.cons_append, List.cons_append, List.append_assoc, readString_code hcode,
      pushCode_draftOf, ih]
    simp
  | pair hbeyond hhigh hlow _ ih =>
    rw [List.cons_append, List.cons_append, List.append_assoc, List.cons_append, List.cons_append,
      List.append_assoc, readString_code hhigh, readString_code hlow,
      pushCode_pushCode_draftOf read hbeyond, ih]
    simp

theorem readString_of_writes {cs chars : List Char} (h : WritesChars cs chars)
    (rest : List Char) : readString .plain {} (cs ++ '\x22' :: rest) = .text chars rest :=
  readString_draftOf h [] rest

/-! ## Numbers -/

/-- One digit or more. -/
def IsDigits (cs : List Char) : Prop := cs ≠ [] ∧ ∀ c ∈ cs, c.isDigit = true

/-- A whole number without a needless zero in front. -/
def IsWhole (cs : List Char) : Prop := IsDigits cs ∧ (cs.head? = some '0' → cs = ['0'])

/-- A point with digits behind it, or nothing. -/
def IsFraction (cs : List Char) : Prop := cs = [] ∨ ∃ digits, IsDigits digits ∧ cs = '.' :: digits

/-- A power of ten, or nothing. -/
def IsExponent (cs : List Char) : Prop :=
  cs = [] ∨ ∃ e ∈ ['e', 'E'], ∃ sign ∈ [[], ['+'], ['-']], ∃ digits, IsDigits digits ∧
    cs = e :: (sign ++ digits)

/-- The spelling of a number. -/
inductive IsNumber : List Char → Prop
  | intro {sign whole fraction exponent : List Char} (hsign : sign ∈ [[], ['-']])
      (hwhole : IsWhole whole) (hfraction : IsFraction fraction) (hexponent : IsExponent exponent) :
      IsNumber (sign ++ (whole ++ (fraction ++ exponent)))

/-- Characters that do not go on with a token before them. -/
def EndsToken (cs : List Char) : Prop :=
  ∀ c ∈ cs.head?, isSpace c = true ∨ c ∈ [',', ']', '\x7d']

theorem endsToken_nil : EndsToken [] := fun _ hc => nomatch hc

theorem endsToken_cons {c : Char} (h : c ∈ [',', ']', '\x7d']) (rest : List Char) :
    EndsToken (c :: rest) := by
  intro d hd
  cases hd
  exact .inr h

theorem IsGap.endsToken_append {gap rest : List Char} (h : IsGap gap) (hrest : EndsToken rest) :
    EndsToken (gap ++ rest) := by
  cases gap with
  | nil => exact hrest
  | cons c more =>
    intro d hd
    cases hd
    exact .inl (h c List.mem_cons_self)

/-- What ends a token is not part of a number. -/
theorem EndsToken.not_number {cs : List Char} (h : EndsToken cs) :
    ∀ c ∈ cs.head?, c.isDigit = false ∧ c ∉ ['.', 'e', 'E'] := by
  intro c hc
  rcases h c hc with hspace | hmark
  · simp only [isSpace, Bool.or_eq_true, beq_iff_eq] at hspace
    rcases hspace with ((rfl | rfl) | rfl) | rfl <;> decide
  · simp only [List.mem_cons, List.not_mem_nil, or_false] at hmark
    rcases hmark with rfl | rfl | rfl <;> decide

theorem spanDigits_append {digits rest : List Char} (h : ∀ c ∈ digits, c.isDigit = true)
    (hrest : ∀ c ∈ rest.head?, c.isDigit = false) :
    spanDigits (digits ++ rest) = (digits, rest) := by
  have hnone : rest.takeWhile Char.isDigit = [] ∧ rest.dropWhile Char.isDigit = rest := by
    cases rest with
    | nil => exact ⟨rfl, rfl⟩
    | cons c more => simp [hrest c rfl]
  rw [spanDigits, List.takeWhile_append_of_pos h, List.dropWhile_append_of_pos h, hnone.1, hnone.2,
    List.append_nil]

theorem wholePart?_append {whole rest : List Char} (h : IsWhole whole)
    (hrest : ∀ c ∈ rest.head?, c.isDigit = false) :
    wholePart? (whole ++ rest) = some (whole, rest) := by
  obtain ⟨⟨hne, hdigits⟩, hzero⟩ := h
  rw [wholePart?, spanDigits_append hdigits hrest]
  cases whole with
  | nil => exact absurd rfl hne
  | cons c more =>
    by_cases hc : c = '0'
    · subst hc
      obtain rfl : more = [] := by simpa using hzero rfl
      rfl
    · split
      · rename_i heq
        cases heq
      · rename_i heq
        cases heq
        exact absurd rfl hc
      · rename_i heq
        cases heq
        exact absurd rfl hc
      · rename_i heq
        cases heq
        rfl

theorem fractionPart?_append {fraction rest : List Char} (h : IsFraction fraction)
    (hrest : ∀ c ∈ rest.head?, c.isDigit = false ∧ c ≠ '.') :
    fractionPart? (fraction ++ rest) = some (fraction, rest) := by
  rcases h with rfl | ⟨digits, ⟨hne, hdigits⟩, rfl⟩
  · rw [List.nil_append, fractionPart?]
    rintro more rfl
    exact (hrest '.' rfl).2 rfl
  · rw [List.cons_append, fractionPart?, spanDigits_append hdigits fun c hc => (hrest c hc).1]
    cases digits with
    | nil => exact absurd rfl hne
    | cons c more => rfl

theorem exponentSign_append {sign digits rest : List Char} (hsign : sign ∈ [[], ['+'], ['-']])
    (h : IsDigits digits) : exponentSign (sign ++ (digits ++ rest)) = (sign, digits ++ rest) := by
  obtain ⟨hne, hdigits⟩ := h
  simp only [List.mem_cons, List.not_mem_nil, or_false] at hsign
  rcases hsign with rfl | rfl | rfl
  · cases digits with
    | nil => exact absurd rfl hne
    | cons c more =>
      have hc := hdigits c List.mem_cons_self
      rw [List.nil_append, List.cons_append, exponentSign]
      · rintro tail heq
        rw [(List.cons.inj heq).1] at hc
        exact absurd hc (by decide)
      · rintro tail heq
        rw [(List.cons.inj heq).1] at hc
        exact absurd hc (by decide)
  · rfl
  · rfl

theorem exponentPart?_append {exponent rest : List Char} (h : IsExponent exponent)
    (hrest : ∀ c ∈ rest.head?, c.isDigit = false ∧ c ∉ ['.', 'e', 'E']) :
    exponentPart? (exponent ++ rest) = some (exponent, rest) := by
  rcases h with rfl | ⟨e, he, sign, hsign, digits, hdigits, rfl⟩
  · cases rest with
    | nil => rfl
    | cons c more =>
      have hc := (hrest c rfl).2
      simp only [List.mem_cons, List.not_mem_nil, or_false, not_or] at hc
      rw [List.nil_append, exponentPart?, if_neg (by simp [hc])]
  · have hmark : (e == 'e' || e == 'E') = true := by simpa using he
    rw [List.cons_append, List.append_assoc, exponentPart?, if_pos hmark,
      exponentSign_append hsign hdigits]
    simp only [spanDigits_append hdigits.2 fun c hc => (hrest c hc).1]
    cases digits with
    | nil => exact absurd rfl hdigits.1
    | cons c more => rfl

theorem IsFraction.head? {fraction rest : List Char} (h : IsFraction fraction)
    (hrest : ∀ c ∈ rest.head?, c.isDigit = false) :
    ∀ c ∈ (fraction ++ rest).head?, c.isDigit = false := by
  rcases h with rfl | ⟨digits, -, rfl⟩
  · exact hrest
  · intro c hc
    cases hc
    decide

theorem IsExponent.head? {exponent rest : List Char} (h : IsExponent exponent)
    (hrest : ∀ c ∈ rest.head?, c.isDigit = false ∧ c ≠ '.') :
    ∀ c ∈ (exponent ++ rest).head?, c.isDigit = false ∧ c ≠ '.' := by
  rcases h with rfl | ⟨e, he, sign, -, digits, -, rfl⟩
  · exact hrest
  · intro c hc
    cases hc
    simp only [List.mem_cons, List.not_mem_nil, or_false] at he
    rcases he with rfl | rfl <;> decide

theorem IsWhole.exists_cons {whole : List Char} (h : IsWhole whole) :
    ∃ c more, whole = c :: more ∧ c.isDigit = true := by
  obtain ⟨⟨hne, hdigits⟩, -⟩ := h
  obtain ⟨c, more, rfl⟩ := List.exists_cons_of_ne_nil hne
  exact ⟨c, more, rfl, hdigits c List.mem_cons_self⟩

/-- A number is read to its end. -/
theorem number?_of_isNumber {cs rest : List Char} (h : IsNumber cs) (hrest : EndsToken rest) :
    number? (cs ++ rest) = some (cs, rest) := by
  obtain @⟨sign, whole, fraction, exponent, hsign, hwhole, hfraction, hexponent⟩ := h
  have hend := hrest.not_number
  have hpoint : ∀ c ∈ rest.head?, c.isDigit = false ∧ c ≠ '.' := fun c hc =>
    ⟨(hend c hc).1, fun heq => (hend c hc).2 (heq ▸ List.mem_cons_self)⟩
  have hbehindFraction := hexponent.head? hpoint
  have hbehindWhole := hfraction.head? fun c hc => (hbehindFraction c hc).1
  have hwholePart := wholePart?_append hwhole hbehindWhole
  have hfractionPart := fractionPart?_append hfraction hbehindFraction
  have hexponentPart := exponentPart?_append hexponent hend
  rw [List.append_assoc, List.append_assoc, List.append_assoc]
  simp only [List.mem_cons, List.not_mem_nil, or_false] at hsign
  rcases hsign with rfl | rfl
  · obtain ⟨c, more, rfl, hc⟩ := hwhole.exists_cons
    rw [List.nil_append, number?]
    · rw [hwholePart]
      simp [hfractionPart, hexponentPart]
    · intro tail heq
      rw [(List.cons.inj heq).1] at hc
      exact absurd hc (by decide)
  · rw [List.singleton_append, number?, hwholePart]
    simp [hfractionPart, hexponentPart]

/-! ## Values -/

/-- The name of a member, with the colon behind it. -/
inductive WritesName : List Char → String → Prop
  | intro {before cs after chars : List Char} (hbefore : IsGap before)
      (hchars : WritesChars cs chars) (hafter : IsGap after) :
      WritesName (before ++ '\x22' :: (cs ++ '\x22' :: (after ++ [':']))) (String.ofList chars)

mutual
/-- How a value may be written. -/
inductive Writes : List Char → Json → Prop
  | null : Writes ['n', 'u', 'l', 'l'] .null
  | boolTrue : Writes ['t', 'r', 'u', 'e'] (.bool true)
  | boolFalse : Writes ['f', 'a', 'l', 's', 'e'] (.bool false)
  | number {cs : List Char} (h : IsNumber cs) : Writes cs (.number (String.ofList cs))
  | string {cs chars : List Char} (h : WritesChars cs chars) :
      Writes ('\x22' :: (cs ++ ['\x22'])) (.string (String.ofList chars))
  | emptyArray {gap : List Char} (hgap : IsGap gap) : Writes ('[' :: (gap ++ [']'])) (.array [])
  | array {cs : List Char} {items : List Json} (h : WritesItems cs items) :
      Writes ('[' :: (cs ++ [']'])) (.array items)
  | emptyObject {gap : List Char} (hgap : IsGap gap) :
      Writes ('\x7b' :: (gap ++ ['\x7d'])) (.object [])
  | object {cs : List Char} {members : List (String × Json)} (h : WritesMembers cs members) :
      Writes ('\x7b' :: (cs ++ ['\x7d'])) (.object members)

/-- A value with white space around it. -/
inductive WritesPadded : List Char → Json → Prop
  | intro {before cs after : List Char} {v : Json} (hbefore : IsGap before) (h : Writes cs v)
      (hafter : IsGap after) : WritesPadded (before ++ (cs ++ after)) v

/-- Values with commas between them. -/
inductive WritesItems : List Char → List Json → Prop
  | one {cs : List Char} {v : Json} (h : WritesPadded cs v) : WritesItems cs [v]
  | cons {cs rest : List Char} {v : Json} {items : List Json} (h : WritesPadded cs v)
      (hrest : WritesItems rest items) : WritesItems (cs ++ ',' :: rest) (v :: items)

/-- Members with commas between them. -/
inductive WritesMembers : List Char → List (String × Json) → Prop
  | one {name cs : List Char} {s : String} {v : Json} (hname : WritesName name s)
      (h : WritesPadded cs v) : WritesMembers (name ++ cs) [(s, v)]
  | cons {name cs rest : List Char} {s : String} {v : Json} {members : List (String × Json)}
      (hname : WritesName name s) (h : WritesPadded cs v) (hrest : WritesMembers rest members) :
      WritesMembers (name ++ (cs ++ ',' :: rest)) ((s, v) :: members)
end

/-- A text is a value with white space around it. -/
def WritesText (text : String) (v : Json) : Prop := WritesPadded text.toList v

theorem Writes.padded {before cs after : List Char} {v : Json} (h : Writes cs v)
    (hbefore : IsGap before) (hafter : IsGap after) : WritesPadded (before ++ (cs ++ after)) v :=
  .intro hbefore h hafter

theorem WritesItems.ne_nil {cs : List Char} {items : List Json} (h : WritesItems cs items) :
    items ≠ [] := by
  cases h <;> exact List.cons_ne_nil _ _

theorem WritesMembers.ne_nil {cs : List Char} {members : List (String × Json)}
    (h : WritesMembers cs members) : members ≠ [] := by
  cases h <;> exact List.cons_ne_nil _ _

/-- A number begins with a sign or a digit. -/
theorem IsNumber.exists_cons {cs : List Char} (h : IsNumber cs) :
    ∃ c rest, cs = c :: rest ∧ (c = '-' ∨ c.isDigit = true) := by
  obtain @⟨sign, whole, fraction, exponent, hsign, hwhole, -, -⟩ := h
  simp only [List.mem_cons, List.not_mem_nil, or_false] at hsign
  rcases hsign with rfl | rfl
  · obtain ⟨c, more, rfl, hc⟩ := hwhole.exists_cons
    exact ⟨c, _, rfl, .inr hc⟩
  · exact ⟨'-', _, rfl, .inl rfl⟩

/-- What a value begins with is no white space, and does not end an array. -/
theorem Writes.exists_cons {cs : List Char} {v : Json} (h : Writes cs v) :
    ∃ c rest, cs = c :: rest ∧ isSpace c = false ∧ c ≠ ']' := by
  cases h with
  | null => exact ⟨_, _, rfl, rfl, by decide⟩
  | boolTrue => exact ⟨_, _, rfl, rfl, by decide⟩
  | boolFalse => exact ⟨_, _, rfl, rfl, by decide⟩
  | number h =>
    obtain ⟨c, rest, rfl, hc⟩ := h.exists_cons
    refine ⟨c, rest, rfl, ?_⟩
    rcases hc with rfl | hc
    · decide
    · constructor
      · rw [isSpace]
        simp only [Bool.or_eq_false_iff, beq_eq_false_iff_ne]
        refine ⟨⟨⟨?_, ?_⟩, ?_⟩, ?_⟩ <;> rintro rfl <;> exact absurd hc (by decide)
      · rintro rfl
        exact absurd hc (by decide)
  | string => exact ⟨_, _, rfl, rfl, by decide⟩
  | emptyArray => exact ⟨_, _, rfl, rfl, by decide⟩
  | array => exact ⟨_, _, rfl, rfl, by decide⟩
  | emptyObject => exact ⟨_, _, rfl, rfl, by decide⟩
  | object => exact ⟨_, _, rfl, rfl, by decide⟩

theorem WritesPadded.skipSpace_append {cs : List Char} {v : Json} (h : WritesPadded cs v)
    (rest : List Char) : ∃ c more, skipSpace (cs ++ rest) = c :: more ∧ c ≠ ']' := by
  obtain ⟨hbefore, hvalue, -⟩ := h
  obtain ⟨c, more, rfl, hspace, hc⟩ := hvalue.exists_cons
  rw [List.append_assoc, hbefore.skipSpace_append, List.cons_append, List.cons_append,
    skipSpace_cons hspace]
  exact ⟨c, _, rfl, hc⟩

theorem WritesItems.skipSpace_append {cs : List Char} {items : List Json} (h : WritesItems cs items)
    (rest : List Char) : ∃ c more, skipSpace (cs ++ rest) = c :: more ∧ c ≠ ']' := by
  cases h with
  | one h => exact h.skipSpace_append rest
  | cons h hrest =>
    rw [List.append_assoc]
    exact h.skipSpace_append _

theorem WritesName.skipSpace_append {cs : List Char} {s : String} (h : WritesName cs s)
    (rest : List Char) : ∃ more, skipSpace (cs ++ rest) = '\x22' :: more := by
  obtain ⟨hbefore, -, -⟩ := h
  rw [List.append_assoc, hbefore.skipSpace_append, List.cons_append, skipSpace_cons rfl]
  exact ⟨_, rfl⟩

theorem WritesMembers.skipSpace_append {cs : List Char} {members : List (String × Json)}
    (h : WritesMembers cs members) (rest : List Char) :
    ∃ more, skipSpace (cs ++ rest) = '\x22' :: more := by
  cases h with
  | one hname h =>
    rw [List.append_assoc]
    exact hname.skipSpace_append _
  | cons hname h hrest =>
    rw [List.append_assoc]
    exact hname.skipSpace_append _

mutual
/-- Nothing in a value that is written breaks a text off. -/
theorem Writes.skippable {cs : List Char} {v : Json} (h : Writes cs v) : v.skippable = true := by
  match h with
  | .null => rfl
  | .boolTrue => rfl
  | .boolFalse => rfl
  | .number _ => rfl
  | .string _ => rfl
  | .emptyArray _ => rfl
  | .array h => exact h.skippableItems
  | .emptyObject _ => rfl
  | .object h => exact h.skippableMembers

theorem WritesPadded.skippable {cs : List Char} {v : Json} (h : WritesPadded cs v) :
    v.skippable = true := by
  match h with
  | .intro _ h _ => exact h.skippable

theorem WritesItems.skippableItems {cs : List Char} {items : List Json} (h : WritesItems cs items) :
    skippableItems items = true := by
  match h with
  | .one h => simp only [Json.skippableItems, h.skippable, Bool.and_true]
  | .cons h hrest =>
    simp only [Json.skippableItems, h.skippable, hrest.skippableItems, Bool.and_true]

theorem WritesMembers.skippableMembers {cs : List Char} {members : List (String × Json)}
    (h : WritesMembers cs members) : skippableMembers members = true := by
  match h with
  | .one _ h => simp only [Json.skippableMembers, h.skippable, Bool.and_true]
  | .cons _ h hrest =>
    simp only [Json.skippableMembers, h.skippable, hrest.skippableMembers, Bool.and_true]
end

theorem WritesPadded.exists_writes {cs : List Char} {v : Json} (h : WritesPadded cs v) :
    ∃ cs, Writes cs v := by
  obtain ⟨-, h, -⟩ := h
  exact ⟨_, h⟩

theorem WritesMembers.exists_writes {cs : List Char} {members : List (String × Json)}
    (h : WritesMembers cs members) : ∀ m ∈ members, ∃ cs, Writes cs m.2 := by
  intro m hm
  match h with
  | .one _ h =>
    rw [List.mem_singleton.1 hm]
    exact h.exists_writes
  | .cons _ h hrest =>
    rcases List.mem_cons.1 hm with rfl | hm
    · exact h.exists_writes
    · exact hrest.exists_writes m hm

/-- The values of an object's members are written in its text. -/
theorem WritesText.exists_writes_members {text : String} {members : List (String × Json)}
    (h : WritesText text (.object members)) : ∀ m ∈ members, ∃ cs, Writes cs m.2 := by
  obtain ⟨cs, hcs⟩ := WritesPadded.exists_writes h
  cases hcs with
  | emptyObject hgap => exact fun m hm => absurd hm List.not_mem_nil
  | object hmembers => exact hmembers.exists_writes

/-! ## Reading -/

/-- White space in front of a value is passed over. -/
theorem readValue_skipSpace (n : Nat) (cs : List Char) :
    readValue n (skipSpace cs) = readValue n cs := by
  cases n with
  | zero => rfl
  | succ n => rw [readValue, readValue, skipSpace_skipSpace]

theorem readItems_skipSpace (n : Nat) (read : List Json) (cs : List Char) :
    readItems n read (skipSpace cs) = readItems n read cs := by
  cases n with
  | zero => rfl
  | succ n => rw [readItems, readItems, readValue_skipSpace]

theorem readMembers_skipSpace (n : Nat) (read : List (String × Json)) (cs : List Char) :
    readMembers n read (skipSpace cs) = readMembers n read cs := by
  cases n with
  | zero => rfl
  | succ n => rw [readMembers, readMembers, skipSpace_skipSpace]

section

variable {n : Nat} {cs rest : List Char}

theorem readValue_number (h : IsNumber cs) (hrest : EndsToken rest) :
    readValue (n + 1) (cs ++ rest) = (.number (String.ofList cs), some rest) := by
  have hread := number?_of_isNumber h hrest
  obtain ⟨c, more, rfl, hc⟩ := h.exists_cons
  obtain ⟨d, tail, heq, hspace, -⟩ := (Writes.number h).exists_cons
  obtain ⟨rfl, rfl⟩ := List.cons.inj heq
  have hmark : c ∉ ['\x7b', '[', '\x22', 't', 'f', 'n'] := by
    rcases hc with rfl | hc
    · decide
    · intro hmem
      simp only [List.mem_cons, List.not_mem_nil, or_false] at hmem
      rcases hmem with rfl | rfl | rfl | rfl | rfl | rfl <;> exact absurd hc (by decide)
  simp only [List.mem_cons, List.not_mem_nil, or_false, not_or] at hmark
  obtain ⟨hbrace, hbracket, hquote, htrue, hfalse, hnull⟩ := hmark
  rw [List.cons_append] at hread ⊢
  rw [readValue, skipSpace_cons hspace]
  -- no other kind of value begins with a sign or a digit
  split
  · rename_i heq
    exact absurd (List.cons.inj heq).1 hbrace
  · rename_i heq
    exact absurd (List.cons.inj heq).1 hbracket
  · rename_i heq
    exact absurd (List.cons.inj heq).1 hquote
  · rename_i heq
    exact absurd (List.cons.inj heq).1 htrue
  · rename_i heq
    exact absurd (List.cons.inj heq).1 hfalse
  · rename_i heq
    exact absurd (List.cons.inj heq).1 hnull
  · rw [hread]

theorem readValue_string {chars : List Char} (h : WritesChars cs chars) :
    readValue (n + 1) ('\x22' :: (cs ++ '\x22' :: rest)) =
      (.string (String.ofList chars), some rest) := by
  rw [readValue, skipSpace_cons rfl]
  simp only [readString_of_writes h]

theorem readValue_emptyArray {gap : List Char} (h : IsGap gap) :
    readValue (n + 1) ('[' :: (gap ++ ']' :: rest)) = (.array [], some rest) := by
  rw [readValue, skipSpace_cons rfl]
  simp only [h.skipSpace_append, skipSpace_cons (c := ']') rfl]

theorem readValue_array {c : Char} {more : List Char} (h : skipSpace cs = c :: more)
    (hc : c ≠ ']') : readValue (n + 1) ('[' :: cs) = readItems n [] cs := by
  rw [readValue, skipSpace_cons rfl, ← readItems_skipSpace]
  simp only [h]
  split
  · rename_i heq
    exact absurd (List.cons.inj heq).1 hc
  · rfl

theorem readValue_emptyObject {gap : List Char} (h : IsGap gap) :
    readValue (n + 1) ('\x7b' :: (gap ++ '\x7d' :: rest)) = (.object [], some rest) := by
  rw [readValue, skipSpace_cons rfl]
  simp only [h.skipSpace_append, skipSpace_cons (c := '\x7d') rfl]

theorem readValue_object {more : List Char} (h : skipSpace cs = '\x22' :: more) :
    readValue (n + 1) ('\x7b' :: cs) = readMembers n [] cs := by
  rw [readValue, skipSpace_cons rfl, ← readMembers_skipSpace]
  simp only [h]
  rfl

/-- An item is read up to the character behind it, which says how the array goes on. -/
theorem readItems_of_readValue {v : Json} {gap : List Char} (hgap : IsGap gap) (read : List Json)
    (h : readValue n cs = (v, some (gap ++ rest))) :
    readItems (n + 1) read cs =
      match skipSpace rest with
      | ',' :: rest' => readItems n (v :: read) rest'
      | ']' :: rest' => (.array ((v :: read).reverse), some rest')
      | _ => (.array ((v :: read).reverse ++ [.fault false]), none) := by
  rewrite [readItems, h, ← hgap.skipSpace_append rest]
  rfl

/-- A member is read up to the character behind it, which says how the object goes on. -/
theorem readMembers_of_readValue {s : String} {v : Json} {name gap : List Char}
    (hname : WritesName name s) (hgap : IsGap gap) (read : List (String × Json))
    (h : readValue n cs = (v, some (gap ++ rest))) :
    readMembers (n + 1) read (name ++ cs) =
      match skipSpace rest with
      | ',' :: rest' => readMembers n ((s, v) :: read) rest'
      | '\x7d' :: rest' => (.object (((s, v) :: read).reverse), some rest')
      | _ => brokenMembers ((s, v) :: read) := by
  obtain ⟨hbefore, hchars, hafter⟩ := hname
  rw [List.append_assoc, List.cons_append, List.append_assoc, List.cons_append, List.append_assoc,
    List.singleton_append, readMembers, hbefore.skipSpace_append, skipSpace_cons rfl]
  simp only [readString_of_writes hchars, StringToken.name?, hafter.skipSpace_append,
    skipSpace_cons (c := ':') rfl, h, hgap.skipSpace_append]
  rfl

end

-- The induction is on how a value is written.  Every item and every member is followed by a
-- character of its own, which pays for the unit of fuel that it costs besides its value.
mutual
/-- A value is read to its end, if there is fuel for its characters. -/
theorem readValue_of_writes {n : Nat} {cs rest : List Char} {v : Json} (h : Writes cs v)
    (hn : cs.length ≤ n) (hrest : EndsToken rest) :
    readValue n (cs ++ rest) = (v, some rest) := by
  obtain ⟨c, tail, hcons, -⟩ := h.exists_cons
  have hpositive : 0 < cs.length := by simp [hcons]
  obtain ⟨n, rfl⟩ : ∃ m, n = m + 1 := Nat.exists_eq_add_one.2 (by omega)
  match h with
  | .null => rfl
  | .boolTrue => rfl
  | .boolFalse => rfl
  | .number h => exact readValue_number h hrest
  | .string h =>
    rw [List.cons_append, List.append_assoc]
    exact readValue_string h
  | .emptyArray hgap =>
    rw [List.cons_append, List.append_assoc]
    exact readValue_emptyArray hgap
  | .array h =>
    obtain ⟨d, more, hskip, hd⟩ := h.skipSpace_append (']' :: rest)
    rw [List.cons_append, List.append_assoc, List.singleton_append, readValue_array hskip hd]
    exact readItems_of_writes h (by simpa [Nat.succ_le_iff] using hn) []
  | .emptyObject hgap =>
    rw [List.cons_append, List.append_assoc]
    exact readValue_emptyObject hgap
  | .object h =>
    obtain ⟨more, hskip⟩ := h.skipSpace_append ('\x7d' :: rest)
    rw [List.cons_append, List.append_assoc, List.singleton_append, readValue_object hskip]
    exact readMembers_of_writes h (by simpa [Nat.succ_le_iff] using hn) []

/-- White space may be left behind a value. -/
theorem readValue_of_writesPadded {n : Nat} {cs rest : List Char} {v : Json}
    (h : WritesPadded cs v) (hn : cs.length ≤ n) (hrest : EndsToken rest) :
    ∃ gap, IsGap gap ∧ readValue n (cs ++ rest) = (v, some (gap ++ rest)) := by
  match h with
  | @WritesPadded.intro before cs after v hbefore h hafter =>
    have hlength : cs.length ≤ n := by
      simp only [List.length_append] at hn
      omega
    refine ⟨after, hafter, ?_⟩
    rw [← readValue_skipSpace, List.append_assoc, hbefore.skipSpace_append, readValue_skipSpace,
      List.append_assoc]
    exact readValue_of_writes h hlength (hafter.endsToken_append hrest)

theorem readItems_of_writes {n : Nat} {cs rest : List Char} {items : List Json}
    (h : WritesItems cs items) (hn : cs.length < n) (read : List Json) :
    readItems n read (cs ++ ']' :: rest) = (.array (read.reverse ++ items), some rest) := by
  obtain ⟨n, rfl⟩ : ∃ m, n = m + 1 := Nat.exists_eq_add_one.2 (by omega)
  match h with
  | .one h =>
    obtain ⟨gap, hgap, hread⟩ := readValue_of_writesPadded h (Nat.le_of_lt_succ hn)
      (endsToken_cons (c := ']') (by simp) rest)
    rw [readItems_of_readValue hgap read hread, skipSpace_cons (c := ']') rfl, List.reverse_cons]
    rfl
  | @WritesItems.cons cs more v items h hmore =>
    have hlength : cs.length + more.length < n := by
      simp only [List.length_append, List.length_cons] at hn
      omega
    obtain ⟨gap, hgap, hread⟩ := readValue_of_writesPadded (n := n) h (by omega)
      (endsToken_cons (c := ',') (by simp) (more ++ ']' :: rest))
    rw [List.append_assoc, List.cons_append, readItems_of_readValue hgap read hread,
      skipSpace_cons (c := ',') rfl]
    show readItems n (v :: read) (more ++ ']' :: rest) = _
    rw [readItems_of_writes hmore (by omega), List.reverse_cons, ← List.append_cons]

theorem readMembers_of_writes {n : Nat} {cs rest : List Char} {members : List (String × Json)}
    (h : WritesMembers cs members) (hn : cs.length < n) (read : List (String × Json)) :
    readMembers n read (cs ++ '\x7d' :: rest) = (.object (read.reverse ++ members), some rest) := by
  obtain ⟨n, rfl⟩ : ∃ m, n = m + 1 := Nat.exists_eq_add_one.2 (by omega)
  match h with
  | @WritesMembers.one name cs s v hname h =>
    have hlength : cs.length ≤ n := by
      simp only [List.length_append] at hn
      omega
    obtain ⟨gap, hgap, hread⟩ := readValue_of_writesPadded h hlength
      (endsToken_cons (c := '\x7d') (by simp) rest)
    rw [List.append_assoc, readMembers_of_readValue hname hgap read hread,
      skipSpace_cons (c := '\x7d') rfl, List.reverse_cons]
    rfl
  | @WritesMembers.cons name cs more s v members hname h hmore =>
    have hlength : cs.length + more.length < n := by
      simp only [List.length_append, List.length_cons] at hn
      omega
    obtain ⟨gap, hgap, hread⟩ := readValue_of_writesPadded (n := n) h (by omega)
      (endsToken_cons (c := ',') (by simp) (more ++ '\x7d' :: rest))
    rw [List.append_assoc, List.append_assoc, List.cons_append,
      readMembers_of_readValue hname hgap read hread, skipSpace_cons (c := ',') rfl]
    show readMembers n ((s, v) :: read) (more ++ '\x7d' :: rest) = _
    rw [readMembers_of_writes hmore (by omega), List.reverse_cons, ← List.append_cons]
end

/-- The value of a text is read off it, however it is written. -/
theorem read_of_writesText {text : String} {v : Json} (h : WritesText text v) :
    read text = (v, true) := by
  obtain ⟨gap, hgap, hread⟩ := readValue_of_writesPadded (n := 2 * text.toList.length + 1) h
    (by omega) endsToken_nil
  rw [List.append_nil, List.append_nil] at hread
  unfold read
  simp only [hread]
  rw [hgap.skipSpace_eq_nil]
  rfl

end ArtifactGraph.Json
