import ArtifactGraph.Json.Printer
import ArtifactGraph.Proofs.JsonTexts

/-!
# Printed JSON

What is printed for a value is one of its texts, so it is read back.

* Strings.  `writes_quoted`: a string with its escapes is written as the grammar has it.
* Compact form.  `Writes.compact` and the three lemmas with it go through a value by the rules of
  any text of it; `Writes.writesText_compact` is for whole texts.
* Pretty form.  `Writes.prettyAt` does the same at a depth, where the starts of lines are white
  space.
-/

namespace ArtifactGraph.Json

/-! ## Strings -/

theorem isCode_control {n : Nat} (h : n < 0x20) :
    IsCode ['0', '0', Text.smallDigit (n / 16), Text.smallDigit (n % 16)] n := by
  refine ⟨rfl, ?_⟩
  have hzero : Text.digit? 16 '0' = some 0 := rfl
  have hhigh := Text.digit?_smallDigit (n / 16) (by omega)
  have hlow := Text.digit?_smallDigit (n % 16) (by omega)
  simp only [Text.number?, List.foldlM_cons, List.foldlM_nil, hzero, hhigh, hlow, Option.map_some,
    Option.bind_eq_bind, Option.bind_some, Option.pure_def, Option.some.injEq]
  omega

theorem writesChars_escapeChar (c : Char) {cs chars : List Char} (h : WritesChars cs chars) :
    WritesChars (escapeChar c ++ cs) (c :: chars) := by
  by_cases hshort : c ∈ ['\x22', '\\', '\x08', '\x0c', '\n', '\r', '\t']
  · simp only [List.mem_cons, List.not_mem_nil, or_false] at hshort
    rcases hshort with rfl | rfl | rfl | rfl | rfl | rfl | rfl <;> exact .short rfl h
  · simp only [List.mem_cons, List.not_mem_nil, or_false, not_or] at hshort
    simp only [escapeChar, beq_iff_eq, hshort, if_false]
    split
    · rename_i hcontrol
      exact .code (isCode_control hcontrol) h
    · exact .plain hshort.1 hshort.2.1 (by omega) h

theorem writesChars_escaped (chars : List Char) :
    WritesChars (chars.flatMap escapeChar) chars := by
  induction chars with
  | nil => exact .nil
  | cons c rest ih =>
    rw [List.flatMap_cons]
    exact writesChars_escapeChar c ih

theorem toList_quoted (s : String) :
    (quoted s).toList = '\x22' :: (s.toList.flatMap escapeChar ++ ['\x22']) :=
  String.toList_ofList

theorem writes_quoted (s : String) : Writes (quoted s).toList (.string s) := by
  have h := Writes.string (writesChars_escaped s.toList)
  rwa [String.ofList_toList, ← toList_quoted] at h

theorem writesName_quoted {before : List Char} (hbefore : IsGap before) (s : String) :
    WritesName (before ++ ((quoted s).toList ++ [':'])) s := by
  have h := WritesName.intro hbefore (writesChars_escaped s.toList) isGap_nil
  rw [String.ofList_toList] at h
  rw [toList_quoted]
  simpa using h

/-! ## Compact form -/

theorem compactItems_cons (v : Json) {items : List Json} (h : items ≠ []) :
    compactItems (v :: items) = compact v ++ "," ++ compactItems items := by
  cases items with
  | nil => exact absurd rfl h
  | cons => rw [compactItems]; simp

theorem compactMembers_cons (s : String) (v : Json) {members : List (String × Json)}
    (h : members ≠ []) :
    compactMembers ((s, v) :: members) =
      quoted s ++ ":" ++ compact v ++ "," ++ compactMembers members := by
  cases members with
  | nil => exact absurd rfl h
  | cons => rw [compactMembers]; simp

mutual
/-- The form without white space is one of the texts of a value that has any. -/
theorem Writes.compact {cs : List Char} {v : Json} (h : Writes cs v) :
    Writes v.compact.toList v := by
  match h with
  | .null => exact .null
  | .boolTrue => exact .boolTrue
  | .boolFalse => exact .boolFalse
  | .number h =>
    rw [Json.compact, String.toList_ofList]
    exact .number h
  | .string h =>
    rw [Json.compact]
    exact writes_quoted _
  | .emptyArray _ => exact .emptyArray isGap_nil
  | .array h =>
    rw [Json.compact, String.toList_append, String.toList_append]
    exact .array h.compactItems
  | .emptyObject _ => exact .emptyObject isGap_nil
  | .object h =>
    rw [Json.compact, String.toList_append, String.toList_append]
    exact .object h.compactMembers

theorem WritesPadded.compact {cs : List Char} {v : Json} (h : WritesPadded cs v) :
    WritesPadded v.compact.toList v := by
  match h with
  | .intro _ h _ => simpa using h.compact.padded isGap_nil isGap_nil

theorem WritesItems.compactItems {cs : List Char} {items : List Json} (h : WritesItems cs items) :
    WritesItems (compactItems items).toList items := by
  match h with
  | .one h => exact .one h.compact
  | .cons h hrest =>
    rw [compactItems_cons _ hrest.ne_nil, String.toList_append, String.toList_append,
      List.append_assoc]
    exact .cons h.compact hrest.compactItems

theorem WritesMembers.compactMembers {cs : List Char} {members : List (String × Json)}
    (h : WritesMembers cs members) : WritesMembers (compactMembers members).toList members := by
  match h with
  | @WritesMembers.one name cs s v _ h =>
    have hone := WritesMembers.one (writesName_quoted isGap_nil s) h.compact
    simpa [Json.compactMembers] using hone
  | @WritesMembers.cons name cs more s v members _ h hrest =>
    have hcons := WritesMembers.cons (writesName_quoted isGap_nil s) h.compact hrest.compactMembers
    rw [compactMembers_cons s v hrest.ne_nil]
    simpa using hcons
end

theorem Writes.writesText_compact {cs : List Char} {v : Json} (h : Writes cs v) :
    WritesText v.compact v := by
  have hpadded := h.compact.padded isGap_nil isGap_nil
  rwa [List.append_nil] at hpadded

/-! ## Pretty form -/

theorem isGap_lineStart (depth : Nat) : IsGap (lineStart depth).toList := by
  intro c hc
  rw [lineStart, String.toList_append, List.mem_append] at hc
  rcases hc with hc | hc
  · rw [List.mem_singleton.1 hc]
    rfl
  · rw [String.toList_ofList] at hc
    rw [List.eq_of_mem_replicate hc]
    rfl

theorem prettyItems_cons (depth : Nat) (v : Json) {items : List Json} (h : items ≠ []) :
    prettyItems depth (v :: items) =
      lineStart depth ++ prettyAt depth v ++ "," ++ prettyItems depth items := by
  cases items with
  | nil => exact absurd rfl h
  | cons => rw [prettyItems]; simp

theorem prettyMembers_cons (depth : Nat) (s : String) (v : Json) {members : List (String × Json)}
    (h : members ≠ []) :
    prettyMembers depth ((s, v) :: members) =
      lineStart depth ++ quoted s ++ ": " ++ prettyAt depth v ++ "," ++
        prettyMembers depth members := by
  cases members with
  | nil => exact absurd rfl h
  | cons => rw [prettyMembers]; simp

theorem prettyAt_array (depth : Nat) {items : List Json} (h : items ≠ []) :
    prettyAt depth (.array items) =
      "[" ++ prettyItems (depth + 1) items ++ lineStart depth ++ "]" := by
  cases items with
  | nil => exact absurd rfl h
  | cons => rw [prettyAt]

theorem prettyAt_object (depth : Nat) {members : List (String × Json)} (h : members ≠ []) :
    prettyAt depth (.object members) =
      "\x7b" ++ prettyMembers (depth + 1) members ++ lineStart depth ++ "\x7d" := by
  cases members with
  | nil => exact absurd rfl h
  | cons => rw [prettyAt]

mutual
/-- The form with a line for each item and member is another. -/
theorem Writes.prettyAt {cs : List Char} {v : Json} (h : Writes cs v) (depth : Nat) :
    Writes (prettyAt depth v).toList v := by
  match h with
  | .null =>
    rw [Json.prettyAt]
    exact .null
  | .boolTrue =>
    rw [Json.prettyAt]
    exact .boolTrue
  | .boolFalse =>
    rw [Json.prettyAt]
    exact .boolFalse
  | .number h =>
    rw [Json.prettyAt, String.toList_ofList]
    exact .number h
  | .string h =>
    rw [Json.prettyAt]
    exact writes_quoted _
  | .emptyArray _ =>
    rw [Json.prettyAt]
    exact .emptyArray isGap_nil
  | .array h =>
    rw [prettyAt_array depth h.ne_nil]
    simpa using Writes.array (h.prettyItems (depth + 1) (isGap_lineStart depth))
  | .emptyObject _ =>
    rw [Json.prettyAt]
    exact .emptyObject isGap_nil
  | .object h =>
    rw [prettyAt_object depth h.ne_nil]
    simpa using Writes.object (h.prettyMembers (depth + 1) (isGap_lineStart depth))

theorem WritesPadded.prettyAt {cs before after : List Char} {v : Json} (h : WritesPadded cs v)
    (depth : Nat) (hbefore : IsGap before) (hafter : IsGap after) :
    WritesPadded (before ++ ((prettyAt depth v).toList ++ after)) v := by
  match h with
  | .intro _ h _ => exact (h.prettyAt depth).padded hbefore hafter

theorem WritesItems.prettyItems {cs gap : List Char} {items : List Json} (h : WritesItems cs items)
    (depth : Nat) (hgap : IsGap gap) :
    WritesItems ((prettyItems depth items).toList ++ gap) items := by
  match h with
  | .one h =>
    simpa [Json.prettyItems] using
      WritesItems.one (h.prettyAt depth (isGap_lineStart depth) hgap)
  | .cons h hrest =>
    rw [prettyItems_cons depth _ hrest.ne_nil]
    simpa using WritesItems.cons (h.prettyAt depth (isGap_lineStart depth) isGap_nil)
      (hrest.prettyItems depth hgap)

theorem WritesMembers.prettyMembers {cs gap : List Char} {members : List (String × Json)}
    (h : WritesMembers cs members) (depth : Nat) (hgap : IsGap gap) :
    WritesMembers ((prettyMembers depth members).toList ++ gap) members := by
  have hspace : IsGap [' '] := by
    intro c hc
    rw [List.mem_singleton.1 hc]
    rfl
  match h with
  | @WritesMembers.one name cs s v _ h =>
    simpa [Json.prettyMembers] using
      WritesMembers.one (writesName_quoted (isGap_lineStart depth) s) (h.prettyAt depth hspace hgap)
  | @WritesMembers.cons name cs more s v members _ h hrest =>
    rw [prettyMembers_cons depth s v hrest.ne_nil]
    simpa using WritesMembers.cons (writesName_quoted (isGap_lineStart depth) s)
      (h.prettyAt depth hspace isGap_nil) (hrest.prettyMembers depth hgap)
end

theorem Writes.writesText_pretty {cs : List Char} {v : Json} (h : Writes cs v) :
    WritesText v.pretty v := by
  have hpadded := (h.prettyAt 0).padded isGap_nil isGap_nil
  rwa [List.append_nil] at hpadded

end ArtifactGraph.Json
