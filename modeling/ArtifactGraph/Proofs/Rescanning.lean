import ArtifactGraph.Proofs.Memory

/-!
# Texts that are scanned again

An expansion is put in as it is, and may be scanned as a text of its own later on.  This module says
what is found then.

* Texts without values.  `eq_self_of_not_mentions`: a text whose expressions have no value is its
  own expansion.
* Names.  `substituteName_of_interpolate`: a name comes to what its text comes to.
  `IsExpressionOf.interpolate_eq_ok` is the same for a text that is one expression and nothing else.
* Seams.  Where texts are put together, a mark may arise that none of them has: `$` at the end of
  one, `{` at the start of the next.  `Unmarked` stretches leave no room for that, and `Seals` is
  the grammar of the texts with such stretches between their expressions; `Seals.append` puts two
  of them together.
* Expansions.  `inert_of_substituteName`: where all the texts that a name leads to are sealed, no
  expression with a value is found in the expansion of the name.
-/

namespace ArtifactGraph.Expression

variable {layers : Layers}

/-! ## Texts without values -/

/-- A piece as it is written. -/
def Piece.written : Piece → String
  | .text chars => String.ofList chars
  | .reference inside => "$\x7b" ++ String.ofList inside ++ "\x7d"

theorem join_written_of_scan {cs : List Char} {ps : List Piece} (h : Scan cs ps) :
    String.join (ps.map Piece.written) = String.ofList cs := by
  induction h with
  | rest _ => simp [Piece.written, String.join_cons, String.join_nil]
  | expression _ _ _ ih =>
    have hopening : "$\x7b" = String.ofList opening := rfl
    have hclosing : "\x7d" = String.ofList closing := rfl
    simp only [List.map_cons, String.join_cons, ih, Piece.written, hopening, hclosing,
      String.ofList_append, String.append_assoc]

/-- The pieces of a text make it up. -/
theorem join_written_pieces (value : String) :
    String.join ((pieces value).map Piece.written) = value := by
  rw [join_written_of_scan (scan_pieces value), String.ofList_toList]

/-- Pieces without a value become what they are. -/
theorem eq_map_written_of_becomes {ps : List Piece} {parts : List String}
    (h : List.Forall₂ (Becomes layers) ps parts)
    (hnone : ∀ inside, .reference inside ∈ ps →
      layers.get? (Text.trim (String.ofList inside)) = none) : parts = ps.map Piece.written := by
  induction h with
  | nil => rfl
  | @cons p part ps parts hp _ ih =>
    have hpart : part = p.written := by
      cases hp with
      | text chars => rfl
      | kept _ => rfl
      | expanded hget _ =>
        rw [hnone _ List.mem_cons_self] at hget
        cases hget
    rw [List.map_cons, hpart, ih fun inside hmem => hnone inside (List.mem_cons_of_mem p hmem)]

theorem parts_of_interpolate {value text : String} (h : interpolate layers value = .ok text) :
    ∃ parts, List.Forall₂ (Becomes layers) (pieces value) parts ∧ text = String.join parts := by
  rw [interpolate_eq_of_agrees] at h
  obtain ⟨parts, hparts, htext⟩ := exists_parts_of_substitutePieces h
  exact ⟨parts, hparts, by rw [htext, String.empty_append]⟩

/-- A text whose expressions have no value is its own expansion. -/
theorem eq_self_of_not_mentions {value text : String} (h : interpolate layers value = .ok text)
    (hnone : ∀ name, ¬ Mentions layers (pieces value) name) : text = value := by
  obtain ⟨parts, hparts, htext⟩ := parts_of_interpolate h
  have hwritten : parts = (pieces value).map Piece.written := by
    refine eq_map_written_of_becomes hparts ?_
    intro inside hmem
    cases hget : layers.get? (Text.trim (String.ofList inside)) with
    | none => rfl
    | some raw => exact absurd ⟨inside, raw, hmem, rfl, hget⟩ (hnone _)
  rw [htext, hwritten, join_written_pieces]

/-! ## Names -/

/-- A name comes to what its text comes to. The text does not lead back to the name, for then one of
the names in it, which are all expanded, would lead back to itself. -/
theorem substituteName_of_interpolate {name raw expansion : String}
    (hget : layers.get? name = some raw) (h : interpolate layers raw = .ok expansion) :
    substituteName layers [] name = .ok (some expansion) := by
  rw [interpolate_eq_of_agrees, substitute] at h
  have hinside : substitutePieces (substituteName layers [name]) raw "" (pieces raw) =
      .ok expansion := by
    refine substitutePieces_of_resolve h ?_
    intro inside found hmem hfound
    cases hdefined : layers.get? (Text.trim (String.ofList inside)) with
    | none =>
      rw [substituteName_of_none hdefined] at hfound ⊢
      exact hfound
    | some raw' =>
      refine substituteName_of_disjoint hfound ?_
      intro m hleads hm
      obtain rfl := List.mem_singleton.1 hm
      have hrefers : Refers layers m (Text.trim (String.ofList inside)) :=
        ⟨raw, hget, inside, raw', hmem, rfl, hdefined⟩
      exact not_leadsOn_of_substituteName hfound (.tail' hleads hrefers)
  rw [substituteName_of_not_mem hget (by simp), List.nil_append, hinside]
  rfl

/-- Whether a text is the expression of a name and nothing else. -/
def IsExpressionOf (name value : String) : Prop :=
  ∃ inside, pieces value = [.text [], .reference inside, .text []] ∧
    Text.trim (String.ofList inside) = name

/-- An expression comes to what the text of its name comes to. -/
theorem IsExpressionOf.interpolate_eq_ok {name value raw text : String}
    (hvalue : IsExpressionOf name value) (hget : layers.get? name = some raw)
    (h : interpolate layers value = .ok text) : interpolate layers raw = .ok text := by
  obtain ⟨inside, hpieces, rfl⟩ := hvalue
  obtain ⟨parts, hparts, htext⟩ := parts_of_interpolate h
  rw [hpieces] at hparts
  cases hparts with
  | cons hbefore hrest =>
    cases hrest with
    | cons hname hafter =>
      cases hafter with
      | cons hafter hnil =>
        cases hbefore
        cases hafter
        cases hnil
        cases hname with
        | kept hnone =>
          rw [hget] at hnone
          cases hnone
        | expanded hget' hraw =>
          obtain rfl := Option.some.inj (hget.symm.trans hget')
          rw [htext]
          simpa [String.join_cons, String.join_nil] using hraw

/-- The only name that an expression mentions is its own. -/
theorem IsExpressionOf.eq_of_mentions {name value other : String}
    (hvalue : IsExpressionOf name value) (h : Mentions layers (pieces value) other) :
    other = name := by
  obtain ⟨inside, hpieces, rfl⟩ := hvalue
  obtain ⟨inside', raw, hmem, rfl, -⟩ := h
  rw [hpieces] at hmem
  simp only [List.mem_cons, Piece.reference.injEq, reduceCtorEq, List.not_mem_nil, or_false,
    false_or] at hmem
  rw [hmem]

/-! ## Seams -/

/-- Whether no mark begins in a stretch, whatever stands behind it. -/
def Unmarked (chars : List Char) : Prop :=
  ∀ rest, rest <:+ chars → rest ≠ [] → ∀ behind, ¬ opening <+: rest ++ behind

/-- A stretch without `$` has room for no mark. -/
theorem unmarked_of_not_mem {chars : List Char} (h : '$' ∉ chars) : Unmarked chars := by
  intro rest hrest hne behind hprefix
  obtain ⟨c, more, rfl⟩ := List.exists_cons_of_ne_nil hne
  have hc : '$' = c := (List.cons_prefix_cons.1 hprefix).1
  exact h (hrest.subset (hc ▸ List.mem_cons_self))

theorem Unmarked.append {a b : List Char} (ha : Unmarked a) (hb : Unmarked b) :
    Unmarked (a ++ b) := by
  intro rest hrest hne behind
  obtain ⟨passed, heq⟩ := hrest
  rcases List.append_eq_append_iff.1 heq with ⟨a', hsplit, rfl⟩ | ⟨b', hsplit, hb'⟩
  · cases a' with
    | nil => exact hb b List.suffix_rfl (by simpa using hne) behind
    | cons c more =>
      rw [List.append_assoc]
      exact ha (c :: more) ⟨passed, hsplit.symm⟩ (by simp) (b ++ behind)
  · exact hb rest ⟨b', hb'.symm⟩ hne behind

theorem Unmarked.endsAt {chars : List Char} (h : Unmarked chars) : EndsAt opening chars := by
  intro n hn
  rw [List.drop_append_of_le_length (Nat.le_of_lt hn)]
  exact h _ (List.drop_suffix n chars) (by simpa using hn) opening

theorem Unmarked.breakOn?_eq_none {chars : List Char} (h : Unmarked chars) :
    Text.breakOn? opening chars = none := by
  cases hbreak : Text.breakOn? opening chars with
  | none => rfl
  | some split =>
    obtain ⟨before, after⟩ := split
    have hchars := Text.eq_append_of_breakOn? hbreak
    refine absurd ?_ (h (opening ++ after) ⟨before, ?_⟩ (by simp [opening]) [])
    · exact ⟨after, by simp⟩
    · rw [hchars, List.append_assoc]

theorem endsAt_closing {inside : List Char} (h : ¬ closing <:+: inside) :
    EndsAt closing inside := by
  intro n hn hprefix
  rw [List.drop_append_of_le_length (Nat.le_of_lt hn)] at hprefix
  have hne : inside.drop n ≠ [] := by simpa using hn
  obtain ⟨c, more, hdrop⟩ := List.exists_cons_of_ne_nil hne
  rw [hdrop] at hprefix
  have hc : '\x7d' = c := (List.cons_prefix_cons.1 hprefix).1
  subst hc
  exact h (List.IsInfix.trans ⟨[], more, hdrop.symm⟩ (List.drop_suffix n inside).isInfix)

/-- A text without marks is one piece. -/
theorem Unmarked.piecesOf_eq {chars : List Char} (h : Unmarked chars) (n : Nat) :
    piecesOf n chars = [.text chars] := by
  cases n with
  | zero => rfl
  | succ n => rw [piecesOf, ← opening, h.breakOn?_eq_none]

theorem piecesOf_expression {before inside : List Char} (hbefore : EndsAt opening before)
    (hinside : EndsAt closing inside) (n : Nat) (after : List Char) :
    piecesOf (n + 1) (before ++ opening ++ inside ++ closing ++ after) =
      .text before :: .reference inside :: piecesOf n after := by
  have hopen : Text.breakOn? ['$', '{'] (before ++ opening ++ (inside ++ closing ++ after)) =
      some (before, inside ++ closing ++ after) :=
    Text.breakOn?_of_endsAt (by simp [opening]) hbefore _
  have hclose : Text.breakOn? ['}'] (inside ++ closing ++ after) = some (inside, after) :=
    Text.breakOn?_of_endsAt (by simp [closing]) hinside after
  simp only [← List.append_assoc] at hopen hclose ⊢
  simp only [piecesOf, hopen, hclose]

/-- The pieces of an expression with a text behind it. -/
theorem pieces_expression_append {inside chars : List Char} (hinside : ¬ closing <:+: inside)
    (hchars : Unmarked chars) :
    pieces (String.ofList (opening ++ inside ++ closing ++ chars)) =
      [.text [], .reference inside, .text chars] := by
  have hempty : Unmarked [] := unmarked_of_not_mem List.not_mem_nil
  have hlength : (String.ofList (opening ++ inside ++ closing ++ chars)).length =
      (inside.length + chars.length + 2) + 1 := by
    rw [String.length_ofList]
    simp [opening, closing]
    omega
  have hsplit := piecesOf_expression hempty.endsAt (endsAt_closing hinside)
    (inside.length + chars.length + 2) chars
  rw [List.nil_append] at hsplit
  rw [pieces, hlength, String.toList_ofList, hsplit, hchars.piecesOf_eq]

/-- The texts in which no mark begins outside the expressions, with the insides of these. -/
inductive Seals : List Char → List (List Char) → Prop
  | stretch {chars : List Char} (h : Unmarked chars) : Seals chars []
  | expression {before inside after : List Char} {insides : List (List Char)}
      (hbefore : Unmarked before) (hinside : ¬ closing <:+: inside)
      (hafter : Seals after insides) :
      Seals (before ++ opening ++ inside ++ closing ++ after) (inside :: insides)

theorem Seals.append {a b : List Char} {xs ys : List (List Char)} (ha : Seals a xs)
    (hb : Seals b ys) : Seals (a ++ b) (xs ++ ys) := by
  induction ha with
  | stretch h =>
    cases hb with
    | stretch h' => exact .stretch (h.append h')
    | expression hbefore hinside hafter =>
      have hseals := Seals.expression (h.append hbefore) hinside hafter
      simpa using hseals
  | expression hbefore hinside _ ih =>
    have hseals := Seals.expression hbefore hinside ih
    simpa using hseals

/-- The expressions that are found in such a text are its own. -/
theorem Seals.mem_of_mem_piecesOf {cs : List Char} {insides : List (List Char)}
    (h : Seals cs insides) {n : Nat} (hn : cs.length ≤ n) {inside : List Char}
    (hmem : .reference inside ∈ piecesOf n cs) :
    inside ∈ insides := by
  induction h generalizing n with
  | @stretch chars h =>
    rw [h.piecesOf_eq] at hmem
    simp at hmem
  | @expression before inside' after insides hbefore hinside hafter ih =>
    have hlength : before.length + inside'.length + after.length + 3 ≤ n := by
      simp only [List.length_append, opening, closing, List.length_cons, List.length_nil] at hn
      omega
    obtain ⟨m, rfl⟩ : ∃ m, n = m + 1 := ⟨n - 1, by omega⟩
    rw [piecesOf_expression hbefore.endsAt (endsAt_closing hinside)] at hmem
    simp only [List.mem_cons, reduceCtorEq, Piece.reference.injEq, false_or] at hmem
    rcases hmem with rfl | hmem
    · exact List.mem_cons_self
    · exact List.mem_cons_of_mem inside' (ih (by omega) hmem)

/-! ## Expansions -/

/-- Whether no mark begins in the stretches between the expressions of a text. -/
def IsSealed (value : String) : Prop := ∀ chars, .text chars ∈ pieces value → Unmarked chars

/-- Whether the marks of a text are those of expressions without a value. -/
def Inert (layers : Layers) (text : String) : Prop :=
  ∃ insides, Seals text.toList insides ∧
    ∀ inside ∈ insides, layers.get? (Text.trim (String.ofList inside)) = none

theorem inert_stretch {chars : List Char} (h : Unmarked chars) :
    Inert layers (String.ofList chars) := by
  refine ⟨[], ?_, by simp⟩
  rw [String.toList_ofList]
  exact .stretch h

theorem inert_expression {inside : List Char} (hinside : ¬ closing <:+: inside)
    (hnone : layers.get? (Text.trim (String.ofList inside)) = none) :
    Inert layers ("$\x7b" ++ String.ofList inside ++ "\x7d") := by
  have hempty : Unmarked [] := unmarked_of_not_mem List.not_mem_nil
  refine ⟨[inside], ?_, by simpa using hnone⟩
  have hseals := Seals.expression hempty hinside (.stretch hempty)
  simpa [opening, closing] using hseals

theorem Inert.append {a b : String} (ha : Inert layers a) (hb : Inert layers b) :
    Inert layers (a ++ b) := by
  obtain ⟨xs, hxs, hx⟩ := ha
  obtain ⟨ys, hys, hy⟩ := hb
  refine ⟨xs ++ ys, ?_, ?_⟩
  · rw [String.toList_append]
    exact hxs.append hys
  · intro inside hmem
    exact (List.mem_append.1 hmem).elim (hx inside) (hy inside)

theorem Inert.not_mentions {text : String} (h : Inert layers text) (name : String) :
    ¬ Mentions layers (pieces text) name := by
  intro hmentions
  obtain ⟨insides, hseals, hnone⟩ := h
  obtain ⟨inside, raw, hmem, rfl, hget⟩ := hmentions
  have hinside := hseals.mem_of_mem_piecesOf (Nat.le_of_eq String.length_toList) hmem
  rw [hnone inside hinside] at hget
  cases hget

theorem not_infix_of_scan {cs : List Char} {ps : List Piece} (h : Scan cs ps) {inside : List Char}
    (hmem : .reference inside ∈ ps) : ¬ closing <:+: inside := by
  induction h with
  | rest _ => simp at hmem
  | expression _ hinside _ ih =>
    rcases List.mem_cons.1 hmem with heq | hmem
    · cases heq
    · rcases List.mem_cons.1 hmem with heq | hmem
      · cases heq
        exact hinside
      · exact ih hmem

/-- Inert parts between unmarked stretches make an inert text. -/
theorem inert_of_substitutePieces {resolve : String → Except Fault (Option String)}
    {value out text : String} {ps : List Piece}
    (h : substitutePieces resolve value out ps = .ok text) (hout : Inert layers out)
    (hstretch : ∀ chars, .text chars ∈ ps → Unmarked chars)
    (hreference : ∀ inside found, .reference inside ∈ ps →
      resolve (Text.trim (String.ofList inside)) = .ok found →
        Inert layers (standIn inside found)) : Inert layers text := by
  induction ps generalizing out with
  | nil =>
    cases h
    exact hout
  | cons p rest ih =>
    have hrest := fun chars hmem => hstretch chars (List.mem_cons_of_mem p hmem)
    have hothers := fun inside found hmem =>
      hreference inside found (List.mem_cons_of_mem p hmem)
    cases p with
    | text chars =>
      exact ih h (hout.append (inert_stretch (hstretch chars List.mem_cons_self))) hrest hothers
    | reference inside =>
      rw [substitutePieces] at h
      cases hfound : resolve (Text.trim (String.ofList inside)) with
      | error e =>
        rw [hfound] at h
        cases h
      | ok found =>
        simp only [hfound] at h
        split at h
        · cases h
        · exact ih h (hout.append (hreference inside found List.mem_cons_self hfound)) hrest
            hothers

/-- Where all the texts that a name leads to are sealed, its expansion is inert. -/
theorem inert_of_substituteName {inProgress : List String} {name expansion : String}
    (h : substituteName layers inProgress name = .ok (some expansion))
    (hsealed : ∀ m raw, LeadsTo layers name m → layers.get? m = some raw → IsSealed raw) :
    Inert layers expansion := by
  induction inProgress, name using substituteName.induct layers generalizing expansion with
  | case1 inProgress name hget =>
    rw [substituteName_of_none hget] at h
    cases h
  | case2 inProgress name raw hget hin =>
    rw [substituteName_of_mem hget hin] at h
    cases h
  | case3 inProgress name raw hget hnew ih =>
    obtain ⟨-, expansion', heq, hraw⟩ := exists_of_substituteName_eq_ok hget h
    cases heq
    have hempty : Inert layers "" := inert_stretch (unmarked_of_not_mem List.not_mem_nil)
    refine inert_of_substitutePieces hraw hempty (hsealed name raw .refl hget) ?_
    intro inside found hmem hfound
    cases hdefined : layers.get? (Text.trim (String.ofList inside)) with
    | none =>
      rw [substituteName_of_none hdefined] at hfound
      cases hfound
      exact inert_expression (not_infix_of_scan (scan_pieces raw) hmem) hdefined
    | some raw' =>
      obtain ⟨-, expansion', rfl, -⟩ := exists_of_substituteName_eq_ok hdefined hfound
      have hrefers : Refers layers name (Text.trim (String.ofList inside)) :=
        ⟨raw, hget, inside, raw', hmem, rfl, hdefined⟩
      exact ih _ hfound fun m raw'' hleads hm => hsealed m raw'' (.head hrefers hleads) hm

end ArtifactGraph.Expression
