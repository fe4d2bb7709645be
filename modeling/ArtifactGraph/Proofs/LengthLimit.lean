import ArtifactGraph.Proofs.Cycles
import ArtifactGraph.Proofs.Rescanning

/-!
# The length of an expansion

The length of an expansion is measured behind every expression, and not at the end of a text.  What
is measured is part of the expansion, so nothing is refused that is short enough; but what stands
behind the last expression is put in unmeasured.

* Without a limit.  `FullExpansion` is what pieces come to when nothing is measured, and `Beginning`
  what such an expansion begins with, even if it never ends.  `FullExpansion.not_circular`: only
  what does not lead to a cycle has a full expansion.
* Faults.  `exists_beginning_of_tooLong`: what is refused begins with more than the limit.
* Answers.  `interpolate_eq_ok_iff`: the limit is that of the part up to the last expression.
-/

namespace ArtifactGraph.Expression

variable {layers : Layers}

/-! ## Without a limit -/

/-- What pieces come to when no length is measured. -/
inductive FullExpansion (layers : Layers) : List Piece → String → Prop
  | nil : FullExpansion layers [] ""
  | text {chars : List Char} {rest : List Piece} {s : String} (hrest : FullExpansion layers rest s) :
      FullExpansion layers (.text chars :: rest) (String.ofList chars ++ s)
  | kept {inside : List Char} {rest : List Piece} {s : String}
      (hget : layers.get? (Text.trim (String.ofList inside)) = none)
      (hrest : FullExpansion layers rest s) :
      FullExpansion layers (.reference inside :: rest) (standIn inside none ++ s)
  | expanded {inside : List Char} {raw expansion : String} {rest : List Piece} {s : String}
      (hget : layers.get? (Text.trim (String.ofList inside)) = some raw)
      (hraw : FullExpansion layers (pieces raw) expansion) (hrest : FullExpansion layers rest s) :
      FullExpansion layers (.reference inside :: rest) (expansion ++ s)

/-- What the full expansion of pieces begins with, if it ends or if it does not: some pieces in
front, and perhaps a beginning of what the name behind them stands for. -/
inductive Beginning (layers : Layers) : List Piece → String → Prop
  | front {front rest : List Piece} {s : String} (hfront : FullExpansion layers front s) :
      Beginning layers (front ++ rest) s
  | inside {front rest : List Piece} {inside : List Char} {raw s t : String}
      (hfront : FullExpansion layers front s)
      (hget : layers.get? (Text.trim (String.ofList inside)) = some raw)
      (hraw : Beginning layers (pieces raw) t) :
      Beginning layers (front ++ .reference inside :: rest) (s ++ t)

theorem fullExpansion_text (chars : List Char) :
    FullExpansion layers [.text chars] (String.ofList chars) := by
  rw [← String.append_empty (s := String.ofList chars)]
  exact .text .nil

theorem FullExpansion.append {ps qs : List Piece} {s t : String}
    (hp : FullExpansion layers ps s) (hq : FullExpansion layers qs t) :
    FullExpansion layers (ps ++ qs) (s ++ t) := by
  induction hp with
  | nil => rwa [String.empty_append]
  | text _ ih =>
    rw [String.append_assoc]
    exact .text ih
  | kept hget _ ih =>
    rw [String.append_assoc]
    exact .kept hget ih
  | expanded hget hraw _ _ ih =>
    rw [String.append_assoc]
    exact .expanded hget hraw ih

theorem FullExpansion.exists_append {ps qs : List Piece} {u : String}
    (h : FullExpansion layers (ps ++ qs) u) :
    ∃ s t, FullExpansion layers ps s ∧ FullExpansion layers qs t ∧ u = s ++ t := by
  induction ps generalizing u with
  | nil => exact ⟨"", u, .nil, h, (String.empty_append).symm⟩
  | cons p rest ih =>
    cases h with
    | text hrest =>
      obtain ⟨s, t, hs, ht, rfl⟩ := ih hrest
      exact ⟨_, t, .text hs, ht, (String.append_assoc).symm⟩
    | kept hget hrest =>
      obtain ⟨s, t, hs, ht, rfl⟩ := ih hrest
      exact ⟨_, t, .kept hget hs, ht, (String.append_assoc).symm⟩
    | expanded hget hraw hrest =>
      obtain ⟨s, t, hs, ht, rfl⟩ := ih hrest
      exact ⟨_, t, .expanded hget hraw hs, ht, (String.append_assoc).symm⟩

theorem FullExpansion.unique {ps : List Piece} {s t : String} (h : FullExpansion layers ps s)
    (h' : FullExpansion layers ps t) : t = s := by
  induction h generalizing t with
  | nil =>
    cases h'
    rfl
  | text _ ih =>
    cases h' with
    | text hrest => rw [ih hrest]
  | kept hget _ ih =>
    cases h' with
    | kept _ hrest => rw [ih hrest]
    | expanded hget' => cases hget.symm.trans hget'
  | expanded hget _ _ ihraw ih =>
    cases h' with
    | kept hget' => cases hget.symm.trans hget'
    | expanded hget' hraw hrest =>
      cases hget.symm.trans hget'
      rw [ihraw hraw, ih hrest]

theorem Beginning.append {ps : List Piece} {s : String} (h : Beginning layers ps s)
    (qs : List Piece) : Beginning layers (ps ++ qs) s := by
  cases h with
  | front hfront =>
    rw [List.append_assoc]
    exact .front hfront
  | inside hfront hget hraw =>
    rw [List.append_assoc]
    exact .inside hfront hget hraw

/-- A full expansion begins with its beginnings. -/
theorem Beginning.exists_append {ps : List Piece} {s u : String} (h : Beginning layers ps s)
    (hfull : FullExpansion layers ps u) : ∃ rest, u = s ++ rest := by
  induction h generalizing u with
  | front hfront =>
    obtain ⟨s', t, hs, -, rfl⟩ := hfull.exists_append
    exact ⟨t, by rw [hfront.unique hs]⟩
  | @inside front rest inside raw s t hfront hget _ ih =>
    obtain ⟨s', t', hs, ht, rfl⟩ := hfull.exists_append
    rw [hfront.unique hs]
    cases ht with
    | kept hnone => cases hget.symm.trans hnone
    | @expanded _ _ _ _ after hget' hraw _ =>
      cases hget.symm.trans hget'
      obtain ⟨more, rfl⟩ := ih hraw
      exact ⟨more ++ after, by simp only [String.append_assoc]⟩

/-! ## No cycles -/

theorem Mentions.of_cons {p : Piece} {ps : List Piece} {name : String}
    (h : Mentions layers (p :: ps) name) :
    (∃ inside raw, p = .reference inside ∧ Text.trim (String.ofList inside) = name ∧
      layers.get? name = some raw) ∨ Mentions layers ps name := by
  obtain ⟨inside, raw, hmem, hname, hget⟩ := h
  rcases List.mem_cons.1 hmem with hp | hmem
  · exact Or.inl ⟨inside, raw, hp.symm, hname, hget⟩
  · exact Or.inr ⟨inside, raw, hmem, hname, hget⟩

/-- From a name that a full expansion mentions one can follow references only so far. -/
theorem FullExpansion.acc {ps : List Piece} {s name : String} (h : FullExpansion layers ps s)
    (hmentions : Mentions layers ps name) : Acc (fun m n => Refers layers n m) name := by
  induction h generalizing name with
  | nil =>
    obtain ⟨inside, raw, hmem, -⟩ := hmentions
    cases hmem
  | text _ ih =>
    rcases hmentions.of_cons with ⟨inside, raw, hp, -⟩ | hmentions
    · cases hp
    · exact ih hmentions
  | kept hnone _ ih =>
    rcases hmentions.of_cons with ⟨inside, raw, hp, rfl, hget⟩ | hmentions
    · cases hp
      cases hnone.symm.trans hget
    · exact ih hmentions
  | expanded hget _ _ ihraw ih =>
    rcases hmentions.of_cons with ⟨inside, raw, hp, rfl, -⟩ | hmentions
    · cases hp
      refine Acc.intro _ fun m hrefers => ?_
      obtain ⟨raw', hget', hm⟩ := hrefers
      cases hget.symm.trans hget'
      exact ihraw hm
    · exact ih hmentions

theorem not_leadsOn_of_acc {name : String} (h : Acc (fun m n => Refers layers n m) name) :
    ¬ LeadsOn layers name name := by
  induction h with
  | intro name _ ih =>
    intro hcycle
    obtain ⟨next, hrefers, hback⟩ := Relation.TransGen.head'_iff.1 hcycle
    exact ih next hrefers (.tail' hback hrefers)

/-- What leads to a cycle has no full expansion. -/
theorem FullExpansion.not_circular {value s : String} (h : FullExpansion layers (pieces value) s) :
    ¬ Circular layers value := by
  rintro ⟨n, m, hmentions, hleads, hcycle⟩
  have hacc : Acc (fun m n => Refers layers n m) m := by
    clear hcycle
    induction hleads with
    | refl => exact h.acc hmentions
    | tail _ hrefers ih => exact ih.inv hrefers
  exact not_leadsOn_of_acc hacc hcycle

/-! ## With the limit -/

section

variable {resolve : String → Except Fault (Option String)} {value out text : String}
  {ps : List Piece}

/-- Behind an expression work goes on if its name is resolved and there is not too much. -/
theorem exists_of_substitutePieces_reference {inside : List Char}
    (h : substitutePieces resolve value out (.reference inside :: ps) = .ok text) :
    ∃ found, resolve (Text.trim (String.ofList inside)) = .ok found ∧
      (out ++ standIn inside found).utf8ByteSize ≤ lengthLimit ∧
      substitutePieces resolve value (out ++ standIn inside found) ps = .ok text := by
  rw [substitutePieces] at h
  cases hfound : resolve (Text.trim (String.ofList inside)) with
  | error e =>
    rw [hfound] at h
    cases h
  | ok found =>
    simp only [hfound] at h
    split at h
    · cases h
    · rename_i hshort
      exact ⟨found, rfl, Nat.not_lt.1 hshort, h⟩

/-- What is put together is the full expansion, if each name comes to what it stands for. -/
theorem fullExpansion_of_substitutePieces
    (hresolve : ∀ inside found, .reference inside ∈ ps →
      resolve (Text.trim (String.ofList inside)) = .ok found →
        FullExpansion layers [.reference inside] (standIn inside found))
    (h : substitutePieces resolve value out ps = .ok text) :
    ∃ s, FullExpansion layers ps s ∧ text = out ++ s := by
  induction ps generalizing out with
  | nil =>
    cases h
    exact ⟨"", .nil, (String.append_empty).symm⟩
  | cons p rest ih =>
    have hothers := fun inside found hmem =>
      hresolve inside found (List.mem_cons_of_mem p hmem)
    cases p with
    | text chars =>
      obtain ⟨s, hs, rfl⟩ := ih hothers h
      exact ⟨_, .text hs, String.append_assoc⟩
    | reference inside =>
      obtain ⟨found, hfound, -, hrest⟩ := exists_of_substitutePieces_reference h
      obtain ⟨s, hs, rfl⟩ := ih hothers hrest
      exact ⟨_, (hresolve inside found List.mem_cons_self hfound).append hs, String.append_assoc⟩

end

theorem fullExpansion_of_substituteName {inProgress : List String} {inside : List Char}
    {found : Option String}
    (h : substituteName layers inProgress (Text.trim (String.ofList inside)) = .ok found) :
    FullExpansion layers [.reference inside] (standIn inside found) := by
  generalize hname : Text.trim (String.ofList inside) = name at h
  induction inProgress, name using substituteName.induct layers generalizing inside found with
  | case1 inProgress name hget =>
    rw [substituteName_of_none hget] at h
    cases h
    subst hname
    rw [← String.append_empty (s := standIn inside none)]
    exact .kept hget .nil
  | case2 inProgress name raw hget hin =>
    rw [substituteName_of_mem hget hin] at h
    cases h
  | case3 inProgress name raw hget hnew ih =>
    obtain ⟨-, expansion, rfl, hraw⟩ := exists_of_substituteName_eq_ok hget h
    obtain ⟨s, hs, rfl⟩ := fullExpansion_of_substitutePieces
      (fun inside' found' _ hfound' => ih _ rfl hfound') hraw
    subst hname
    rw [String.empty_append, standIn, ← String.append_empty (s := s)]
    exact .expanded hget hs .nil

/-- Where a text is refused while it is put together, more than the limit is there already, or it is
refused inside a name. What is there is the full expansion of the pieces in front. -/
theorem exists_beginning_of_substitutePieces {resolve : String → Except Fault (Option String)}
    {value out refused : String} {front ps : List Piece}
    (hout : FullExpansion layers front out)
    (hresolve : ∀ inside found, resolve (Text.trim (String.ofList inside)) = .ok found →
      FullExpansion layers [.reference inside] (standIn inside found))
    (hinside : ∀ inside, resolve (Text.trim (String.ofList inside)) = .error (.tooLong refused) →
      ∃ raw t, layers.get? (Text.trim (String.ofList inside)) = some raw ∧
        Beginning layers (pieces raw) t ∧ lengthLimit < t.utf8ByteSize)
    (h : substitutePieces resolve value out ps = .error (.tooLong refused)) :
    ∃ s, Beginning layers (front ++ ps) s ∧ lengthLimit < s.utf8ByteSize := by
  induction ps generalizing front out with
  | nil => cases h
  | cons p rest ih =>
    cases p with
    | text chars =>
      obtain ⟨s, hs, hlong⟩ := ih (hout.append (fullExpansion_text chars)) h
      exact ⟨s, by simpa using hs, hlong⟩
    | reference inside =>
      rw [substitutePieces] at h
      cases hfound : resolve (Text.trim (String.ofList inside)) with
      | error e =>
        rw [hfound] at h
        cases h
        obtain ⟨raw, t, hget, ht, hlong⟩ := hinside inside hfound
        refine ⟨out ++ t, .inside hout hget ht, ?_⟩
        rw [String.utf8ByteSize_append]
        omega
      | ok found =>
        have hmore := hout.append (hresolve inside found hfound)
        simp only [hfound] at h
        split at h
        · rename_i hlong
          refine ⟨_, ?_, hlong⟩
          have hfront : Beginning layers ((front ++ [.reference inside]) ++ rest) _ :=
            .front hmore
          simpa using hfront
        · obtain ⟨s, hs, hlong⟩ := ih hmore h
          exact ⟨s, by simpa using hs, hlong⟩

theorem exists_beginning_of_substituteName {inProgress : List String} {name refused : String}
    (h : substituteName layers inProgress name = .error (.tooLong refused)) :
    ∃ raw t, layers.get? name = some raw ∧ Beginning layers (pieces raw) t ∧
      lengthLimit < t.utf8ByteSize := by
  induction inProgress, name using substituteName.induct layers with
  | case1 inProgress name hget =>
    rw [substituteName_of_none hget] at h
    cases h
  | case2 inProgress name raw hget hin =>
    rw [substituteName_of_mem hget hin] at h
    cases h
  | case3 inProgress name raw hget hnew ih =>
    rw [substituteName_of_not_mem hget hnew] at h
    have hraw : substitutePieces (substituteName layers (inProgress ++ [name])) raw ""
        (pieces raw) = .error (.tooLong refused) := by
      cases hraw : substitutePieces (substituteName layers (inProgress ++ [name])) raw ""
        (pieces raw) with
      | ok expansion =>
        rw [hraw] at h
        cases h
      | error e =>
        rw [hraw] at h
        cases h
        rfl
    obtain ⟨s, hs, hlong⟩ := exists_beginning_of_substitutePieces .nil
      (fun _ _ hfound => fullExpansion_of_substituteName hfound) (fun _ hrefused => ih _ hrefused)
      hraw
    exact ⟨raw, s, hget, hs, hlong⟩

/-! ## What is measured -/

/-- The pieces of a text as far as its last expression. -/
def measured (value : String) : List Piece := (pieces value).dropLast

/-- What stands behind the last expression of a text, or all of it if it has none. -/
def unmeasured (value : String) : String :=
  match (pieces value).getLast? with
  | some (.text chars) => String.ofList chars
  | _ => ""

/-- Whether pieces end with an expression, or there are none. -/
def EndsWithExpression (ps : List Piece) : Prop :=
  ps = [] ∨ ∃ front inside, ps = front ++ [.reference inside]

theorem exists_tail_of_scan {cs : List Char} {ps : List Piece} (h : Scan cs ps) :
    ∃ front chars, ps = front ++ [.text chars] ∧ EndsWithExpression front := by
  induction h with
  | rest _ => exact ⟨[], _, rfl, Or.inl rfl⟩
  | @expression before inside after ps _ _ _ ih =>
    obtain ⟨front, chars, rfl, hfront⟩ := ih
    refine ⟨.text before :: .reference inside :: front, chars, rfl, Or.inr ?_⟩
    rcases hfront with rfl | ⟨more, last, rfl⟩
    · exact ⟨[.text before], inside, rfl⟩
    · exact ⟨.text before :: .reference inside :: more, last, rfl⟩

/-- A text is what is measured of it and what is not. -/
theorem pieces_eq_measured_append (value : String) :
    pieces value = measured value ++ [.text (unmeasured value).toList] ∧
      EndsWithExpression (measured value) := by
  obtain ⟨front, chars, hpieces, hfront⟩ := exists_tail_of_scan (scan_pieces value)
  have hmeasured : measured value = front := by rw [measured, hpieces, List.dropLast_concat]
  have hunmeasured : unmeasured value = String.ofList chars := by
    rw [unmeasured, hpieces, List.getLast?_concat]
  rw [hmeasured, hunmeasured, String.toList_ofList]
  exact ⟨hpieces, hfront⟩

/-- What is not measured stands behind the expansion of what is. -/
theorem FullExpansion.pieces {value front : String}
    (h : FullExpansion layers (measured value) front) :
    FullExpansion layers (Expression.pieces value) (front ++ unmeasured value) := by
  have hwhole := h.append (fullExpansion_text (unmeasured value).toList)
  rwa [← (pieces_eq_measured_append value).1, String.ofList_toList] at hwhole

section

variable {resolve : String → Except Fault (Option String)} {value out text : String}
  {ps : List Piece}

/-- Text at the end is put in as it is. -/
theorem substitutePieces_append_text (chars : List Char) :
    substitutePieces resolve value out (ps ++ [.text chars]) =
      (substitutePieces resolve value out ps).map (· ++ String.ofList chars) := by
  induction ps generalizing out with
  | nil => rfl
  | cons p rest ih =>
    cases p with
    | text before => exact ih
    | reference inside =>
      rw [List.cons_append, substitutePieces, substitutePieces]
      cases resolve (Text.trim (String.ofList inside)) with
      | error e => rfl
      | ok found =>
        simp only
        split
        · rfl
        · exact ih

/-- Behind an expression there is no more than the limit. -/
theorem le_of_substitutePieces_append_reference {inside : List Char}
    (h : substitutePieces resolve value out (ps ++ [.reference inside]) = .ok text) :
    text.utf8ByteSize ≤ lengthLimit := by
  induction ps generalizing out with
  | nil =>
    obtain ⟨found, -, hshort, hrest⟩ := exists_of_substitutePieces_reference h
    cases hrest
    exact hshort
  | cons p rest ih =>
    cases p with
    | text chars => exact ih h
    | reference here =>
      obtain ⟨found, -, -, hrest⟩ := exists_of_substitutePieces_reference h
      exact ih hrest

end

theorem utf8ByteSize_le_of_substitutePieces {resolve : String → Except Fault (Option String)}
    {value text : String} {ps : List Piece} (hps : EndsWithExpression ps)
    (h : substitutePieces resolve value "" ps = .ok text) : text.utf8ByteSize ≤ lengthLimit := by
  rcases hps with rfl | ⟨front, inside, rfl⟩
  · cases h
    decide
  · exact le_of_substitutePieces_append_reference h

/-- A text is expanded by expanding what is measured of it; the rest is put in as it is. -/
theorem interpolate_eq_map (layers : Layers) (value : String) :
    interpolate layers value =
      (substitutePieces (substituteName layers []) value "" (measured value)).map
        (· ++ unmeasured value) := by
  rw [interpolate_eq_of_agrees, substitute, (pieces_eq_measured_append value).1,
    substitutePieces_append_text, String.ofList_toList]

/-! ## Faults and answers -/

/-- What is refused for its length begins with more than the limit. -/
theorem exists_beginning_of_tooLong {value refused : String}
    (h : interpolate layers value = .error (.tooLong refused)) :
    ∃ s, Beginning layers (measured value) s ∧ lengthLimit < s.utf8ByteSize := by
  rw [interpolate_eq_map] at h
  have hmeasured : substitutePieces (substituteName layers []) value "" (measured value) =
      .error (.tooLong refused) := by
    cases hpieces : substitutePieces (substituteName layers []) value "" (measured value) with
    | ok text =>
      rw [hpieces] at h
      cases h
    | error e =>
      rw [hpieces] at h
      cases h
      rfl
  exact exists_beginning_of_substitutePieces .nil
    (fun _ _ hfound => fullExpansion_of_substituteName hfound)
    (fun _ hrefused => exists_beginning_of_substituteName hrefused) hmeasured

/-- A text has an answer when what is measured of it has a full expansion that is short enough, and
then the rest is put behind this. -/
theorem interpolate_eq_ok_iff {value text : String} :
    interpolate layers value = .ok text ↔
      ∃ front, FullExpansion layers (measured value) front ∧ front.utf8ByteSize ≤ lengthLimit ∧
        text = front ++ unmeasured value := by
  have hanswer : ∀ text, interpolate layers value = .ok text →
      ∃ front, FullExpansion layers (measured value) front ∧ front.utf8ByteSize ≤ lengthLimit ∧
        text = front ++ unmeasured value := by
    intro text h
    rw [interpolate_eq_map] at h
    cases hpieces : substitutePieces (substituteName layers []) value "" (measured value) with
    | error e =>
      rw [hpieces] at h
      cases h
    | ok front =>
      rw [hpieces] at h
      cases h
      obtain ⟨s, hs, rfl⟩ := fullExpansion_of_substitutePieces
        (fun _ _ _ hfound => fullExpansion_of_substituteName hfound) hpieces
      rw [String.empty_append] at hpieces ⊢
      exact ⟨s, hs,
        utf8ByteSize_le_of_substitutePieces (pieces_eq_measured_append value).2 hpieces, rfl⟩
  constructor
  · exact hanswer text
  · rintro ⟨front, hfront, hshort, rfl⟩
    cases hvalue : interpolate layers value with
    | ok text =>
      obtain ⟨front', hfront', -, rfl⟩ := hanswer text hvalue
      rw [hfront.unique hfront']
    | error fault =>
      cases fault with
      | cycle inProgress name =>
        exact absurd (circular_of_interpolate hvalue) hfront.pieces.not_circular
      | tooLong refused =>
        obtain ⟨s, hs, hlong⟩ := exists_beginning_of_tooLong hvalue
        obtain ⟨rest, rfl⟩ := hs.exists_append hfront
        rw [String.utf8ByteSize_append] at hshort
        omega

/-- The limit is that of the expansion up to the last expression: this is what an answer keeps to,
with whatever text behind it. So every answer is within the limit exactly when that text leaves it
so. What is refused for its length is too long in any case. -/
theorem within_limit_iff_unmeasured (layers : Layers) (value : String) :
    (∀ text, interpolate layers value = .ok text ↔
      ∃ front, FullExpansion layers (measured value) front ∧ front.utf8ByteSize ≤ lengthLimit ∧
        text = front ++ unmeasured value) ∧
    ((∀ text, interpolate layers value = .ok text → text.utf8ByteSize ≤ lengthLimit) ↔
      ∀ front, FullExpansion layers (measured value) front → front.utf8ByteSize ≤ lengthLimit →
        (front ++ unmeasured value).utf8ByteSize ≤ lengthLimit) ∧
    ∀ refused, interpolate layers value = .error (.tooLong refused) →
      (∃ s, Beginning layers (pieces value) s ∧ lengthLimit < s.utf8ByteSize) ∧
        ∀ full, FullExpansion layers (pieces value) full → lengthLimit < full.utf8ByteSize := by
  refine ⟨fun text => interpolate_eq_ok_iff, ⟨?_, ?_⟩, ?_⟩
  · intro hwithin front hfront hshort
    exact hwithin _ (interpolate_eq_ok_iff.2 ⟨front, hfront, hshort, rfl⟩)
  · intro hleaves text htext
    obtain ⟨front, hfront, hshort, rfl⟩ := interpolate_eq_ok_iff.1 htext
    exact hleaves front hfront hshort
  · intro refused hrefused
    obtain ⟨s, hs, hlong⟩ := exists_beginning_of_tooLong hrefused
    have hbeginning := hs.append [.text (unmeasured value).toList]
    rw [← (pieces_eq_measured_append value).1] at hbeginning
    refine ⟨⟨s, hbeginning, hlong⟩, fun full hfull => ?_⟩
    obtain ⟨rest, rfl⟩ := hbeginning.exists_append hfull
    rw [String.utf8ByteSize_append]
    omega

/-- A name that stands for one digit. -/
def digitLayers : Layers := [[("a", "1")]]

/-- As much text as an expansion may have. -/
def fillText : List Char := List.replicate lengthLimit 'x'

theorem utf8ByteSize_ofList_replicate (n : Nat) :
    (String.ofList (List.replicate n 'x')).utf8ByteSize = n := by
  induction n with
  | zero => rfl
  | succ n ih =>
    rw [List.replicate_succ, String.ofList_cons, String.utf8ByteSize_append, ih,
      String.utf8ByteSize_singleton]
    exact Nat.add_comm 1 n

/-- An expression with this text behind it. -/
def filledValue : String := String.ofList (opening ++ ['a'] ++ closing ++ fillText)

theorem pieces_filledValue :
    pieces filledValue = [.text [], .reference ['a'], .text fillText] := by
  have hfill : Unmarked fillText :=
    unmarked_of_not_mem fun hmem => absurd (List.eq_of_mem_replicate hmem) (by decide)
  exact pieces_expression_append (by decide) hfill

/-- Its answer is too long. -/
theorem exists_answer_beyond_limit :
    ∃ text, interpolate digitLayers filledValue = .ok text ∧ lengthLimit < text.utf8ByteSize := by
  have hmeasured : measured filledValue = [.text [], .reference ['a']] := by
    rw [measured, pieces_filledValue]
    rfl
  have hunmeasured : unmeasured filledValue = String.ofList fillText := by
    rw [unmeasured, pieces_filledValue]
    rfl
  have hdigit : FullExpansion digitLayers (measured filledValue) "1" := by
    have hraw : FullExpansion digitLayers (pieces "1") "1" := fullExpansion_text ['1']
    have hname : FullExpansion digitLayers [.reference ['a']] ("1" ++ "") :=
      .expanded rfl hraw .nil
    rw [hmeasured]
    exact (fullExpansion_text []).append hname
  refine ⟨_, interpolate_eq_ok_iff.2 ⟨"1", hdigit, by decide, rfl⟩, ?_⟩
  rw [String.utf8ByteSize_append, hunmeasured, fillText, utf8ByteSize_ofList_replicate]
  have hone : "1".utf8ByteSize = 1 := by decide
  omega

end ArtifactGraph.Expression
