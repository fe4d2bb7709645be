import ArtifactGraph.Proofs.Scanning
import Mathlib.Data.Finset.Card
import Mathlib.Data.Finset.Dedup
import Mathlib.Logic.Relation

/-!
# Plain substitution

`substitute` expands a text without a memory: a name is expanded anew wherever it stands.  A name
that is in progress is not expanded again, and the names come from layers, so every name expanded
inside another one leaves fewer of them; nothing else bounds the recursion.

* References.  `Refers` is the graph of the names: what the text of one mentions.
* Success.  `not_leadsOn_of_substituteName`: a name that is expanded does not lead back to itself.
  `substituteName_of_disjoint`: it has the same expansion wherever none of the names it leads to
  is in progress.
* Failure.  `exists_cycle_of_substituteName`: a cycle is reported only when there is one.
-/

namespace ArtifactGraph.Expression

/-! ## Names -/

/-- The names that layers define. -/
def Layers.names (layers : Layers) : Finset String := (layers.flatten.map (·.1)).toFinset

theorem Layers.mem_names_of_get? {layers : Layers} {name raw : String}
    (h : layers.get? name = some raw) : name ∈ layers.names := by
  obtain ⟨layer, hlayer, hfound⟩ := List.exists_of_findSome?_eq_some h
  have hpair : (name, raw) ∈ layer := by
    obtain ⟨before, after, hsplit, -⟩ := List.lookup_eq_some_iff.1 hfound
    rw [hsplit]
    simp
  rw [Layers.names, List.mem_toFinset]
  exact List.mem_map_of_mem (List.mem_flatten.2 ⟨layer, hlayer, hpair⟩)

/-- The names that are not in progress. -/
def Layers.remaining (layers : Layers) (inProgress : List String) : Finset String :=
  layers.names \ inProgress.toFinset

theorem Layers.card_remaining_nil_le (layers : Layers) :
    (layers.remaining []).card ≤ layers.flatten.length := by
  have hcard := List.toFinset_card_le (layers.flatten.map (·.1))
  rw [List.length_map] at hcard
  rwa [remaining, List.toFinset_nil, Finset.sdiff_empty]

theorem Layers.card_remaining_append_lt {layers : Layers} {inProgress : List String}
    {name raw : String} (hget : layers.get? name = some raw) (hnew : name ∉ inProgress) :
    (layers.remaining (inProgress ++ [name])).card < (layers.remaining inProgress).card := by
  apply Finset.card_lt_card
  rw [Finset.ssubset_iff_of_subset]
  · have hname := Layers.mem_names_of_get? hget
    exact ⟨name, by simp [Layers.remaining, hnew, hname], by simp [Layers.remaining]⟩
  · intro n hn
    simp only [Layers.remaining, Finset.mem_sdiff, List.mem_toFinset, List.mem_append,
      not_or] at hn ⊢
    exact ⟨hn.1, hn.2.1⟩

/-! ## The interpreter -/

/-- What stands in the place of an expression: the expansion of its name, if it has one, or the
expression as it is written. -/
def standIn (inside : List Char) : Option String → String
  | some expansion => expansion
  | none => "$\x7b" ++ String.ofList inside ++ "\x7d"

/-- Puts the pieces of `value` together, with a way to find the expansion of a name. -/
def substitutePieces (resolve : String → Except Fault (Option String)) (value out : String) :
    List Piece → Except Fault String
  | [] => .ok out
  | .text chars :: rest => substitutePieces resolve value (out ++ String.ofList chars) rest
  | .reference inside :: rest =>
    match resolve (Text.trim (String.ofList inside)) with
    | .error e => .error e
    | .ok found =>
      if (out ++ standIn inside found).utf8ByteSize > lengthLimit then .error (.tooLong value)
      else substitutePieces resolve value (out ++ standIn inside found) rest

/-- The expansion of a name, inside the names that are in progress. -/
def substituteName (layers : Layers) (inProgress : List String) (name : String) :
    Except Fault (Option String) :=
  match _hget : layers.get? name with
  | none => .ok none
  | some raw =>
    if _hin : name ∈ inProgress then .error (.cycle inProgress name)
    else
      (substitutePieces (substituteName layers (inProgress ++ [name])) raw "" (pieces raw)).map some
termination_by (layers.remaining inProgress).card
decreasing_by exact Layers.card_remaining_append_lt _hget _hin

/-- The text with every expression replaced that has a value. -/
def substitute (layers : Layers) (value : String) : Except Fault String :=
  substitutePieces (substituteName layers []) value "" (pieces value)

/-! ## References -/

/-- Whether an expression among the pieces of a text has a name with a text of its own. -/
def Mentions (layers : Layers) (ps : List Piece) (name : String) : Prop :=
  ∃ inside raw, .reference inside ∈ ps ∧ Text.trim (String.ofList inside) = name ∧
    layers.get? name = some raw

/-- Whether the text of the first name mentions the second one. -/
def Refers (layers : Layers) (n m : String) : Prop :=
  ∃ raw, layers.get? n = some raw ∧ Mentions layers (pieces raw) m

/-- Whether a name leads to another one, or is that name. -/
abbrev LeadsTo (layers : Layers) : String → String → Prop :=
  Relation.ReflTransGen (Refers layers)

/-- Whether a name leads to another one through one reference or more. -/
abbrev LeadsOn (layers : Layers) : String → String → Prop :=
  Relation.TransGen (Refers layers)

/-- The names in progress lead to what is expanded inside them, when one more comes into progress,
too. -/
theorem leadsOn_of_mem_append {layers : Layers} {inProgress : List String} {name m : String}
    (hpath : ∀ s ∈ inProgress, LeadsOn layers s name) (hrefers : Refers layers name m) :
    ∀ s ∈ inProgress ++ [name], LeadsOn layers s m := by
  intro s hs
  rcases List.mem_append.1 hs with hs | hs
  · exact (hpath s hs).tail hrefers
  · obtain rfl := List.mem_singleton.1 hs
    exact .single hrefers

/-! ## Putting pieces together -/

section

variable {resolve resolve' : String → Except Fault (Option String)} {value out text : String}
  {ps : List Piece}

/-- Where a text is put together, every name in it could be resolved. -/
theorem exists_of_substitutePieces_eq_ok (h : substitutePieces resolve value out ps = .ok text)
    {inside : List Char} (hmem : .reference inside ∈ ps) :
    ∃ found, resolve (Text.trim (String.ofList inside)) = .ok found := by
  induction ps generalizing out with
  | nil => cases hmem
  | cons p rest ih =>
    cases p with
    | text chars =>
      rcases List.mem_cons.1 hmem with heq | hrest
      · cases heq
      · exact ih h hrest
    | reference here =>
      rw [substitutePieces] at h
      cases hresolve : resolve (Text.trim (String.ofList here)) with
      | error e =>
        rw [hresolve] at h
        cases h
      | ok found =>
        simp only [hresolve] at h
        split at h
        · cases h
        · rcases List.mem_cons.1 hmem with heq | hrest
          · cases heq
            exact ⟨found, hresolve⟩
          · exact ih h hrest

/-- A text that is put together stays the same with another way to resolve the names in it. -/
theorem substitutePieces_of_resolve (h : substitutePieces resolve value out ps = .ok text)
    (hresolve : ∀ inside found, .reference inside ∈ ps →
      resolve (Text.trim (String.ofList inside)) = .ok found →
        resolve' (Text.trim (String.ofList inside)) = .ok found) :
    substitutePieces resolve' value out ps = .ok text := by
  induction ps generalizing out with
  | nil => exact h
  | cons p rest ih =>
    have hrest : ∀ inside found, .reference inside ∈ rest →
        resolve (Text.trim (String.ofList inside)) = .ok found →
          resolve' (Text.trim (String.ofList inside)) = .ok found :=
      fun inside found hmem => hresolve inside found (List.mem_cons_of_mem p hmem)
    cases p with
    | text chars => exact ih h hrest
    | reference inside =>
      rw [substitutePieces] at h ⊢
      cases hfound : resolve (Text.trim (String.ofList inside)) with
      | error e =>
        rw [hfound] at h
        cases h
      | ok found =>
        rw [hresolve inside found List.mem_cons_self hfound]
        simp only [hfound] at h ⊢
        split at h
        · cases h
        · rename_i hshort
          rw [if_neg hshort]
          exact ih h hrest

/-- A cycle is found in the name of an expression. -/
theorem exists_of_substitutePieces_eq_cycle {inProgress : List String} {name : String}
    (h : substitutePieces resolve value out ps = .error (.cycle inProgress name)) :
    ∃ inside, .reference inside ∈ ps ∧
      resolve (Text.trim (String.ofList inside)) = .error (.cycle inProgress name) := by
  induction ps generalizing out with
  | nil => cases h
  | cons p rest ih =>
    cases p with
    | text chars =>
      obtain ⟨inside, hmem, hresolve⟩ := ih h
      exact ⟨inside, List.mem_cons_of_mem _ hmem, hresolve⟩
    | reference here =>
      rw [substitutePieces] at h
      cases hfound : resolve (Text.trim (String.ofList here)) with
      | error e =>
        rw [hfound] at h
        cases h
        exact ⟨here, List.mem_cons_self, hfound⟩
      | ok found =>
        simp only [hfound] at h
        split at h
        · cases h
        · obtain ⟨inside, hmem, hresolve⟩ := ih h
          exact ⟨inside, List.mem_cons_of_mem _ hmem, hresolve⟩

end

/-! ## Expanding names -/

variable {layers : Layers} {inProgress others : List String} {name raw : String}

theorem substituteName_of_none (hget : layers.get? name = none) :
    substituteName layers inProgress name = .ok none := by
  rw [substituteName]
  split
  · rfl
  · rename_i hsome
    rw [hget] at hsome
    cases hsome

theorem substituteName_of_mem (hget : layers.get? name = some raw) (hin : name ∈ inProgress) :
    substituteName layers inProgress name = .error (.cycle inProgress name) := by
  rw [substituteName]
  split
  · rename_i hnone
    rw [hget] at hnone
    cases hnone
  · rw [dif_pos hin]

theorem substituteName_of_not_mem (hget : layers.get? name = some raw) (hnew : name ∉ inProgress) :
    substituteName layers inProgress name =
      (substitutePieces (substituteName layers (inProgress ++ [name])) raw ""
        (pieces raw)).map some := by
  rw [substituteName]
  split
  · rename_i hnone
    rw [hget] at hnone
    cases hnone
  · rename_i raw' hsome
    obtain rfl : raw' = raw := Option.some.inj (hsome.symm.trans hget)
    rw [dif_neg hnew]

/-- A name with a text that is expanded is not in progress, and its text is put together. -/
theorem exists_of_substituteName_eq_ok {found : Option String} (hget : layers.get? name = some raw)
    (h : substituteName layers inProgress name = .ok found) :
    name ∉ inProgress ∧ ∃ expansion, found = some expansion ∧
      substitutePieces (substituteName layers (inProgress ++ [name])) raw "" (pieces raw) =
        .ok expansion := by
  by_cases hin : name ∈ inProgress
  · rw [substituteName_of_mem hget hin] at h
    cases h
  · refine ⟨hin, ?_⟩
    rw [substituteName_of_not_mem hget hin] at h
    cases hraw : substitutePieces (substituteName layers (inProgress ++ [name])) raw ""
        (pieces raw) with
    | error e =>
      rw [hraw] at h
      cases h
    | ok expansion =>
      rw [hraw] at h
      cases h
      exact ⟨expansion, rfl, rfl⟩

/-! ## Success -/

/-- With a name every name that it refers to is expanded, inside that name. -/
theorem exists_of_refers {m : String} {found : Option String} (hrefers : Refers layers name m)
    (h : substituteName layers inProgress name = .ok found) :
    ∃ found', substituteName layers (inProgress ++ [name]) m = .ok found' := by
  obtain ⟨raw, hget, inside, raw', hmem, rfl, -⟩ := hrefers
  obtain ⟨-, expansion, -, hraw⟩ := exists_of_substituteName_eq_ok hget h
  exact exists_of_substitutePieces_eq_ok hraw hmem

/-- With a name every name that it leads to is expanded at some place inside it. -/
theorem exists_of_leadsOn {m : String} {found : Option String} (hleads : LeadsOn layers name m)
    (h : substituteName layers inProgress name = .ok found) :
    ∃ inside found', name ∈ inside ∧ substituteName layers inside m = .ok found' := by
  induction hleads with
  | single hrefers =>
    obtain ⟨found', hm⟩ := exists_of_refers hrefers h
    exact ⟨inProgress ++ [name], found', by simp, hm⟩
  | tail _ hrefers ih =>
    obtain ⟨inside, found', hmem, hbetween⟩ := ih
    obtain ⟨found'', hm⟩ := exists_of_refers hrefers hbetween
    exact ⟨_, found'', List.mem_append_left _ hmem, hm⟩

/-- A name that is expanded does not lead back to itself. -/
theorem not_leadsOn_of_substituteName {found : Option String}
    (h : substituteName layers inProgress name = .ok found) : ¬ LeadsOn layers name name := by
  intro hcycle
  obtain ⟨inside, found', hmem, hagain⟩ := exists_of_leadsOn hcycle h
  obtain ⟨m, hrefers, -⟩ := Relation.TransGen.head'_iff.1 hcycle
  obtain ⟨raw, hget, -⟩ := hrefers
  rw [substituteName_of_mem hget hmem] at hagain
  cases hagain

/-- A name has the same expansion wherever no name is in progress that it leads to. -/
theorem substituteName_of_disjoint {found : Option String}
    (h : substituteName layers inProgress name = .ok found)
    (hothers : ∀ m, LeadsTo layers name m → m ∉ others) :
    substituteName layers others name = .ok found := by
  induction inProgress, name using substituteName.induct layers generalizing others found with
  | case1 inProgress name hget =>
    rw [substituteName_of_none hget] at h ⊢
    exact h
  | case2 inProgress name raw hget hin =>
    rw [substituteName_of_mem hget hin] at h
    cases h
  | case3 inProgress name raw hget hnew ih =>
    have hcycle := not_leadsOn_of_substituteName h
    obtain ⟨-, expansion, rfl, hraw⟩ := exists_of_substituteName_eq_ok hget h
    rw [substituteName_of_not_mem hget (hothers name .refl)]
    have hsame : substitutePieces (substituteName layers (others ++ [name])) raw "" (pieces raw) =
        .ok expansion := by
      refine substitutePieces_of_resolve hraw ?_
      intro inside found hmem hfound
      cases hdefined : layers.get? (Text.trim (String.ofList inside)) with
      | none =>
        rw [substituteName_of_none hdefined] at hfound ⊢
        exact hfound
      | some raw' =>
        have hrefers : Refers layers name (Text.trim (String.ofList inside)) :=
          ⟨raw, hget, inside, raw', hmem, rfl, hdefined⟩
        refine ih _ hfound ?_
        intro m hleads hm
        rcases List.mem_append.1 hm with hm | hm
        · exact hothers m (.head hrefers hleads) hm
        · obtain rfl := List.mem_singleton.1 hm
          exact hcycle (.head' hrefers hleads)
    rw [hsame]
    rfl

/-! ## Failure -/

/-- When a cycle is found while the names in progress lead to the name that is expanded, there is
one among the names that it leads to. -/
theorem exists_cycle_of_substituteName {reported : List String} {again : String}
    (h : substituteName layers inProgress name = .error (.cycle reported again))
    (hpath : ∀ s ∈ inProgress, LeadsOn layers s name) :
    ∃ m, LeadsTo layers name m ∧ LeadsOn layers m m := by
  induction inProgress, name using substituteName.induct layers with
  | case1 inProgress name hget =>
    rw [substituteName_of_none hget] at h
    cases h
  | case2 inProgress name raw hget hin => exact ⟨name, .refl, hpath name hin⟩
  | case3 inProgress name raw hget hnew ih =>
    rw [substituteName_of_not_mem hget hnew] at h
    cases hraw : substitutePieces (substituteName layers (inProgress ++ [name])) raw ""
        (pieces raw) with
    | ok expansion =>
      rw [hraw] at h
      cases h
    | error e =>
      rw [hraw] at h
      cases h
      obtain ⟨inside, hmem, hresolve⟩ := exists_of_substitutePieces_eq_cycle hraw
      cases hdefined : layers.get? (Text.trim (String.ofList inside)) with
      | none =>
        rw [substituteName_of_none hdefined] at hresolve
        cases hresolve
      | some raw' =>
        have hrefers : Refers layers name (Text.trim (String.ofList inside)) :=
          ⟨raw, hget, inside, raw', hmem, rfl, hdefined⟩
        obtain ⟨m, hleads, hcycle⟩ := ih _ hresolve (leadsOn_of_mem_append hpath hrefers)
        exact ⟨m, .head hrefers hleads, hcycle⟩

end ArtifactGraph.Expression
