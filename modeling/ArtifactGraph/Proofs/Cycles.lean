import ArtifactGraph.Proofs.Memory

/-!
# Runs of the expansion, and cycles

A text that is expanded expands the texts of its names inside it, and these the texts of theirs.
The names in progress are pairwise different, so this ends, however long the texts are that are
found on the way.

* The rules.  `Expands` and `Resolves` say what a text and a name come to, with no bound on the
  depth.  `Expands.unique`: they leave no choice.
* The runs.  `expands_expandPieces` and `resolves_resolveName`: every expansion is a run by the
  rules in which the names in progress stay `Bounded`, so fuel for every name is enough.
* The cycles.  `Circular` says of a text that its expressions lead to a name that leads back to
  itself.  Such a text has no expansion; any other has one or grows too long.
-/

namespace ArtifactGraph.Expression

/-! ## The rules -/

mutual

/-- The pieces of `value` come to an answer, behind what is put together in `out`, while names are
in progress. Wherever a name comes into progress in the run, those in progress meet `P`. -/
inductive Expands (layers : Layers) (P : List String → Prop) :
    List String → String → String → Memo → List Piece → Except Fault (String × Memo) → Prop
  | done {inProgress : List String} {value out : String} {memo : Memo} :
      Expands layers P inProgress value out memo [] (.ok (out, memo))
  | text {inProgress : List String} {value out : String} {memo : Memo} {chars : List Char}
      {rest : List Piece} {r : Except Fault (String × Memo)}
      (hrest : Expands layers P inProgress value (out ++ String.ofList chars) memo rest r) :
      Expands layers P inProgress value out memo (.text chars :: rest) r
  | reference {inProgress : List String} {value out : String} {memo memo' : Memo}
      {inside : List Char} {rest : List Piece} {found : Option String}
      {r : Except Fault (String × Memo)}
      (hname : Resolves layers P inProgress memo (Text.trim (String.ofList inside))
        (.ok (found, memo')))
      (hshort : (out ++ standIn inside found).utf8ByteSize ≤ lengthLimit)
      (hrest : Expands layers P inProgress value (out ++ standIn inside found) memo' rest r) :
      Expands layers P inProgress value out memo (.reference inside :: rest) r
  | tooLong {inProgress : List String} {value out : String} {memo memo' : Memo}
      {inside : List Char} {rest : List Piece} {found : Option String}
      (hname : Resolves layers P inProgress memo (Text.trim (String.ofList inside))
        (.ok (found, memo')))
      (hlong : lengthLimit < (out ++ standIn inside found).utf8ByteSize) :
      Expands layers P inProgress value out memo (.reference inside :: rest)
        (.error (.tooLong value))
  | fault {inProgress : List String} {value out : String} {memo : Memo} {inside : List Char}
      {rest : List Piece} {e : Fault}
      (hname : Resolves layers P inProgress memo (Text.trim (String.ofList inside)) (.error e)) :
      Expands layers P inProgress value out memo (.reference inside :: rest) (.error e)

/-- A name comes to an answer, while names are in progress. -/
inductive Resolves (layers : Layers) (P : List String → Prop) :
    List String → Memo → String → Except Fault (Option String × Memo) → Prop
  | known {inProgress : List String} {memo : Memo} {name expansion : String}
      (hknown : memo.lookup name = some expansion) :
      Resolves layers P inProgress memo name (.ok (some expansion, memo))
  | undefined {inProgress : List String} {memo : Memo} {name : String}
      (hnew : memo.lookup name = none) (hget : layers.get? name = none) :
      Resolves layers P inProgress memo name (.ok (none, memo))
  | cycle {inProgress : List String} {memo : Memo} {name raw : String}
      (hnew : memo.lookup name = none) (hget : layers.get? name = some raw)
      (hin : name ∈ inProgress) :
      Resolves layers P inProgress memo name (.error (.cycle inProgress name))
  /-- The text of the name is expanded while the name is in progress, and is remembered then. -/
  | expanded {inProgress : List String} {memo : Memo} {name raw : String}
      {r : Except Fault (String × Memo)}
      (hnew : memo.lookup name = none) (hget : layers.get? name = some raw)
      (hout : name ∉ inProgress) (hinside : P (inProgress ++ [name]))
      (hraw : Expands layers P (inProgress ++ [name]) raw "" memo (pieces raw) r) :
      Resolves layers P inProgress memo name (r.map fun a => (some a.1, (name, a.1) :: a.2))

end

variable {layers : Layers} {P Q : List String → Prop}

mutual

theorem Expands.unique : ∀ {inProgress : List String} {value out : String} {memo : Memo}
    {ps : List Piece} {r r' : Except Fault (String × Memo)},
    Expands layers P inProgress value out memo ps r →
      Expands layers Q inProgress value out memo ps r' → r' = r
  | _, _, _, _, _, _, _, .done, h' => by
    cases h'
    rfl
  | _, _, _, _, _, _, _, .text hrest, h' => by
    cases h' with
    | text hrest' => exact hrest.unique hrest'
  | _, _, _, _, _, _, _, .reference hname hshort hrest, h' => by
    cases h' with
    | reference hname' hshort' hrest' =>
      cases hname.unique hname'
      exact hrest.unique hrest'
    | tooLong hname' hlong' =>
      cases hname.unique hname'
      omega
    | fault hname' => cases hname.unique hname'
  | _, _, _, _, _, _, _, .tooLong hname hlong, h' => by
    cases h' with
    | reference hname' hshort' hrest' =>
      cases hname.unique hname'
      omega
    | tooLong hname' hlong' => rfl
    | fault hname' => cases hname.unique hname'
  | _, _, _, _, _, _, _, .fault hname, h' => by
    cases h' with
    | reference hname' | tooLong hname' => cases hname.unique hname'
    | fault hname' =>
      cases hname.unique hname'
      rfl

theorem Resolves.unique : ∀ {inProgress : List String} {memo : Memo} {name : String}
    {r r' : Except Fault (Option String × Memo)},
    Resolves layers P inProgress memo name r →
      Resolves layers Q inProgress memo name r' → r' = r
  | _, _, _, _, _, .known hknown, h' => by
    cases h' with
    | known hknown' =>
      cases hknown.symm.trans hknown'
      rfl
    | undefined hnew' | cycle hnew' | expanded hnew' => cases hknown.symm.trans hnew'
  | _, _, _, _, _, .undefined hnew hget, h' => by
    cases h' with
    | known hknown' => cases hnew.symm.trans hknown'
    | undefined => rfl
    | cycle _ hget' | expanded _ hget' => cases hget.symm.trans hget'
  | _, _, _, _, _, .cycle hnew hget hin, h' => by
    cases h' with
    | known hknown' => cases hnew.symm.trans hknown'
    | undefined _ hget' => cases hget.symm.trans hget'
    | cycle => rfl
    | expanded _ _ hout' => exact absurd hin hout'
  | _, _, _, _, _, .expanded hnew hget hout _ hraw, h' => by
    cases h' with
    | known hknown' => cases hnew.symm.trans hknown'
    | undefined _ hget' => cases hget.symm.trans hget'
    | cycle _ _ hin' => exact absurd hin' hout
    | expanded _ hget' _ _ hraw' =>
      cases hget.symm.trans hget'
      rw [hraw.unique hraw']

end

/-! ## The runs -/

/-- Whether the names in progress are names of layers, each of them once. One text is expanded for
each of them, and one more that the whole began with. -/
structure Bounded (layers : Layers) (inProgress : List String) : Prop where
  nodup : inProgress.Nodup
  defined : ∀ name ∈ inProgress, name ∈ layers.names
  texts_le : inProgress.length + 1 ≤ layers.names.card + 1

theorem bounded_of_nodup {inProgress : List String} (hnodup : inProgress.Nodup)
    (hdefined : ∀ name ∈ inProgress, name ∈ layers.names) : Bounded layers inProgress := by
  refine ⟨hnodup, hdefined, ?_⟩
  have hsubset : inProgress.toFinset ⊆ layers.names := by
    intro name hname
    exact hdefined name (List.mem_toFinset.1 hname)
  have hcard := Finset.card_le_card hsubset
  rw [List.toFinset_card_of_nodup hnodup] at hcard
  omega

theorem bounded_nil (layers : Layers) : Bounded layers [] :=
  bounded_of_nodup List.nodup_nil (by simp)

theorem Bounded.append {inProgress : List String} {name raw : String}
    (h : Bounded layers inProgress) (hget : layers.get? name = some raw)
    (hout : name ∉ inProgress) : Bounded layers (inProgress ++ [name]) := by
  apply bounded_of_nodup
  · rw [← List.concat_eq_append]
    exact h.nodup.concat hout
  · intro n hn
    rcases List.mem_append.1 hn with hn | hn
    · exact h.defined n hn
    · obtain rfl := List.mem_singleton.1 hn
      exact Layers.mem_names_of_get? hget

/-- The loop over the pieces is a run by the rules if each name in them is resolved by the rules. -/
theorem expands_expandPieces {resolve : Resolver} {inProgress : List String} {value out : String}
    {memo : Memo} {ps : List Piece}
    (hresolve : ∀ name memo, Resolves layers P inProgress memo name (resolve memo name)) :
    Expands layers P inProgress value out memo ps (expandPieces resolve value out memo ps) := by
  induction ps generalizing out memo with
  | nil => exact .done
  | cons p rest ih =>
    cases p with
    | text chars => exact .text ih
    | reference inside =>
      have hname := hresolve (Text.trim (String.ofList inside)) memo
      cases hfound : resolve memo (Text.trim (String.ofList inside)) with
      | error e =>
        rw [hfound] at hname
        rw [expandPieces, hfound]
        exact .fault hname
      | ok answer =>
        obtain ⟨found, memo'⟩ := answer
        rw [hfound] at hname
        rw [expandPieces_reference hfound]
        split
        · rename_i hlong
          exact .tooLong hname hlong
        · rename_i hshort
          exact .reference hname (Nat.not_lt.1 hshort) ih

/-- One name is resolved by the rules. With a name that comes into progress fewer remain, so the
fuel that is left for them is enough again. -/
theorem resolves_resolveName {fuel : Nat} {inProgress : List String} (memo : Memo) (name : String)
    (hfuel : (layers.remaining inProgress).card ≤ fuel) (hbounded : Bounded layers inProgress) :
    Resolves layers (Bounded layers) inProgress memo name
      (resolveName layers.get? fuel inProgress memo name) := by
  induction fuel using Nat.strongRecOn generalizing inProgress memo name with
  | ind fuel ih =>
    cases hknown : memo.lookup name with
    | some expansion =>
      rw [resolveName_of_lookup hknown]
      exact .known hknown
    | none =>
      cases hget : layers.get? name with
      | none =>
        rw [resolveName_of_none hknown hget]
        exact .undefined hknown hget
      | some raw =>
        by_cases hin : name ∈ inProgress
        · rw [resolveName_of_mem hknown hget hin]
          exact .cycle hknown hget hin
        · obtain ⟨n, rfl, hn⟩ := exists_fuel hfuel hget hin
          have hinside := hbounded.append hget hin
          rw [resolveName_of_not_mem hknown hget hin]
          refine .expanded hknown hget hin hinside (expands_expandPieces ?_)
          intro m memo'
          exact ih n (by omega) memo' m hn hinside

/-- A text comes by the rules to what it is expanded to. -/
theorem expands_interpolate (layers : Layers) (value : String) :
    ∃ r, Expands layers (Bounded layers) [] value "" [] (pieces value) r ∧
      interpolate layers value = r.map (·.1) := by
  refine ⟨_, expands_expandPieces ?_, rfl⟩
  intro name memo
  exact resolves_resolveName memo name layers.card_remaining_nil_le (bounded_nil layers)

/-! ## The cycles -/

/-- Whether the expressions of a text lead to a name that leads back to itself. -/
def Circular (layers : Layers) (value : String) : Prop :=
  ∃ n m, Mentions layers (pieces value) n ∧ LeadsTo layers n m ∧ LeadsOn layers m m

theorem not_circular_of_interpolate {value text : String}
    (h : interpolate layers value = .ok text) : ¬ Circular layers value := by
  rintro ⟨n, m, ⟨inside, raw, hmem, rfl, -⟩, hleads, hcycle⟩
  rw [interpolate_eq_of_agrees] at h
  obtain ⟨found, hname⟩ := exists_of_substitutePieces_eq_ok h hmem
  rcases Relation.reflTransGen_iff_eq_or_transGen.1 hleads with rfl | hleads
  · exact not_leadsOn_of_substituteName hname hcycle
  · obtain ⟨inProgress, found', -, hm⟩ := exists_of_leadsOn hleads hname
    exact not_leadsOn_of_substituteName hm hcycle

theorem circular_of_interpolate {value name : String} {inProgress : List String}
    (h : interpolate layers value = .error (.cycle inProgress name)) : Circular layers value := by
  rw [interpolate_eq_of_agrees] at h
  obtain ⟨inside, hmem, hname⟩ := exists_of_substitutePieces_eq_cycle h
  cases hget : layers.get? (Text.trim (String.ofList inside)) with
  | none =>
    rw [substituteName_of_none hget] at hname
    cases hname
  | some raw =>
    obtain ⟨m, hleads, hcycle⟩ := exists_cycle_of_substituteName hname (by simp)
    exact ⟨_, m, ⟨inside, raw, hmem, rfl, hget⟩, hleads, hcycle⟩

/-- Every text comes to one answer by the rules, and while it does, no name is in progress twice; so
the texts that are expanded one inside the other are at most one more than the names. The answer is
a fault where the text leads to a cycle, and only there does it tell of one. -/
theorem interpolate_ends_and_detects_cycles (layers : Layers) (value : String) :
    (∃ r, Expands layers (Bounded layers) [] value "" [] (pieces value) r ∧
      (∀ P r', Expands layers P [] value "" [] (pieces value) r' → r' = r) ∧
      interpolate layers value = r.map (·.1)) ∧
    (Circular layers value → ∃ fault, interpolate layers value = .error fault) ∧
    (¬ Circular layers value →
      ∀ inProgress name, interpolate layers value ≠ .error (.cycle inProgress name)) := by
  obtain ⟨r, hruns, hanswer⟩ := expands_interpolate layers value
  refine ⟨⟨r, hruns, ?_, hanswer⟩, ?_, ?_⟩
  · intro P r' hruns'
    exact hruns.unique hruns'
  · intro hcircular
    cases htext : interpolate layers value with
    | ok text => exact absurd hcircular (not_circular_of_interpolate htext)
    | error fault => exact ⟨fault, rfl⟩
  · intro hnot inProgress name hcycle
    exact hnot (circular_of_interpolate hcycle)

/-- Two layers in which `a` leads to a cycle without being on it. -/
def ringLayers : Layers := [[("a", "${b}")], [("b", "1.${c}"), ("c", "${ b }")]]

/-- A layer in which `pair` uses a name twice. -/
def pairLayers : Layers := [[("v", "1"), ("pair", "${v}.${v}")]]

theorem circular_ringLayers : Circular ringLayers "${a}" := by
  have hab : Refers ringLayers "a" "b" :=
    ⟨"${b}", rfl, ['b'], "1.${c}", .tail _ (.head _), rfl, rfl⟩
  have hbc : Refers ringLayers "b" "c" :=
    ⟨"1.${c}", rfl, ['c'], "${ b }", .tail _ (.head _), rfl, rfl⟩
  have hcb : Refers ringLayers "c" "b" :=
    ⟨"${ b }", rfl, [' ', 'b', ' '], "1.${c}", .tail _ (.head _), rfl, rfl⟩
  have ha : Mentions ringLayers (pieces "${a}") "a" :=
    ⟨['a'], "${b}", .tail _ (.head _), rfl, rfl⟩
  exact ⟨"a", "b", ha, .single hab, .tail (.single hbc) hcb⟩

/-- The cycle is detected from outside, and a name that is used again and again is no cycle. -/
theorem interpolate_detects_cycle_from_outside :
    (Circular ringLayers "${a}" ∧ ∃ fault, interpolate ringLayers "${a}" = .error fault) ∧
      ¬ Circular pairLayers "${pair}-${pair}" ∧
      ∀ inProgress name,
        interpolate pairLayers "${pair}-${pair}" ≠ .error (.cycle inProgress name) := by
  obtain ⟨-, hfault, -⟩ := interpolate_ends_and_detects_cycles ringLayers "${a}"
  obtain ⟨-, -, hnone⟩ := interpolate_ends_and_detects_cycles pairLayers "${pair}-${pair}"
  have hpair : interpolate pairLayers "${pair}-${pair}" = .ok "1.1-1.1" := by decide +kernel
  have hnot := not_circular_of_interpolate hpair
  exact ⟨⟨circular_ringLayers, hfault circular_ringLayers⟩, hnot, hnone hnot⟩

end ArtifactGraph.Expression
