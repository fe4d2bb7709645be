import ArtifactGraph.Proofs.Substitution
import Mathlib.Data.List.Forall2

/-!
# Remembered expansions

A name is expanded once and its expansion is used again, in places where other names are in
progress.  This makes no difference.  What is remembered was expanded without a fault, so it does
not lead back to itself; and a name in progress leads to the one that is asked for, so none of the
names in progress is among those that the remembered name leads to.

* `Sound` is the invariant of a memory: it holds what `substituteName` gives when nothing is in
  progress.
* `agrees_expandPieces` is the loop over the pieces of a text, `agrees_resolveName` one name.
* `interpolate_eq_substitute` is the result: with and without a memory a text comes to the same,
  faults included.
-/

namespace ArtifactGraph.Expression

/-! ## Sound memories -/

/-- Whether what is remembered of a name is its expansion when nothing is in progress. -/
def Sound (layers : Layers) (memo : Memo) : Prop :=
  ∀ name expansion, memo.lookup name = some expansion →
    substituteName layers [] name = .ok (some expansion)

theorem sound_nil (layers : Layers) : Sound layers [] := by
  intro name expansion h
  cases h

theorem Sound.cons {layers : Layers} {memo : Memo} {name expansion : String}
    (hmemo : Sound layers memo)
    (hname : substituteName layers [] name = .ok (some expansion)) :
    Sound layers ((name, expansion) :: memo) := by
  intro other expansion' h
  rw [List.lookup_cons] at h
  split at h
  · rename_i heq
    obtain rfl := beq_iff_eq.1 heq
    cases h
    exact hname
  · exact hmemo other expansion' h

/-- Whether work with a memory comes to `plain` and leaves a sound memory. -/
structure Agrees {α : Type} (layers : Layers) (r : Except Fault (α × Memo))
    (plain : Except Fault α) : Prop where
  map_fst : r.map (·.1) = plain
  sound : ∀ a memo, r = .ok (a, memo) → Sound layers memo

theorem agrees_error {α : Type} {layers : Layers} (e : Fault) :
    Agrees layers (.error e : Except Fault (α × Memo)) (.error e) :=
  ⟨rfl, fun _ _ h => by cases h⟩

theorem agrees_ok {α : Type} {layers : Layers} {a : α} {memo : Memo} (hmemo : Sound layers memo) :
    Agrees layers (.ok (a, memo)) (.ok a) := by
  refine ⟨rfl, ?_⟩
  intro b memo' h
  cases h
  exact hmemo

/-- Work with a memory that agrees stops with the fault of the plain work, or gives what that
gives. -/
theorem Agrees.cases {α : Type} {layers : Layers} {r : Except Fault (α × Memo)}
    {plain : Except Fault α} (h : Agrees layers r plain) :
    (∃ e, r = .error e ∧ plain = .error e) ∨
      ∃ a memo, r = .ok (a, memo) ∧ plain = .ok a ∧ Sound layers memo := by
  obtain ⟨hfst, hsound⟩ := h
  cases r with
  | error e => exact Or.inl ⟨e, rfl, hfst.symm⟩
  | ok answer => exact Or.inr ⟨answer.1, answer.2, rfl, hfst.symm, hsound _ _ rfl⟩

/-! ## The recursion -/

section

variable {resolve : Resolver} {lookup : String → Option String} {fuel : Nat}
  {inProgress : List String} {memo memo' : Memo} {name raw expansion : String}

theorem expandPieces_reference {inside : List Char} {found : Option String}
    (h : resolve memo (Text.trim (String.ofList inside)) = .ok (found, memo'))
    (value out : String) (rest : List Piece) :
    expandPieces resolve value out memo (.reference inside :: rest) =
      if (out ++ standIn inside found).utf8ByteSize > lengthLimit then .error (.tooLong value)
      else expandPieces resolve value (out ++ standIn inside found) memo' rest := by
  rw [expandPieces, h]
  cases found with
  | none => simp only [standIn, ← String.append_assoc]
  | some expansion => rfl

theorem resolveName_of_lookup (hknown : memo.lookup name = some expansion) :
    resolveName lookup fuel inProgress memo name = .ok (some expansion, memo) := by
  rw [resolveName, hknown]

theorem resolveName_of_none (hnew : memo.lookup name = none) (hget : lookup name = none) :
    resolveName lookup fuel inProgress memo name = .ok (none, memo) := by
  rw [resolveName, hnew]
  simp only [hget]

theorem resolveName_of_mem (hnew : memo.lookup name = none) (hget : lookup name = some raw)
    (hin : name ∈ inProgress) :
    resolveName lookup fuel inProgress memo name = .error (.cycle inProgress name) := by
  rw [resolveName, hnew]
  simp only [hget]
  rw [if_pos (List.contains_iff_mem.2 hin)]

theorem resolveName_of_not_mem (hnew : memo.lookup name = none) (hget : lookup name = some raw)
    (hout : name ∉ inProgress) :
    resolveName lookup (fuel + 1) inProgress memo name =
      (expandPieces (resolveName lookup fuel (inProgress ++ [name])) raw "" memo (pieces raw)).map
        fun r => (some r.1, (name, r.1) :: r.2) := by
  rw [resolveName, hnew]
  simp only [hget]
  rw [if_neg (by simpa using hout)]
  cases expandPieces (resolveName lookup fuel (inProgress ++ [name])) raw "" memo (pieces raw) <;>
    rfl

end

variable {layers : Layers}

/-- Where a name comes into progress, there is fuel for it and enough for the others. -/
theorem exists_fuel {fuel : Nat} {inProgress : List String} {name raw : String}
    (hfuel : (layers.remaining inProgress).card ≤ fuel) (hget : layers.get? name = some raw)
    (hout : name ∉ inProgress) :
    ∃ n, fuel = n + 1 ∧ (layers.remaining (inProgress ++ [name])).card ≤ n := by
  have hlt := Layers.card_remaining_append_lt hget hout
  exact ⟨fuel - 1, by omega, by omega⟩

/-- The loop over the pieces agrees if every name in them agrees. -/
theorem agrees_expandPieces {resolve : Resolver} {plain : String → Except Fault (Option String)}
    {value out : String} {memo : Memo} {ps : List Piece} (hmemo : Sound layers memo)
    (hresolve : ∀ inside memo, .reference inside ∈ ps → Sound layers memo →
      Agrees layers (resolve memo (Text.trim (String.ofList inside)))
        (plain (Text.trim (String.ofList inside)))) :
    Agrees layers (expandPieces resolve value out memo ps)
      (substitutePieces plain value out ps) := by
  induction ps generalizing out memo with
  | nil => exact agrees_ok hmemo
  | cons p rest ih =>
    have hrest : ∀ inside memo, .reference inside ∈ rest → Sound layers memo →
        Agrees layers (resolve memo (Text.trim (String.ofList inside)))
          (plain (Text.trim (String.ofList inside))) :=
      fun inside memo hmem => hresolve inside memo (List.mem_cons_of_mem p hmem)
    cases p with
    | text chars => exact ih hmemo hrest
    | reference inside =>
      rw [substitutePieces]
      rcases (hresolve inside memo List.mem_cons_self hmemo).cases with
        ⟨e, hwith, hwithout⟩ | ⟨found, memo', hwith, hwithout, hmemo'⟩
      · rw [expandPieces, hwith, hwithout]
        exact agrees_error e
      · rw [expandPieces_reference hwith, hwithout]
        dsimp only
        split
        · exact agrees_error _
        · exact ih hmemo' hrest

/-- A remembered expansion is the one that the name has here, too: the names in progress lead to it,
so if it led to one of them, it would lead back to itself. -/
theorem substituteName_of_lookup {memo : Memo} {name expansion : String} {inProgress : List String}
    (hmemo : Sound layers memo) (hknown : memo.lookup name = some expansion)
    (hpath : ∀ s ∈ inProgress, ∀ raw, layers.get? name = some raw → LeadsOn layers s name) :
    substituteName layers inProgress name = .ok (some expansion) := by
  have hplain := hmemo name expansion hknown
  refine substituteName_of_disjoint hplain ?_
  intro m hleads hm
  cases hget : layers.get? name with
  | none =>
    rw [substituteName_of_none hget] at hplain
    cases hplain
  | some raw =>
    have hcycle : LeadsOn layers name name := .trans_right hleads (hpath m hm raw hget)
    exact not_leadsOn_of_substituteName hplain hcycle

/-- One name agrees, while the names in progress lead to it. The fuel is enough for the names that
are not in progress, so it is used up only where there is none left. -/
theorem agrees_resolveName {fuel : Nat} {inProgress : List String} {memo : Memo} {name : String}
    (hmemo : Sound layers memo) (hfuel : (layers.remaining inProgress).card ≤ fuel)
    (hpath : ∀ s ∈ inProgress, ∀ raw, layers.get? name = some raw → LeadsOn layers s name) :
    Agrees layers (resolveName layers.get? fuel inProgress memo name)
      (substituteName layers inProgress name) := by
  induction fuel using Nat.strongRecOn generalizing inProgress memo name with
  | ind fuel ih =>
    cases hknown : memo.lookup name with
    | some expansion =>
      rw [resolveName_of_lookup hknown, substituteName_of_lookup hmemo hknown hpath]
      exact agrees_ok hmemo
    | none =>
      cases hget : layers.get? name with
      | none =>
        rw [resolveName_of_none hknown hget, substituteName_of_none hget]
        exact agrees_ok hmemo
      | some raw =>
        by_cases hin : name ∈ inProgress
        · rw [resolveName_of_mem hknown hget hin, substituteName_of_mem hget hin]
          exact agrees_error _
        · obtain ⟨n, rfl, hn⟩ := exists_fuel hfuel hget hin
          have hraw : Agrees layers
              (expandPieces (resolveName layers.get? n (inProgress ++ [name])) raw "" memo
                (pieces raw))
              (substitutePieces (substituteName layers (inProgress ++ [name])) raw ""
                (pieces raw)) := by
            refine agrees_expandPieces hmemo ?_
            intro inside memo' hmem hmemo'
            refine ih n (by omega) hmemo' hn ?_
            intro s hs raw' hget'
            have hrefers : Refers layers name (Text.trim (String.ofList inside)) :=
              ⟨raw, hget, inside, raw', hmem, rfl, hget'⟩
            exact leadsOn_of_mem_append (fun s hs => hpath s hs raw hget) hrefers s hs
          have hplain := substituteName_of_not_mem hget hin
          rw [resolveName_of_not_mem hknown hget hin]
          rcases hraw.cases with ⟨e, hwith, hwithout⟩ | ⟨expansion, memo', hwith, hwithout, hmemo'⟩
          · rw [hwithout] at hplain
            rw [hwith, hplain]
            exact agrees_error e
          · rw [hwithout] at hplain
            rw [hwith, hplain]
            exact agrees_ok (hmemo'.cons (substituteName_of_disjoint hplain (by simp)))

theorem agrees_expandPieces_resolveName (layers : Layers) (value : String) :
    Agrees layers
      (expandPieces (resolveName layers.get? layers.flatten.length []) value "" [] (pieces value))
      (substitute layers value) := by
  refine agrees_expandPieces (sound_nil layers) ?_
  intro inside memo _ hmemo
  exact agrees_resolveName hmemo layers.card_remaining_nil_le (by simp)

/-! ## The result -/

/-- What a piece of a text becomes. -/
inductive Becomes (layers : Layers) : Piece → String → Prop
  | text (chars : List Char) : Becomes layers (.text chars) (String.ofList chars)
  /-- An expression becomes the expansion of what its name stands for. -/
  | expanded {inside : List Char} {raw expansion : String}
      (hget : layers.get? (Text.trim (String.ofList inside)) = some raw)
      (hraw : interpolate layers raw = .ok expansion) :
      Becomes layers (.reference inside) expansion
  /-- Without a value it stays as it is written. -/
  | kept {inside : List Char} (hget : layers.get? (Text.trim (String.ofList inside)) = none) :
      Becomes layers (.reference inside) ("$\x7b" ++ String.ofList inside ++ "\x7d")

theorem interpolate_eq_of_agrees (layers : Layers) (value : String) :
    interpolate layers value = substitute layers value :=
  (agrees_expandPieces_resolveName layers value).map_fst

/-- The text of a name that is expanded has the same expansion on its own: it does not need to know
that it stands inside this name. -/
theorem exists_interpolate_of_substituteName {inProgress : List String} {name raw : String}
    {found : Option String} (hget : layers.get? name = some raw)
    (h : substituteName layers inProgress name = .ok found) :
    ∃ expansion, found = some expansion ∧ interpolate layers raw = .ok expansion := by
  obtain ⟨-, expansion, hfound, hraw⟩ := exists_of_substituteName_eq_ok hget h
  refine ⟨expansion, hfound, ?_⟩
  rw [interpolate_eq_of_agrees, substitute]
  refine substitutePieces_of_resolve hraw ?_
  intro inside' found' _ hfound'
  exact substituteName_of_disjoint hfound' (by simp)

theorem becomes_of_substituteName {inside : List Char} {found : Option String}
    (h : substituteName layers [] (Text.trim (String.ofList inside)) = .ok found) :
    Becomes layers (.reference inside) (standIn inside found) := by
  cases hget : layers.get? (Text.trim (String.ofList inside)) with
  | none =>
    rw [substituteName_of_none hget] at h
    cases h
    exact .kept hget
  | some raw =>
    obtain ⟨expansion, rfl, hraw⟩ := exists_interpolate_of_substituteName hget h
    exact .expanded hget hraw

/-- A text that is put together consists of what its pieces become. -/
theorem exists_parts_of_substitutePieces {value out text : String} {ps : List Piece}
    (h : substitutePieces (substituteName layers []) value out ps = .ok text) :
    ∃ parts, List.Forall₂ (Becomes layers) ps parts ∧ text = out ++ String.join parts := by
  induction ps generalizing out with
  | nil =>
    cases h
    exact ⟨[], .nil, by rw [String.join_nil, String.append_empty]⟩
  | cons p rest ih =>
    cases p with
    | text chars =>
      obtain ⟨parts, hparts, htext⟩ := ih h
      refine ⟨_, .cons (.text chars) hparts, ?_⟩
      rw [htext, String.join_cons, String.append_assoc]
    | reference inside =>
      rw [substitutePieces] at h
      cases hfound : substituteName layers [] (Text.trim (String.ofList inside)) with
      | error e =>
        rw [hfound] at h
        cases h
      | ok found =>
        simp only [hfound] at h
        split at h
        · cases h
        · obtain ⟨parts, hparts, htext⟩ := ih h
          refine ⟨_, .cons (becomes_of_substituteName hfound) hparts, ?_⟩
          rw [htext, String.join_cons, String.append_assoc]

/-- With and without a memory a text comes to the same, a fault included. The text it comes to
consists of what the pieces of its scan become, each on its own: the expansion of what a name
stands for is put in as it is. -/
theorem interpolate_eq_substitute (layers : Layers) (value : String) :
    interpolate layers value = substitute layers value ∧
      Scan value.toList (pieces value) ∧
      ∀ text, interpolate layers value = .ok text →
        ∃ parts, List.Forall₂ (Becomes layers) (pieces value) parts ∧
          text = String.join parts := by
  refine ⟨interpolate_eq_of_agrees layers value, scan_pieces value, ?_⟩
  intro text htext
  rw [interpolate_eq_of_agrees] at htext
  obtain ⟨parts, hparts, hjoin⟩ := exists_parts_of_substitutePieces htext
  exact ⟨parts, hparts, by rw [hjoin, String.empty_append]⟩

/-- A layer with a text that makes a mark where it is put in, and a name that is used twice. -/
def markLayers : Layers := [[("mark", "$"), ("v", "1"), ("pair", "${v}.${ v }")]]

/-- The mark that is put in begins no expression, an unknown name stays with its blanks, and so does
what is not closed. -/
theorem interpolate_eq_substitute_mark :
    interpolate markLayers "${mark}\x7bv\x7d ${pair} ${ w } $\x7bv" =
        .ok "$\x7bv\x7d 1.1 ${ w } $\x7bv" ∧
      ∃ parts,
        List.Forall₂ (Becomes markLayers)
          (pieces "${mark}\x7bv\x7d ${pair} ${ w } $\x7bv") parts ∧
        "$\x7bv\x7d 1.1 ${ w } $\x7bv" = String.join parts := by
  have htext : interpolate markLayers "${mark}\x7bv\x7d ${pair} ${ w } $\x7bv" =
      .ok "$\x7bv\x7d 1.1 ${ w } $\x7bv" := by decide +kernel
  obtain ⟨-, -, hparts⟩ :=
    interpolate_eq_substitute markLayers "${mark}\x7bv\x7d ${pair} ${ w } $\x7bv"
  exact ⟨htext, hparts _ htext⟩

end ArtifactGraph.Expression
