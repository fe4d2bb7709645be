import ArtifactGraph.Proofs.Shelves

/-!
# Chains of parents

The chain of a triple is the triple, the parent that its POM names, the parent that the POM of that
one names, and so on.  It may end, it may run into itself, and it may go on for longer than anybody
follows it.  Where a locator answers each triple in one way, the chain does not depend on when it
is asked.

* The chain.  `chain` lists its triples, `IsLineage` says that it ends in time and can be read, and
  `Obstacle` is what may be in the way at a place.  `IsLineage.not_obstacle`: it is one or the
  other.
* The walk.  `Walk` has a rule for each way in which one step of `lineageFrom` can go, with the
  triples that are asked for; `Walk.gives` leads from the rules to the runs.
* Its laws.  `Reached` is what a walk knows of the chain wherever it is.  `Walk.nodup_asked`,
  `Walk.exists_firstObstacle` and `Walk.chain_eq` are what follows for a whole walk.
* `gives_lineage_of_answers` puts them together.
-/

namespace ArtifactGraph

namespace Pom

variable {σ : Type}

/-! ## The chain -/

/-- The POM of a triple, read from what a locator answers. -/
def readAnswer (answers : Gav → Except LocateFault PomSource) (gav : Gav) :
    Except ModelFault Pom :=
  match answers gav with
  | .error fault => .error (.notLocated fault)
  | .ok found =>
    match read? found.content with
    | none => .error (.unreadable found.location)
    | some pom => .ok pom

section

variable (pomOf : Gav → Except ModelFault Pom) (gav : Gav)

/-- The triple at a place of the chain: each POM names the next one. -/
def chain : Nat → Option Gav
  | 0 => some gav
  | i + 1 => (chain i).bind fun current => (pomOf current).toOption.bind parentGav?

/-- Whether the chain consists of some triples, each once and not too many, which have these
POMs. -/
structure IsLineage (gavs : List Gav) (poms : List Pom) : Prop where
  chain_eq : ∀ i, chain pomOf gav i = gavs[i]?
  nodup : gavs.Nodup
  length_le : gavs.length ≤ lineageLimit
  read : gavs.map pomOf = poms.map .ok

/-- What is in the way at a place of the chain. -/
inductive Obstacle : Nat → ModelFault → Prop
  /-- The triple has been there before. -/
  | repeated {i j : Nat} {current : Gav} (hcurrent : chain pomOf gav i = some current) (hj : j < i)
      (hearlier : chain pomOf gav j = some current) : Obstacle i (.parentCycle gav current)
  /-- The triple is one too many. -/
  | tooDeep {current : Gav} (hcurrent : chain pomOf gav lineageLimit = some current)
      (hnew : ∀ j < lineageLimit, chain pomOf gav j ≠ some current) :
      Obstacle lineageLimit (.parentsTooDeep gav)
  /-- The POM is not found or cannot be read. -/
  | refused {i : Nat} {current : Gav} {fault : ModelFault} (hi : i < lineageLimit)
      (hcurrent : chain pomOf gav i = some current)
      (hnew : ∀ j < i, chain pomOf gav j ≠ some current) (hpom : pomOf current = .error fault) :
      Obstacle i fault

/-- The obstacle that is met first. -/
structure FirstObstacle (i : Nat) (fault : ModelFault) : Prop where
  obstacle : Obstacle pomOf gav i fault
  first : ∀ j < i, ∀ earlier, ¬ Obstacle pomOf gav j earlier

end

variable {pomOf : Gav → Except ModelFault Pom} {gav : Gav}

theorem chain_succ {i : Nat} {current : Gav} {pom : Pom}
    (hcurrent : chain pomOf gav i = some current) (hpom : pomOf current = .ok pom) :
    chain pomOf gav (i + 1) = pom.parentGav? := by
  rw [chain, hcurrent, Option.bind_some, hpom]
  rfl

/-- Behind its end there is nothing in the chain. -/
theorem chain_add_eq_none {i : Nat} (h : chain pomOf gav i = none) (k : Nat) :
    chain pomOf gav (i + k) = none := by
  induction k with
  | zero => exact h
  | succ k ih => rw [← Nat.add_assoc, chain, ih, Option.bind_none]

/-- At one place there is one obstacle. -/
theorem Obstacle.unique {i : Nat} {fault fault' : ModelFault} (h : Obstacle pomOf gav i fault)
    (h' : Obstacle pomOf gav i fault') : fault' = fault := by
  cases h with
  | repeated hcurrent hj hearlier =>
    cases h' with
    | repeated hcurrent' hj' hearlier' =>
      cases hcurrent.symm.trans hcurrent'
      rfl
    | tooDeep hcurrent' hnew' | refused hi' hcurrent' hnew' hpom' =>
      cases hcurrent.symm.trans hcurrent'
      exact absurd hearlier (hnew' _ hj)
  | tooDeep hcurrent hnew =>
    cases h' with
    | repeated hcurrent' hj' hearlier' =>
      cases hcurrent.symm.trans hcurrent'
      exact absurd hearlier' (hnew _ hj')
    | tooDeep hcurrent' hnew' => rfl
    | refused hi' hcurrent' hnew' hpom' => omega
  | refused hi hcurrent hnew hpom =>
    cases h' with
    | repeated hcurrent' hj' hearlier' =>
      cases hcurrent.symm.trans hcurrent'
      exact absurd hearlier' (hnew _ hj')
    | tooDeep hcurrent' hnew' => omega
    | refused hi' hcurrent' hnew' hpom' =>
      cases hcurrent.symm.trans hcurrent'
      cases hpom.symm.trans hpom'
      rfl

theorem FirstObstacle.unique {i i' : Nat} {fault fault' : ModelFault}
    (h : FirstObstacle pomOf gav i fault) (h' : FirstObstacle pomOf gav i' fault') :
    fault' = fault := by
  have hplace : i' = i := by
    rcases Nat.lt_trichotomy i' i with hlt | heq | hlt
    · exact absurd h'.obstacle (h.first i' hlt fault')
    · exact heq
    · exact absurd h.obstacle (h'.first i hlt fault)
  subst hplace
  exact h.obstacle.unique h'.obstacle

/-- In a chain that ends in time and can be read nothing is in the way. -/
theorem IsLineage.not_obstacle {gavs : List Gav} {poms : List Pom}
    (h : IsLineage pomOf gav gavs poms) (i : Nat) (fault : ModelFault) :
    ¬ Obstacle pomOf gav i fault := by
  intro hobstacle
  cases hobstacle with
  | @repeated _ j current hcurrent hj hearlier =>
    rw [h.chain_eq] at hcurrent hearlier
    have hlt : i < gavs.length := (List.getElem?_eq_some_iff.1 hcurrent).1
    have hsame := (List.getElem?_inj (Nat.lt_trans hj hlt) h.nodup).1 (hearlier.trans hcurrent.symm)
    omega
  | tooDeep hcurrent hnew =>
    rw [h.chain_eq] at hcurrent
    have hlt := (List.getElem?_eq_some_iff.1 hcurrent).1
    have hle := h.length_le
    omega
  | @refused _ current _ hi hcurrent hnew hpom =>
    rw [h.chain_eq] at hcurrent
    have hmem : pomOf current ∈ poms.map .ok :=
      h.read ▸ List.mem_map_of_mem (List.mem_of_getElem? hcurrent)
    obtain ⟨pom, -, heq⟩ := List.mem_map.1 hmem
    cases heq.trans hpom

theorem IsLineage.unique {gavs gavs' : List Gav} {poms poms' : List Pom}
    (h : IsLineage pomOf gav gavs poms) (h' : IsLineage pomOf gav gavs' poms') :
    poms' = poms := by
  have hgavs : gavs' = gavs := List.ext_getElem? fun i => by rw [← h.chain_eq, ← h'.chain_eq]
  have hread : poms'.map (Except.ok : Pom → Except ModelFault Pom) = poms.map .ok := by
    rw [← h.read, ← h'.read, hgavs]
  exact (List.map_inj_right fun _ _ heq => Except.ok.inj heq).1 hread

/-! ## The walk -/

section

variable (pomOf : Gav → Except ModelFault Pom) (gav : Gav)

/-- A walk along the chain, from one of its triples on: there is room for some more POMs, some
triples have been seen, some are asked for on the way, and this is what it comes to. -/
inductive Walk : Nat → List Gav → Gav → List Gav → Except ModelFault (List Pom) → Prop
  | repeated {room : Nat} {seen : List Gav} {current : Gav} (hseen : current ∈ seen) :
      Walk room seen current [] (.error (.parentCycle gav current))
  | tooDeep {seen : List Gav} {current : Gav} (hnew : current ∉ seen) :
      Walk 0 seen current [] (.error (.parentsTooDeep gav))
  | refused {room : Nat} {seen : List Gav} {current : Gav} {fault : ModelFault}
      (hnew : current ∉ seen) (hpom : pomOf current = .error fault) :
      Walk (room + 1) seen current [current] (.error fault)
  | last {room : Nat} {seen : List Gav} {current : Gav} {pom : Pom} (hnew : current ∉ seen)
      (hpom : pomOf current = .ok pom) (hparent : pom.parentGav? = none) :
      Walk (room + 1) seen current [current] (.ok [pom])
  | parent {room : Nat} {seen asked : List Gav} {current parent : Gav} {pom : Pom}
      {r : Except ModelFault (List Pom)} (hnew : current ∉ seen) (hpom : pomOf current = .ok pom)
      (hparent : pom.parentGav? = some parent) (hrest : Walk room (current :: seen) parent asked r) :
      Walk (room + 1) seen current (current :: asked) (r.map (pom :: ·))

/-- There is a way to go on from everywhere. -/
theorem exists_walk (room : Nat) (seen : List Gav) (current : Gav) :
    ∃ asked r, Walk pomOf gav room seen current asked r := by
  induction room generalizing seen current with
  | zero =>
    by_cases hseen : current ∈ seen
    · exact ⟨_, _, .repeated hseen⟩
    · exact ⟨_, _, .tooDeep hseen⟩
  | succ room ih =>
    by_cases hseen : current ∈ seen
    · exact ⟨_, _, .repeated hseen⟩
    · cases hpom : pomOf current with
      | error fault => exact ⟨_, _, .refused hseen hpom⟩
      | ok pom =>
        cases hparent : pom.parentGav? with
        | none => exact ⟨_, _, .last hseen hpom hparent⟩
        | some parent =>
          obtain ⟨asked, r, hrest⟩ := ih (current :: seen) parent
          exact ⟨_, _, .parent hseen hpom hparent hrest⟩

end

/-- By the rules goes whoever gets the POMs of the triples; `after` is the state that getting one
leaves. -/
theorem Walk.gives {fetch : Fetch (StateM σ)} {after : σ → Gav → σ}
    (hfetch : ∀ s current, Gives (fetch current).run s (pomOf current) (after s current))
    {room : Nat} {seen asked : List Gav} {current : Gav} {r : Except ModelFault (List Pom)}
    (h : Walk pomOf gav room seen current asked r) (s : σ) :
    Gives (lineageFrom fetch gav room seen current).run s r (asked.foldl after s) := by
  induction h generalizing s with
  | @repeated room seen current hseen =>
    cases room <;> rw [lineageFrom, if_pos (List.contains_iff_mem.2 hseen)] <;>
      exact gives_throw_iff.2 ⟨rfl, rfl⟩
  | tooDeep hnew =>
    rw [lineageFrom, if_neg (by simpa using hnew)]
    exact gives_throw_iff.2 ⟨rfl, rfl⟩
  | @refused room seen current fault hnew hpom =>
    rw [lineageFrom, if_neg (by simpa using hnew), gives_error_bind_iff, ← hpom]
    exact Or.inl (hfetch s current)
  | @last room seen current pom hnew hpom hparent =>
    rw [lineageFrom, if_neg (by simpa using hnew)]
    refine Gives.run_bind (hpom ▸ hfetch s current) ?_
    simp only [hparent]
    exact gives_pure_iff.2 ⟨rfl, rfl⟩
  | @parent room seen asked current parent pom r hnew hpom hparent _ ih =>
    have hrest := ih (after s current)
    rw [lineageFrom, if_neg (by simpa using hnew)]
    refine Gives.run_bind (hpom ▸ hfetch s current) ?_
    simp only [hparent]
    cases r with
    | error fault => exact gives_error_bind_iff.2 (Or.inl hrest)
    | ok ancestors => exact hrest.run_bind (gives_pure_iff.2 ⟨rfl, rfl⟩)

/-! ## The laws of a walk -/

/-- What a walk knows of the chain when it is at a place: the triples before it are those that have
been seen, and nothing has been in the way. -/
structure Reached (pomOf : Gav → Except ModelFault Pom) (gav : Gav) (i : Nat) (seen : List Gav)
    (current : Gav) : Prop where
  current_eq : chain pomOf gav i = some current
  mem_seen : ∀ g, g ∈ seen ↔ ∃ j < i, chain pomOf gav j = some g
  clear : ∀ j < i, ∀ fault, ¬ Obstacle pomOf gav j fault

theorem reached_zero (pomOf : Gav → Except ModelFault Pom) (gav : Gav) :
    Reached pomOf gav 0 [] gav := ⟨rfl, by simp, by simp⟩

section

variable {room i : Nat} {seen asked : List Gav} {current : Gav}

theorem Reached.ne_of_not_mem (h : Reached pomOf gav i seen current) (hnew : current ∉ seen) :
    ∀ j < i, chain pomOf gav j ≠ some current :=
  fun j hj heq => hnew ((h.mem_seen current).2 ⟨j, hj, heq⟩)

/-- From a POM that could be read the walk goes on to its parent. -/
theorem Reached.parent {pom : Pom} {parent : Gav} (h : Reached pomOf gav i seen current)
    (hi : i < lineageLimit) (hnew : current ∉ seen) (hpom : pomOf current = .ok pom)
    (hparent : pom.parentGav? = some parent) :
    Reached pomOf gav (i + 1) (current :: seen) parent := by
  refine ⟨(chain_succ h.current_eq hpom).trans hparent, ?_, ?_⟩
  · intro g
    rw [List.mem_cons, h.mem_seen]
    constructor
    · rintro (rfl | ⟨j, hj, hg⟩)
      · exact ⟨i, Nat.lt_succ_self i, h.current_eq⟩
      · exact ⟨j, Nat.lt_succ_of_lt hj, hg⟩
    · rintro ⟨j, hj, hg⟩
      rcases Nat.lt_succ_iff_lt_or_eq.1 hj with hj | rfl
      · exact Or.inr ⟨j, hj, hg⟩
      · exact Or.inl (Option.some.inj (hg.symm.trans h.current_eq))
  · intro j hj fault hobstacle
    rcases Nat.lt_succ_iff_lt_or_eq.1 hj with hj | rfl
    · exact h.clear j hj fault hobstacle
    · cases hobstacle with
      | repeated hcurrent hj hearlier =>
        cases h.current_eq.symm.trans hcurrent
        exact h.ne_of_not_mem hnew _ hj hearlier
      | tooDeep hcurrent hnew' => exact absurd hi (Nat.lt_irrefl _)
      | refused hi' hcurrent hnew' hpom' =>
        cases h.current_eq.symm.trans hcurrent
        cases hpom.symm.trans hpom'

/-- A walk asks for each triple once, and for no more of them than there is room for. -/
theorem Walk.nodup_asked {r : Except ModelFault (List Pom)}
    (h : Walk pomOf gav room seen current asked r) :
    asked.Nodup ∧ asked.length ≤ room ∧ ∀ g ∈ asked, g ∉ seen := by
  induction h with
  | repeated hseen | tooDeep hnew => simp
  | refused hnew hpom => simpa using hnew
  | last hnew hpom hparent => simpa using hnew
  | @parent room seen asked current parent pom r hnew hpom hparent _ ih =>
    obtain ⟨hnodup, hlength, hfresh⟩ := ih
    refine ⟨List.nodup_cons.2 ⟨fun hmem => hfresh current hmem List.mem_cons_self, hnodup⟩,
      Nat.succ_le_succ hlength, ?_⟩
    intro g hg
    rcases List.mem_cons.1 hg with rfl | hg
    · exact hnew
    · exact fun hseen => hfresh g hg (List.mem_cons_of_mem _ hseen)

/-- A walk that fails does so at the first obstacle. -/
theorem Walk.exists_firstObstacle {r : Except ModelFault (List Pom)} {fault : ModelFault}
    (h : Walk pomOf gav room seen current asked r) (hr : r = .error fault)
    (hreached : Reached pomOf gav i seen current) (hroom : i + room = lineageLimit) :
    ∃ k, FirstObstacle pomOf gav k fault := by
  induction h generalizing i with
  | @repeated room seen current hseen =>
    cases hr
    obtain ⟨j, hj, hearlier⟩ := (hreached.mem_seen current).1 hseen
    exact ⟨i, .repeated hreached.current_eq hj hearlier, hreached.clear⟩
  | @tooDeep seen current hnew =>
    cases hr
    obtain rfl : i = lineageLimit := hroom
    exact ⟨_, .tooDeep hreached.current_eq (hreached.ne_of_not_mem hnew), hreached.clear⟩
  | @refused room seen current fault' hnew hpom =>
    cases hr
    refine ⟨i, ?_, hreached.clear⟩
    exact .refused (by omega) hreached.current_eq (hreached.ne_of_not_mem hnew) hpom
  | last => cases hr
  | @parent room seen asked current parent pom r hnew hpom hparent _ ih =>
    cases r with
    | ok ancestors => cases hr
    | error fault' =>
      cases hr
      exact ih rfl (hreached.parent (by omega) hnew hpom hparent) (by omega)

/-- A walk that succeeds has been to all that was left of the chain, and has read it. -/
theorem Walk.chain_eq {r : Except ModelFault (List Pom)} {poms : List Pom}
    (h : Walk pomOf gav room seen current asked r) (hr : r = .ok poms)
    (hcurrent : chain pomOf gav i = some current) :
    (∀ k, chain pomOf gav (i + k) = asked[k]?) ∧ asked.map pomOf = poms.map .ok := by
  induction h generalizing i poms with
  | repeated | tooDeep | refused => cases hr
  | @last room seen current pom hnew hpom hparent =>
    cases hr
    refine ⟨fun k => ?_, by simp [hpom]⟩
    cases k with
    | zero => exact hcurrent
    | succ k =>
      have hend := (chain_succ hcurrent hpom).trans hparent
      rw [← Nat.add_assoc, Nat.add_right_comm, chain_add_eq_none hend]
      rfl
  | @parent room seen asked current parent pom r hnew hpom hparent _ ih =>
    cases r with
    | error fault => cases hr
    | ok ancestors =>
      cases hr
      obtain ⟨hrest, hread⟩ := ih rfl ((chain_succ hcurrent hpom).trans hparent)
      refine ⟨fun k => ?_, by simp [hpom, hread]⟩
      cases k with
      | zero => exact hcurrent
      | succ k => rw [← Nat.add_assoc, Nat.add_right_comm, hrest, List.getElem?_cons_succ]

/-- A whole walk reads the chain, or meets an obstacle. -/
theorem Walk.cases_of_whole {r : Except ModelFault (List Pom)}
    (h : Walk pomOf gav lineageLimit [] gav asked r) :
    (∃ poms, r = .ok poms ∧ IsLineage pomOf gav asked poms) ∨
      ∃ fault i, r = .error fault ∧ FirstObstacle pomOf gav i fault := by
  cases hr : r with
  | ok poms =>
    obtain ⟨hchain, hread⟩ := h.chain_eq (i := 0) hr rfl
    obtain ⟨hnodup, hlength, -⟩ := h.nodup_asked
    refine Or.inl ⟨poms, rfl, fun i => ?_, hnodup, hlength, hread⟩
    rw [← hchain i, Nat.zero_add]
  | error fault =>
    obtain ⟨i, hfirst⟩ :=
      h.exists_firstObstacle hr (reached_zero pomOf gav) (Nat.zero_add lineageLimit)
    exact Or.inr ⟨fault, i, rfl, hfirst⟩

theorem Walk.eq_ok_iff {r : Except ModelFault (List Pom)}
    (h : Walk pomOf gav lineageLimit [] gav asked r) (poms : List Pom) :
    r = .ok poms ↔ ∃ gavs, IsLineage pomOf gav gavs poms := by
  rcases h.cases_of_whole with ⟨poms', rfl, hlineage⟩ | ⟨fault, i, rfl, hfirst⟩
  · constructor
    · intro heq
      cases heq
      exact ⟨asked, hlineage⟩
    · rintro ⟨gavs, hother⟩
      rw [hlineage.unique hother]
  · constructor
    · intro heq
      cases heq
    · rintro ⟨gavs, hother⟩
      exact absurd hfirst.obstacle (hother.not_obstacle i fault)

theorem Walk.eq_error_iff {r : Except ModelFault (List Pom)}
    (h : Walk pomOf gav lineageLimit [] gav asked r) (fault : ModelFault) :
    r = .error fault ↔ ∃ i, FirstObstacle pomOf gav i fault := by
  rcases h.cases_of_whole with ⟨poms, rfl, hlineage⟩ | ⟨fault', i, rfl, hfirst⟩
  · constructor
    · intro heq
      cases heq
    · rintro ⟨i, hfirst⟩
      exact absurd hfirst.obstacle (hlineage.not_obstacle i fault)
  · constructor
    · intro heq
      cases heq
      exact ⟨i, hfirst⟩
    · rintro ⟨i', hother⟩
      rw [hfirst.unique hother]

end

/-! ## The whole -/

/-- Asks a locator, and notes the triple. -/
def noted (locate : Locate (StateM σ)) : Locate (StateM (σ × List Gav)) := fun gav => do
  let (s, asked) ← get
  let (answer, t) := (locate gav).run s
  set (t, asked ++ [gav])
  return answer

theorem gives_noted {locate : Locate (StateM σ)} {gav : Gav} {s t : σ}
    {answer : Except LocateFault PomSource} (h : Gives (locate gav) s answer t)
    (asked : List Gav) :
    Gives (noted locate gav) (s, asked) answer (t, asked ++ [gav]) := by
  have hrun : Gives (noted locate gav) (s, asked) ((locate gav).run s).1
      (((locate gav).run s).2, asked ++ [gav]) := rfl
  rwa [h] at hrun

/-- A POM is got by one request, and is what is read from the answer. -/
theorem gives_fetch {locate : Locate (StateM σ)} {answers : Gav → Except LocateFault PomSource}
    {gav : Gav} {s t : σ} (h : Gives (locate gav) s (answers gav) t) :
    Gives (fetch locate gav).run s (readAnswer answers gav) t := by
  refine h.run_liftM.run_bind ?_
  rw [readAnswer]
  cases answers gav with
  | error fault => exact gives_throw_iff.2 ⟨rfl, rfl⟩
  | ok found =>
    simp only
    cases read? found.content with
    | none => exact gives_throw_iff.2 ⟨rfl, rfl⟩
    | some pom => exact gives_pure_iff.2 ⟨rfl, rfl⟩

/-- The state that a request leaves, and with it the note of the request. -/
theorem foldl_noted (after : σ → Gav → σ) (requests : List Gav) (s : σ) (asked : List Gav) :
    requests.foldl (fun (x : σ × List Gav) current => (after x.1 current, x.2 ++ [current]))
      (s, asked) = (requests.foldl after s, asked ++ requests) := by
  induction requests generalizing s asked with
  | nil => simp
  | cons current rest ih => rw [List.foldl_cons, ih, List.foldl_cons, List.append_assoc]; rfl

/-- Over a locator that answers each triple in one way, the lineage of a triple is its chain, if
that ends in time and can be read; anything else fails at the first obstacle. No triple is asked for
twice, nor are more of them asked for than a lineage may have. -/
theorem gives_lineage_of_answers {locate : Locate (StateM σ)}
    {answers : Gav → Except LocateFault PomSource}
    (hanswers : ∀ gav s, ∃ t, Gives (locate gav) s (answers gav) t) (gav : Gav) (s : σ) :
    ∃ r t asked,
      Gives (lineage (fetch locate) gav).run s r t ∧
      Gives (lineage (fetch (noted locate)) gav).run (s, []) r (t, asked) ∧
      asked.Nodup ∧ asked.length ≤ lineageLimit ∧
      (∀ poms, r = .ok poms ↔ ∃ gavs, IsLineage (readAnswer answers) gav gavs poms) ∧
      (∀ fault, r = .error fault ↔ ∃ i, FirstObstacle (readAnswer answers) gav i fault) := by
  obtain ⟨asked, r, hwalk⟩ := exists_walk (readAnswer answers) gav lineageLimit [] gav
  obtain ⟨hnodup, hlength, -⟩ := hwalk.nodup_asked
  have hlocate : ∀ s current,
      Gives (locate current) s (answers current) ((locate current).run s).2 := by
    intro s current
    obtain ⟨t, ht⟩ := hanswers current s
    rw [show ((locate current).run s).2 = t from congrArg Prod.snd ht]
    exact ht
  have hnoted := hwalk.gives
    (fun s current => gives_fetch (gives_noted (hlocate s.1 current) s.2)) (s, [])
  rw [foldl_noted (fun s current => ((locate current).run s).2)] at hnoted
  exact ⟨r, _, asked, hwalk.gives (fun s current => gives_fetch (hlocate s current)) s, hnoted,
    hnodup, hlength, hwalk.eq_ok_iff, hwalk.eq_error_iff⟩

/-! ## A shelf with a ring -/

/-- A POM that says nothing but what its parent is. -/
def heirPieces (artifactId version : String) : List String :=
  ["<project>", "<parent>", "<groupId>g</groupId>", "<artifactId>", artifactId, "</artifactId>",
    "<version>", version, "</version>", "</parent>", "</project>"]

def heirPom (artifactId version : String) : Pom :=
  { parent := some ⟨some "g", some artifactId, some version⟩ }

theorem read?_heirPieces :
    read? (Text.ofPieces (heirPieces "p" "1")) = some (heirPom "p" "1") ∧
      read? (Text.ofPieces (heirPieces "q" "")) = some (heirPom "q" "") ∧
      read? (Text.ofPieces (heirPieces "r" "1")) = some (heirPom "r" "1") := by
  simp only [read?, Xml.readRoot?, Text.toList_ofPieces]
  decide +kernel

/-- A child, its parent, whose reference has no version, and a POM that is its own parent. -/
def heirs : List Volume :=
  [{ gav := ⟨"g", "c", "1"⟩, pieces := heirPieces "p" "1", pom := heirPom "p" "1"
     read_eq := read?_heirPieces.1 },
    { gav := ⟨"g", "p", "1"⟩, pieces := heirPieces "q" "", pom := heirPom "q" ""
      read_eq := read?_heirPieces.2.1 },
    { gav := ⟨"g", "r", "1"⟩, pieces := heirPieces "r" "1", pom := heirPom "r" "1"
      read_eq := read?_heirPieces.2.2 }]

def heirShelf : Shelf := .ofVolumes "shelf" heirs

/-- The child has a parent without a parent of its own, and the ring is met at its second place. -/
theorem gives_lineage_heirs :
    (∀ gav s, ∃ t, Gives ((heirShelf.locator : Locate (StateM Unit)) gav) s
      (heirShelf.locate gav) t) ∧
    (∃ gavs, IsLineage (readAnswer heirShelf.locate) ⟨"g", "c", "1"⟩ gavs
      [heirPom "p" "1", heirPom "q" ""]) ∧
    ∃ i, FirstObstacle (readAnswer heirShelf.locate) ⟨"g", "r", "1"⟩ i
      (.parentCycle ⟨"g", "r", "1"⟩ ⟨"g", "r", "1"⟩) := by
  have hanswers : ∀ gav s, ∃ t,
      Gives ((heirShelf.locator : Locate (StateM Unit)) gav) s (heirShelf.locate gav) t :=
    fun gav s => ⟨s, rfl⟩
  refine ⟨hanswers, ?_, ?_⟩
  · obtain ⟨r, t, asked, hrun, -, -, -, hok, -⟩ :=
      gives_lineage_of_answers hanswers ⟨"g", "c", "1"⟩ ()
    have hchild : Gives (lineage (fetch heirShelf.locator) ⟨"g", "c", "1"⟩).run ()
        (.ok [heirPom "p" "1", heirPom "q" ""]) () := by
      rw [heirShelf, fetch_locator]
      exact gives_ok_of_toOption (by decide +kernel)
    exact (hok _).1 (hrun.unique hchild).1
  · obtain ⟨r, t, asked, hrun, -, -, -, -, herror⟩ :=
      gives_lineage_of_answers hanswers ⟨"g", "r", "1"⟩ ()
    have hring : Gives (lineage (fetch heirShelf.locator) ⟨"g", "r", "1"⟩).run ()
        (.error (.parentCycle ⟨"g", "r", "1"⟩ ⟨"g", "r", "1"⟩)) () := by
      rw [heirShelf, fetch_locator]
      exact gives_of_eq rfl
    exact (herror _).1 (hrun.unique hring).1

end Pom

end ArtifactGraph
