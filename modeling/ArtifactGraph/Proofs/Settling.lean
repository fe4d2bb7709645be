import ArtifactGraph.Proofs.Nodes

/-!
# Reconciling all artifacts at once

A run reconciles one artifact after the other, each on the model that the ones before have left.
The order makes no difference: reconciling reads the coordinates and the flags of the artifacts and
changes neither.

* `bare` is what reconciling reads of an artifact or a model, and `bare_mapArtifacts` says what
  leaves it as it is.
* `settled` is an artifact after its turn, on any model with the same bare one.
* `reconcileOne_getD_eq_update`: a turn is an update of what is found under the key.
* `reconcileEach_eq_mapArtifacts`: a sequence of turns is a change of every artifact that had one,
  all of them on the model at the beginning.
* `conclude_model` is this for the sequence of a run.
-/

namespace ArtifactGraph

/-! ## What reconciling reads -/

/-- The artifact without its edges and records. -/
def ResolvedArtifact.bare (a : ResolvedArtifact) : ResolvedArtifact :=
  { coordinates := a.coordinates, flags := a.flags }

@[simp] theorem ResolvedArtifact.key_bare (a : ResolvedArtifact) : a.bare.key = a.key := rfl

theorem ResolvedArtifact.key_eq_of_bare_eq {a b : ResolvedArtifact} (h : a.bare = b.bare) :
    a.key = b.key := by
  rw [← key_bare a, h, key_bare]

namespace ApplicationModel

/-- The model without edges and records. -/
def bare (m : ApplicationModel) : ApplicationModel := m.mapArtifacts .bare

theorem bare_mapArtifacts {m : ApplicationModel} {f : ResolvedArtifact → ResolvedArtifact}
    (hf : ∀ a, (f a).bare = a.bare) : (m.mapArtifacts f).bare = m.bare := by
  rw [bare, mapArtifacts_mapArtifacts]
  exact mapArtifacts_congr fun a _ => hf a

theorem keys_mapArtifacts {m : ApplicationModel} {f : ResolvedArtifact → ResolvedArtifact}
    (hf : ∀ a, (f a).bare = a.bare) : (m.mapArtifacts f).keys = m.keys := by
  unfold keys mapArtifacts
  rw [List.map_map]
  exact List.map_congr_left fun n _ => ResolvedArtifact.key_eq_of_bare_eq (hf n)

theorem WellKeyed.mapArtifacts {m : ApplicationModel} (hm : m.WellKeyed)
    {f : ResolvedArtifact → ResolvedArtifact} (hf : ∀ a, (f a).bare = a.bare) :
    (m.mapArtifacts f).WellKeyed := by
  constructor
  · rw [keys_mapArtifacts hf]
    exact hm.nodup
  · rw [keys_mapArtifacts hf]
    show (f m.application).key ∉ m.keys
    rw [ResolvedArtifact.key_eq_of_bare_eq (hf m.application)]
    exact hm.apart

theorem get?_bare (m : ApplicationModel) (k : ArtifactKey) :
    m.bare.get? k = (m.get? k).map .bare := by
  unfold get? bare mapArtifacts
  rw [List.find?_map]
  rfl

theorem matchedRecord_bare (d : DeclaredDependency) (node : Option ResolvedArtifact) :
    d.matchedRecord (node.map .bare) = d.matchedRecord node := by
  cases node <;> rfl

theorem reconcile_bare (m : ApplicationModel) (retainTest : Bool)
    (declared : List DeclaredDependency) :
    m.bare.reconcile retainTest declared = m.reconcile retainTest declared := by
  unfold reconcile
  simp only [get?_bare, matchedRecord_bare, Option.map_map]
  rfl

theorem reconcile_congr {m m' : ApplicationModel} (h : m.bare = m'.bare) (retainTest : Bool)
    (declared : List DeclaredDependency) :
    m.reconcile retainTest declared = m'.reconcile retainTest declared := by
  rw [← reconcile_bare, h, reconcile_bare]

theorem retainsTests_congr {m m' : ApplicationModel} (h : m.bare = m'.bare) (mode : LaunchMode)
    {a b : ResolvedArtifact} (hab : a.bare = b.bare) :
    m.retainsTests mode a = m'.retainsTests mode b := by
  show m.bare.retainsTests mode a.bare = m'.bare.retainsTests mode b.bare
  rw [h, hab]

end ApplicationModel

/-! ## One artifact -/

namespace Session

open ApplicationModel

variable (session : Session) (mode : LaunchMode)

/-- An artifact after its turn: with the declarations held for its key, or as it was where none
are held. -/
def settled (m : ApplicationModel) (a : ResolvedArtifact) : ResolvedArtifact :=
  match session.declared? a.key with
  | none => a
  | some l => (m.reconcile (m.retainsTests mode a) l).applyTo a

@[simp] theorem bare_settled (m : ApplicationModel) (a : ResolvedArtifact) :
    (session.settled mode m a).bare = a.bare := by
  unfold settled
  split <;> rfl

@[simp] theorem key_settled (m : ApplicationModel) (a : ResolvedArtifact) :
    (session.settled mode m a).key = a.key :=
  ResolvedArtifact.key_eq_of_bare_eq (session.bare_settled mode m a)

/-- A turn is the same on every model with the same bare one. -/
theorem settled_congr {m m' : ApplicationModel} (h : m.bare = m'.bare) (a : ResolvedArtifact) :
    session.settled mode m a = session.settled mode m' a := by
  unfold settled
  split
  · rfl
  · rw [retainsTests_congr h mode rfl, reconcile_congr h]

/-- A second turn changes nothing. -/
theorem settled_settled (m : ApplicationModel) (a : ResolvedArtifact) :
    session.settled mode m (session.settled mode m a) = session.settled mode m a := by
  have hretains : m.retainsTests mode (session.settled mode m a) = m.retainsTests mode a :=
    retainsTests_congr rfl mode (session.bare_settled mode m a)
  rw [settled, key_settled, hretains]
  unfold settled
  split <;> rfl

/-! ## One turn after the other -/

/-- A turn changes what is found under the key, and nothing where no declarations are held. -/
theorem reconcileOne_getD_eq_update (m : ApplicationModel) (k : ArtifactKey) :
    (session.reconcileOne mode m k).getD m = m.update k (session.settled mode m) := by
  unfold reconcileOne
  cases hl : session.declared? k with
  | none =>
    symm
    apply update_eq_self
    intro a ha
    rw [settled, key_of_artifact? ha, hl]
  | some l =>
    cases hfound : m.artifact? k with
    | none =>
      symm
      apply update_eq_self
      intro a ha
      rw [hfound] at ha
      cases ha
    | some target =>
      apply update_congr
      intro a ha
      have hkey : a.key = k := key_of_artifact? ha
      rw [hfound] at ha
      cases ha
      rw [settled, hkey, hl]

/-- In a well-keyed model a turn changes the artifact of the key and no other one. -/
theorem reconcileOne_getD {m : ApplicationModel} (hm : m.WellKeyed) (k : ArtifactKey) :
    (session.reconcileOne mode m k).getD m =
      m.mapArtifacts fun a => if a.key = k then session.settled mode m a else a := by
  rw [reconcileOne_getD_eq_update, update_eq_mapArtifacts hm]

theorem reconcileEach_cons_fst (m : ApplicationModel) (k : ArtifactKey) (rest : List ArtifactKey) :
    (session.reconcileEach mode m (k :: rest)).1 =
      (session.reconcileEach mode ((session.reconcileOne mode m k).getD m) rest).1 := by
  rw [reconcileEach]
  cases session.reconcileOne mode m k <;> rfl

/-- Any sequence of turns is one change of all artifacts that had a turn. -/
theorem reconcileEach_eq_mapArtifacts {m : ApplicationModel} (hm : m.WellKeyed)
    (keys : List ArtifactKey) :
    (session.reconcileEach mode m keys).1 =
      m.mapArtifacts fun a => if a.key ∈ keys then session.settled mode m a else a := by
  induction keys generalizing m with
  | nil =>
    symm
    apply mapArtifacts_eq_self
    intro a _
    rw [if_neg List.not_mem_nil]
  | cons k rest ih =>
    have hturn : ∀ a, (if a.key = k then session.settled mode m a else a).bare = a.bare := by
      intro a
      split
      · exact session.bare_settled mode m a
      · rfl
    rw [reconcileEach_cons_fst, reconcileOne_getD session mode hm, ih (hm.mapArtifacts hturn),
      mapArtifacts_mapArtifacts]
    apply mapArtifacts_congr
    intro a _
    -- The turns of the rest see the model that this turn has left.
    rw [settled_congr session mode (bare_mapArtifacts hturn),
      ResolvedArtifact.key_eq_of_bare_eq (hturn a)]
    by_cases hk : a.key = k
    · rw [if_pos hk, if_pos (List.mem_cons.2 (Or.inl hk)), settled_settled]
      split <;> rfl
    · rw [if_neg hk]
      by_cases hrest : a.key ∈ rest
      · rw [if_pos hrest, if_pos (List.mem_cons_of_mem k hrest)]
      · rw [if_neg hrest, if_neg (by simp [hk, hrest])]

end Session

/-! ## The run -/

/-- The model of a run is the seeded one with every artifact reconciled on it. -/
theorem BuildModel.conclude_model (mode : LaunchMode) (session : Session)
    {seeded : ApplicationModel} (hseeded : seeded.WellKeyed) :
    (conclude mode session seeded).model = seeded.mapArtifacts (session.settled mode seeded) := by
  show (session.reconcileEach mode seeded (seeded.application.key :: seeded.keys)).1 = _
  rw [Session.reconcileEach_eq_mapArtifacts session mode hseeded]
  apply ApplicationModel.mapArtifacts_congr
  intro a ha
  have hkey : a.key ∈ seeded.application.key :: seeded.keys := List.mem_map_of_mem ha
  rw [if_pos hkey]

end ArtifactGraph
