import ArtifactGraph.Proofs.Settling
import Mathlib.Data.List.Perm.Basic

/-!
# The order of turns

A session can be told to reconcile any keys, in any order and as often as one likes, on any model:
also on one that has a node under the key of the application, and for keys that nobody knows.  Only
the set of the keys matters.

* Updates.  Two updates under one key are one update (`update_update_self`), and updates under
  different keys can be exchanged (`update_comm`), provided that they leave the keys of artifacts
  alone.
* Turns.  A turn is an update by what the bare model says, and no turn changes the bare model.  So
  a second turn of a key changes nothing (`turn_turn_self`) and turns can be exchanged
  (`turn_comm`).
* Sequences.  A turn that was taken can be left out (`foldl_turn_of_subset`), and
  `reconcileEach_eq_of_mem_iff` follows: sequences with the same keys lead to the same model.
-/

namespace ArtifactGraph

namespace ApplicationModel

variable {k l : ArtifactKey} {f g : ResolvedArtifact → ResolvedArtifact}

/-! ## Updates -/

theorem updateNode_updateNode_self (hf : ∀ a, (f a).key = a.key)
    (nodes : List ResolvedArtifact) :
    updateNode k g (updateNode k f nodes) = updateNode k (fun a => g (f a)) nodes := by
  induction nodes with
  | nil => rfl
  | cons n rest ih =>
    by_cases hn : n.key = k
    · rw [updateNode, updateNode, if_pos hn, if_pos hn, updateNode, if_pos (by rw [hf, hn])]
    · rw [updateNode, updateNode, if_neg hn, if_neg hn, updateNode, if_neg hn, ih]

theorem updateNode_comm (hne : k ≠ l) (hf : ∀ a, (f a).key = a.key)
    (hg : ∀ a, (g a).key = a.key) (nodes : List ResolvedArtifact) :
    updateNode l g (updateNode k f nodes) = updateNode k f (updateNode l g nodes) := by
  induction nodes with
  | nil => rfl
  | cons n rest ih =>
    by_cases hk : n.key = k
    · have hl : n.key ≠ l := by rwa [hk]
      have hfl : (f n).key ≠ l := by rwa [hf]
      rw [updateNode, if_pos hk, updateNode, if_neg hfl, updateNode, if_neg hl, updateNode,
        if_pos hk]
    · by_cases hl : n.key = l
      · have hgk : (g n).key ≠ k := by rwa [hg]
        rw [updateNode, if_neg hk, updateNode, if_pos hl, updateNode, if_pos hl, updateNode,
          if_neg hgk]
      · rw [updateNode, if_neg hk, updateNode, if_neg hl, updateNode, if_neg hl, updateNode,
          if_neg hk, ih]

theorem isApplication_update (hf : ∀ a, (f a).key = a.key) (m : ApplicationModel) :
    (m.update k f).isApplication l = m.isApplication l := by
  unfold update
  split
  · show ((f m.application).key == l) = (m.application.key == l)
    rw [hf]
  · rfl

/-- Two updates under one key are one. -/
theorem update_update_self (hf : ∀ a, (f a).key = a.key) (m : ApplicationModel) :
    (m.update k f).update k g = m.update k fun a => g (f a) := by
  rw [update, isApplication_update hf]
  unfold update
  split
  · rfl
  · rw [updateNode_updateNode_self hf]

/-- Updates under different keys can be exchanged. -/
theorem update_comm (hne : k ≠ l) (hf : ∀ a, (f a).key = a.key) (hg : ∀ a, (g a).key = a.key)
    (m : ApplicationModel) : (m.update k f).update l g = (m.update l g).update k f := by
  rw [update, isApplication_update hf, update.eq_1 (m.update l g), isApplication_update hg]
  unfold update
  by_cases hk : m.isApplication k = true
  · have hl : ¬ m.isApplication l = true := by
      intro hl
      exact hne ((beq_iff_eq.1 hk).symm.trans (beq_iff_eq.1 hl))
    simp only [if_pos hk, if_neg hl]
  · by_cases hl : m.isApplication l = true
    · simp only [if_neg hk, if_pos hl]
    · simp only [if_neg hk, if_neg hl, updateNode_comm hne hf hg]

theorem map_bare_updateNode (hf : ∀ a, (f a).bare = a.bare) (nodes : List ResolvedArtifact) :
    (updateNode k f nodes).map ResolvedArtifact.bare = nodes.map ResolvedArtifact.bare := by
  induction nodes with
  | nil => rfl
  | cons n rest ih =>
    rw [updateNode]
    split
    · rw [List.map_cons, List.map_cons, hf]
    · rw [List.map_cons, List.map_cons, ih]

theorem bare_update (hf : ∀ a, (f a).bare = a.bare) (m : ApplicationModel) :
    (m.update k f).bare = m.bare := by
  unfold update
  split
  · simp only [bare, mapArtifacts, hf]
  · simp only [bare, mapArtifacts, map_bare_updateNode hf]

end ApplicationModel

/-! ## Turns -/

namespace Session

open ApplicationModel

variable (session : Session) (mode : LaunchMode)

/-- The model after the turn of a key. -/
def turn (m : ApplicationModel) (k : ArtifactKey) : ApplicationModel :=
  (session.reconcileOne mode m k).getD m

theorem turn_eq_update (m : ApplicationModel) (k : ArtifactKey) :
    session.turn mode m k = m.update k (session.settled mode m) :=
  session.reconcileOne_getD_eq_update mode m k

@[simp] theorem bare_turn (m : ApplicationModel) (k : ArtifactKey) :
    (session.turn mode m k).bare = m.bare := by
  rw [turn_eq_update]
  exact bare_update (session.bare_settled mode m) m

/-- A turn after another one is decided by the model before both. -/
theorem turn_turn (m : ApplicationModel) (k l : ArtifactKey) :
    session.turn mode (session.turn mode m k) l =
      (m.update k (session.settled mode m)).update l (session.settled mode m) := by
  have hsettled : session.settled mode (session.turn mode m k) = session.settled mode m := by
    funext a
    exact session.settled_congr mode (session.bare_turn mode m k) a
  rw [turn_eq_update, hsettled, turn_eq_update]

/-- A second turn of a key changes nothing. -/
theorem turn_turn_self (m : ApplicationModel) (k : ArtifactKey) :
    session.turn mode (session.turn mode m k) k = session.turn mode m k := by
  rw [turn_turn, update_update_self (session.key_settled mode m), turn_eq_update]
  apply update_congr
  intro a _
  exact session.settled_settled mode m a

/-- Turns can be exchanged. -/
theorem turn_comm (m : ApplicationModel) (k l : ArtifactKey) :
    session.turn mode (session.turn mode m k) l = session.turn mode (session.turn mode m l) k := by
  by_cases hne : k = l
  · rw [hne]
  · rw [turn_turn, turn_turn,
      update_comm hne (session.key_settled mode m) (session.key_settled mode m)]

instance : RightCommutative (session.turn mode) := ⟨session.turn_comm mode⟩

/-! ## Sequences of turns -/

theorem reconcileEach_fst (m : ApplicationModel) (keys : List ArtifactKey) :
    (session.reconcileEach mode m keys).1 = keys.foldl (session.turn mode) m := by
  induction keys generalizing m with
  | nil => rfl
  | cons k rest ih => rw [reconcileEach_cons_fst, ih, List.foldl_cons, turn]

/-- A turn that was taken changes nothing. -/
theorem turn_foldl_of_mem (m : ApplicationModel) {keys : List ArtifactKey} {k : ArtifactKey}
    (hk : k ∈ keys) :
    session.turn mode (keys.foldl (session.turn mode) m) k = keys.foldl (session.turn mode) m := by
  -- The turn of the key might as well have been the last one.
  have hlast : keys.Perm (keys.erase k ++ [k]) :=
    (List.perm_cons_erase hk).trans (List.perm_append_singleton k _).symm
  rw [hlast.foldl_eq m, List.foldl_append]
  exact session.turn_turn_self mode _ k

theorem foldl_turn_of_subset (m : ApplicationModel) {keys keys' : List ArtifactKey}
    (h : ∀ k ∈ keys', k ∈ keys) :
    keys'.foldl (session.turn mode) (keys.foldl (session.turn mode) m) =
      keys.foldl (session.turn mode) m := by
  induction keys' with
  | nil => rfl
  | cons k rest ih =>
    obtain ⟨hk, hrest⟩ := List.forall_mem_cons.1 h
    rw [List.foldl_cons, turn_foldl_of_mem session mode m hk, ih hrest]

/-- Sequences of turns with the same keys lead from a model to the same model, in whatever order
they are and however often they repeat a key. So a second turn of a key changes nothing, and turns
of two keys can be exchanged. -/
theorem reconcileEach_eq_of_mem_iff (m : ApplicationModel) :
    (∀ keys keys' : List ArtifactKey, (∀ k, k ∈ keys ↔ k ∈ keys') →
      (session.reconcileEach mode m keys).1 = (session.reconcileEach mode m keys').1) ∧
    (∀ k, session.turn mode (session.turn mode m k) k = session.turn mode m k) ∧
    ∀ k l, session.turn mode (session.turn mode m k) l =
      session.turn mode (session.turn mode m l) k := by
  refine ⟨?_, session.turn_turn_self mode m, session.turn_comm mode m⟩
  intro keys keys' hkeys
  rw [reconcileEach_fst, reconcileEach_fst]
  calc keys.foldl (session.turn mode) m
      = keys'.foldl (session.turn mode) (keys.foldl (session.turn mode) m) :=
        (session.foldl_turn_of_subset mode m fun k hk => (hkeys k).2 hk).symm
    _ = (keys ++ keys').foldl (session.turn mode) m := by rw [List.foldl_append]
    _ = (keys' ++ keys).foldl (session.turn mode) m := List.perm_append_comm.foldl_eq m
    _ = keys.foldl (session.turn mode) (keys'.foldl (session.turn mode) m) := by
        rw [List.foldl_append]
    _ = keys'.foldl (session.turn mode) m :=
        session.foldl_turn_of_subset mode m fun k hk => (hkeys k).1 hk

/-! ## A node behind the application -/

/-- A model with a node under the key of the application. -/
def crowdedModel : ApplicationModel :=
  { application := { coordinates := { groupId := "g", artifactId := "app", version := "1" } }
    nodes :=
      [{ coordinates := { groupId := "g", artifactId := "lib", version := "2" }
         flags := .of .direct },
        { coordinates := { groupId := "g", artifactId := "app", version := "9" } }] }

/-- The application declares the library, and the library the application and a test. -/
def crowdedSession : Session :=
  [(⟨"g", "lib", "", "jar"⟩, .declared
      [.ofBuildScript "g" "app" none "compile", .ofBuildScript "x" "a" (some "1") "test"]),
    (⟨"g", "app", "", "jar"⟩, .declared [.ofBuildScript "g" "lib" (some "1") "compile"]),
    (⟨"g", "gone", "", "jar"⟩, .unresolved)]

/-- The model with both reconciled. The node behind the application is found by the library, and
has no turn of its own. -/
def crowdedResult : ApplicationModel :=
  { application :=
      { coordinates := { groupId := "g", artifactId := "app", version := "1" }
        dependencies := [{ groupId := "g", artifactId := "lib", version := "2" }]
        directDependencies :=
          [{ groupId := "g", artifactId := "lib", version := some "2", flags := .of .direct }] }
    nodes :=
      [{ coordinates := { groupId := "g", artifactId := "lib", version := "2" }
         flags := .of .direct
         dependencies := [{ groupId := "g", artifactId := "app", version := "9" }]
         directDependencies :=
          [{ groupId := "g", artifactId := "app", version := some "9", flags := .of .direct },
            { groupId := "x", artifactId := "a", version := some "1", scope := "test"
              flags := (Flags.of .missingFromApplication).add .direct }] },
        { coordinates := { groupId := "g", artifactId := "app", version := "9" } }] }

/-- The keys of the model, and then some that it does not have. -/
def crowdedKeys : List ArtifactKey :=
  [⟨"g", "app", "", "jar"⟩, ⟨"g", "lib", "", "jar"⟩, ⟨"g", "gone", "", "jar"⟩,
    ⟨"g", "none", "", "jar"⟩]

theorem reconcileEach_eq_crowded :
    (∀ k, k ∈ crowdedKeys ↔ k ∈ crowdedKeys.reverse ++ crowdedKeys) ∧
      (crowdedSession.reconcileEach .test crowdedModel crowdedKeys).1 = crowdedResult ∧
      (crowdedSession.reconcileEach .test crowdedModel (crowdedKeys.reverse ++ crowdedKeys)).1 =
        crowdedResult := by
  have hkeys : ∀ k, k ∈ crowdedKeys ↔ k ∈ crowdedKeys.reverse ++ crowdedKeys := by simp
  have hresult : (crowdedSession.reconcileEach .test crowdedModel crowdedKeys).1 =
      crowdedResult := by decide +kernel
  refine ⟨hkeys, hresult, ?_⟩
  rw [← (reconcileEach_eq_of_mem_iff crowdedSession .test crowdedModel).1 _ _ hkeys, hresult]

end Session

end ArtifactGraph
