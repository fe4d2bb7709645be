import ArtifactGraph.ApplicationModel.Indexed
import ArtifactGraph.Proofs.Nodes
import Mathlib.Data.List.Induction

/-!
# The index of an application model

A model with an index and one without an index are made by the same steps: nodes are added, and
artifacts are changed under their keys.  The index is exact after any steps (`IsExact`), so that
both models are the same; and what is found in them is told by the steps.

* Steps.  `ArtifactChange` is what can be changed, `Step` is a step, and a history is a list of
  steps.  `applyAll_eq_iff` says field by field what several changes make of an artifact.
* Histories.  `IsLatest` picks the node that was added last under a key and the steps since then.
  `get?_after_eq_some_iff`: this node is found, with the changes made to it since.
* The index.  `IsExact.add` and `IsExact.update`: every step keeps the index exact, and under an
  exact index each operation is that of the model without an index (`view_add`, `view_update`).
* The model after a history.  `ReflectsHistory` says all of this of one model, and
  `reflectsHistory_after` is the theorem.
-/

namespace ArtifactGraph

/-! ## Steps -/

/-- A change of an artifact that leaves its coordinates alone. -/
inductive ArtifactChange where
  | addFlags (flags : Flags)
  | setDependencies (dependencies : List Coordinates)
  | setDirectDependencies (records : List DirectDependency)
  deriving DecidableEq, Repr

namespace ArtifactChange

def apply : ArtifactChange → ResolvedArtifact → ResolvedArtifact
  | .addFlags flags, a => a.addFlags flags
  | .setDependencies dependencies, a => { a with dependencies }
  | .setDirectDependencies records, a => { a with directDependencies := records }

/-- The artifact after several changes. -/
def applyAll (cs : List ArtifactChange) (a : ResolvedArtifact) : ResolvedArtifact :=
  cs.foldl (fun a c => c.apply a) a

@[simp] theorem key_apply (c : ArtifactChange) (a : ResolvedArtifact) :
    (c.apply a).key = a.key := by
  cases c <;> rfl

theorem applyAll_concat (cs : List ArtifactChange) (c : ArtifactChange) (a : ResolvedArtifact) :
    applyAll (cs ++ [c]) a = c.apply (applyAll cs a) := by
  rw [applyAll, List.foldl_append]
  rfl

@[simp] theorem key_applyAll (cs : List ArtifactChange) (a : ResolvedArtifact) :
    (applyAll cs a).key = a.key := by
  induction cs generalizing a with
  | nil => rfl
  | cons c rest ih => exact (ih (c.apply a)).trans (c.key_apply a)

/-- The edges that a change sets. -/
def dependencies? : ArtifactChange → Option (List Coordinates)
  | .setDependencies dependencies => some dependencies
  | _ => none

/-- The records that a change sets. -/
def directDependencies? : ArtifactChange → Option (List DirectDependency)
  | .setDirectDependencies records => some records
  | _ => none

/-- What an artifact is after several changes: the flags are its own and all that are added, and of
the lists that are set the last one counts. -/
structure IsChangedBy (cs : List ArtifactChange) (a b : ResolvedArtifact) : Prop where
  coordinates : b.coordinates = a.coordinates
  bits : ∀ i, b.flags.bits.getLsbD i = true ↔
    a.flags.bits.getLsbD i = true ∨ ∃ flags, .addFlags flags ∈ cs ∧ flags.bits.getLsbD i = true
  dependencies : b.dependencies = (cs.filterMap dependencies?).getLast?.getD a.dependencies
  directDependencies :
    b.directDependencies = (cs.filterMap directDependencies?).getLast?.getD a.directDependencies

theorem isChangedBy_nil (a : ResolvedArtifact) : IsChangedBy [] a a where
  coordinates := rfl
  bits i := by simp
  dependencies := rfl
  directDependencies := rfl

theorem IsChangedBy.concat {cs : List ArtifactChange} {a b : ResolvedArtifact}
    (h : IsChangedBy cs a b) (c : ArtifactChange) : IsChangedBy (cs ++ [c]) a (c.apply b) := by
  constructor
  case coordinates =>
    rw [← h.coordinates]
    cases c <;> rfl
  case bits =>
    intro i
    cases c with
    | addFlags flags =>
      rw [apply, ResolvedArtifact.addFlags, Flags.getLsbD_insert, Bool.or_eq_true, h.bits]
      simp [or_and_right, exists_or, or_assoc]
    | setDependencies dependencies => simpa [apply] using h.bits i
    | setDirectDependencies records => simpa [apply] using h.bits i
  case dependencies =>
    cases c <;>
      simp [apply, ResolvedArtifact.addFlags, dependencies?, List.filterMap_append, h.dependencies]
  case directDependencies =>
    cases c <;>
      simp [apply, ResolvedArtifact.addFlags, directDependencies?, List.filterMap_append,
        h.directDependencies]

theorem isChangedBy_applyAll (cs : List ArtifactChange) (a : ResolvedArtifact) :
    IsChangedBy cs a (applyAll cs a) := by
  induction cs using List.reverseRecOn with
  | nil => exact isChangedBy_nil a
  | append_singleton cs c ih =>
    rw [applyAll_concat]
    exact ih.concat c

/-- The fields say what several changes make of an artifact, and leave no choice. -/
theorem applyAll_eq_iff {cs : List ArtifactChange} {a b : ResolvedArtifact} :
    applyAll cs a = b ↔ IsChangedBy cs a b := by
  have happlied := isChangedBy_applyAll cs a
  constructor
  · rintro rfl
    exact happlied
  · intro h
    have hflags : (applyAll cs a).flags.bits = b.flags.bits := by
      apply BitVec.eq_of_getLsbD_eq
      intro i _
      rw [Bool.eq_iff_iff, happlied.bits, h.bits]
    have hcoordinates := happlied.coordinates.trans h.coordinates.symm
    have hdependencies := happlied.dependencies.trans h.dependencies.symm
    have hrecords := happlied.directDependencies.trans h.directDependencies.symm
    generalize applyAll cs a = b' at *
    obtain ⟨coordinates', ⟨bits'⟩, dependencies', records'⟩ := b'
    obtain ⟨coordinates, ⟨bits⟩, dependencies, records⟩ := b
    cases hcoordinates
    cases hflags
    cases hdependencies
    cases hrecords
    rfl

end ArtifactChange

namespace ApplicationModel

/-- A step in the making of a model. -/
inductive Step where
  | add (node : ResolvedArtifact)
  /-- Changes the artifact of a key, if there is one. -/
  | change (key : ArtifactKey) (c : ArtifactChange)
  deriving DecidableEq, Repr

/-- The key of the node that a step adds. -/
def Step.addedKey? : Step → Option ArtifactKey
  | .add node => some node.key
  | .change _ _ => none

/-- The change that a step makes under a key. -/
def Step.changeOf? (k : ArtifactKey) : Step → Option ArtifactChange
  | .add _ => none
  | .change key c => if key = k then some c else none

/-- The keys of the nodes that are added. -/
def addedKeys (h : List Step) : List ArtifactKey := h.filterMap Step.addedKey?

/-- The changes that are made under a key. -/
def changesOf (k : ArtifactKey) (h : List Step) : List ArtifactChange := h.filterMap (·.changeOf? k)

def step (m : ApplicationModel) : Step → ApplicationModel
  | .add node => m.add node
  | .change key c => m.update key c.apply

/-- The model of an application after some steps. -/
def after (a : ResolvedArtifact) (h : List Step) : ApplicationModel :=
  h.foldl step { application := a }

/-! ## One update -/

theorem keys_update {f : ResolvedArtifact → ResolvedArtifact} (hf : ∀ a, (f a).key = a.key)
    (m : ApplicationModel) (k : ArtifactKey) : (m.update k f).keys = m.keys := by
  have hnodes (nodes : List ResolvedArtifact) :
      (updateNode k f nodes).map (·.key) = nodes.map (·.key) := by
    induction nodes with
    | nil => rfl
    | cons n rest ih =>
      rw [updateNode]
      split
      · rw [List.map_cons, List.map_cons, hf]
      · rw [List.map_cons, List.map_cons, ih]
  unfold update keys
  split
  · rfl
  · exact hnodes m.nodes

theorem application_update (m : ApplicationModel) (k : ArtifactKey)
    (f : ResolvedArtifact → ResolvedArtifact) :
    (m.update k f).application =
      if k = m.application.key then f m.application else m.application := by
  unfold update isApplication
  by_cases hk : k = m.application.key
  · rw [if_pos hk, if_pos (by simp [hk])]
  · rw [if_neg hk, if_neg (by simpa using Ne.symm hk)]

theorem find?_updateNode {f : ResolvedArtifact → ResolvedArtifact} (hf : ∀ a, (f a).key = a.key)
    (nodes : List ResolvedArtifact) (k j : ArtifactKey) :
    (updateNode k f nodes).find? (·.key == j) =
      if j = k then (nodes.find? (·.key == j)).map f else nodes.find? (·.key == j) := by
  induction nodes with
  | nil => simp [updateNode]
  | cons n rest ih =>
    rw [updateNode]
    by_cases hn : n.key = k
    · rw [if_pos hn, List.find?_cons, List.find?_cons, hf, hn]
      by_cases hj : j = k
      · simp [hj]
      · simp [hj, beq_eq_false_iff_ne.2 (Ne.symm hj)]
    · rw [if_neg hn, List.find?_cons, List.find?_cons, ih]
      by_cases hj : j = k
      · rw [hj, beq_eq_false_iff_ne.2 hn]
      · simp only [if_neg hj]

/-- An update changes the node of the key, unless the application has it, and no other node. -/
theorem get?_update {f : ResolvedArtifact → ResolvedArtifact} (hf : ∀ a, (f a).key = a.key)
    (m : ApplicationModel) (k j : ArtifactKey) :
    (m.update k f).get? j =
      if j = k ∧ k ≠ m.application.key then (m.get? j).map f else m.get? j := by
  unfold update isApplication
  by_cases hk : m.application.key = k
  · rw [if_pos (by simpa using hk), if_neg (fun h => h.2 hk.symm)]
    rfl
  · rw [if_neg (by simpa using hk), get?, get?, find?_updateNode hf]
    simp only [ne_eq, Ne.symm hk, not_false_eq_true, and_true]

/-! ## Histories -/

/-- Whether a node is the last one that was added under its key, with the steps since then. -/
def IsLatest (h : List Step) (node : ResolvedArtifact) (since : List Step) : Prop :=
  ∃ before, h = before ++ .add node :: since ∧ node.key ∉ addedKeys since

variable {a : ResolvedArtifact} {h : List Step} {k : ArtifactKey}

theorem after_concat (a : ResolvedArtifact) (h : List Step) (s : Step) :
    after a (h ++ [s]) = (after a h).step s := by
  rw [after, List.foldl_append]
  rfl

@[simp] theorem addedKeys_concat_add (h : List Step) (node : ResolvedArtifact) :
    addedKeys (h ++ [.add node]) = addedKeys h ++ [node.key] :=
  List.filterMap_append

@[simp] theorem addedKeys_concat_change (h : List Step) (key : ArtifactKey) (c : ArtifactChange) :
    addedKeys (h ++ [.change key c]) = addedKeys h := by
  simp [addedKeys, Step.addedKey?]

@[simp] theorem changesOf_concat_add (k : ArtifactKey) (h : List Step) (node : ResolvedArtifact) :
    changesOf k (h ++ [.add node]) = changesOf k h := by
  simp [changesOf, Step.changeOf?]

@[simp] theorem changesOf_concat_change (k : ArtifactKey) (h : List Step) (key : ArtifactKey)
    (c : ArtifactChange) :
    changesOf k (h ++ [.change key c]) =
      if key = k then changesOf k h ++ [c] else changesOf k h := by
  by_cases hkey : key = k <;> simp [changesOf, Step.changeOf?, hkey]

/-- The application has the changes that were made under its key. -/
theorem application_after (a : ResolvedArtifact) (h : List Step) :
    (after a h).application = ArtifactChange.applyAll (changesOf a.key h) a := by
  induction h using List.reverseRecOn with
  | nil => rfl
  | append_singleton h s ih =>
    rw [after_concat]
    cases s with
    | add node => rwa [changesOf_concat_add]
    | change key c =>
      rw [step, application_update, ih, ArtifactChange.key_applyAll, changesOf_concat_change]
      by_cases hkey : key = a.key
      · rw [if_pos hkey, if_pos hkey, ArtifactChange.applyAll_concat]
      · rw [if_neg hkey, if_neg hkey]

/-- The keys of the nodes are in the order in which they were added first. -/
theorem keys_after (a : ResolvedArtifact) (h : List Step) :
    (after a h).keys = (addedKeys h).eraseDups := by
  induction h using List.reverseRecOn with
  | nil => rfl
  | append_singleton h s ih =>
    rw [after_concat]
    cases s with
    | add node =>
      rw [step, keys_add, ih, addedKeys_concat_add, List.eraseDups_append]
      simp only [List.mem_eraseDups]
      by_cases hnode : node.key ∈ addedKeys h <;> simp [List.removeAll, List.eraseDups_cons, hnode]
    | change key c => rw [step, keys_update c.key_apply, ih, addedKeys_concat_change]

/-- A node that is the latest of its key is found, with the changes made to it since; under the
application's own key none are made. -/
theorem get?_after_of_isLatest {node : ResolvedArtifact} {since : List Step}
    (hlatest : IsLatest h node since) :
    (after a h).get? node.key =
      some (if node.key = a.key then node
        else ArtifactChange.applyAll (changesOf node.key since) node) := by
  obtain ⟨before, rfl, hsince⟩ := hlatest
  induction since using List.reverseRecOn with
  | nil =>
    rw [after_concat, step, get?_add, if_pos rfl]
    split <;> rfl
  | append_singleton since s ih =>
    rw [← List.cons_append, ← List.append_assoc, after_concat]
    cases s with
    | add n =>
      rw [addedKeys_concat_add, List.mem_append, List.mem_singleton, not_or] at hsince
      rw [step, get?_add, if_neg (Ne.symm hsince.2), ih hsince.1, changesOf_concat_add]
    | change key c =>
      rw [addedKeys_concat_change] at hsince
      rw [step, get?_update c.key_apply, ih hsince, application_after, ArtifactChange.key_applyAll,
        changesOf_concat_change]
      by_cases hown : node.key = a.key
      · rw [if_pos hown, if_pos hown, if_neg fun hchanged => hchanged.2 (hchanged.1 ▸ hown)]
      · rw [if_neg hown, if_neg hown]
        by_cases hkey : key = node.key
        · rw [if_pos hkey, if_pos ⟨hkey.symm, hkey ▸ hown⟩, Option.map_some,
            ArtifactChange.applyAll_concat]
        · rw [if_neg hkey, if_neg fun hchanged => hkey hchanged.1.symm]

theorem exists_isLatest (hk : k ∈ addedKeys h) :
    ∃ node since, IsLatest h node since ∧ node.key = k := by
  induction h with
  | nil => cases hk
  | cons s rest ih =>
    by_cases hrest : k ∈ addedKeys rest
    · obtain ⟨node, since, ⟨before, hsplit, hsince⟩, hnode⟩ := ih hrest
      exact ⟨node, since, ⟨s :: before, by rw [hsplit, List.cons_append], hsince⟩, hnode⟩
    · cases s with
      | add node =>
        obtain rfl : k = node.key := (List.mem_cons.1 hk).resolve_right hrest
        exact ⟨node, rest, ⟨[], rfl, hrest⟩, rfl⟩
      | change key c => exact absurd hk hrest

theorem get?_after_eq_none_iff : (after a h).get? k = none ↔ k ∉ addedKeys h := by
  rw [← List.mem_eraseDups, ← keys_after a, get?, List.find?_eq_none, keys, List.mem_map]
  simp

/-- What is found under a key is the node that was added last, with the changes made to it since. -/
theorem get?_after_eq_some_iff {n : ResolvedArtifact} :
    (after a h).get? k = some n ↔
      ∃ node since, IsLatest h node since ∧ node.key = k ∧
        n = if k = a.key then node else ArtifactChange.applyAll (changesOf k since) node := by
  constructor
  · intro hn
    have hadded : k ∈ addedKeys h := by
      rw [← not_not (a := k ∈ addedKeys h), ← get?_after_eq_none_iff (a := a), hn]
      simp
    obtain ⟨node, since, hlatest, rfl⟩ := exists_isLatest hadded
    rw [get?_after_of_isLatest hlatest] at hn
    exact ⟨node, since, hlatest, rfl, (Option.some.inj hn).symm⟩
  · rintro ⟨node, since, hlatest, rfl, rfl⟩
    exact get?_after_of_isLatest hlatest

end ApplicationModel

namespace IndexedModel

open ApplicationModel (Step addedKeys changesOf IsLatest)

def step (m : IndexedModel) : Step → IndexedModel
  | .add node => m.add node
  | .change key c => m.update key c.apply

/-- The indexed model of an application after some steps. -/
def after (a : ResolvedArtifact) (h : List Step) : IndexedModel :=
  h.foldl step { application := a }

/-! ## The index -/

/-- Whether the index has the position of every key that a node has, and no other one. -/
structure IsExact (m : IndexedModel) : Prop where
  nodup : m.keys.Nodup
  position : ∀ k, m.position? k = m.keys.idxOf? k

theorem find?_key_eq (nodes : List ResolvedArtifact) (k : ArtifactKey) :
    nodes.find? (·.key == k) = ((nodes.map (·.key)).idxOf? k).bind (nodes[·]?) := by
  induction nodes with
  | nil => rfl
  | cons n rest ih =>
    rw [List.find?_cons, List.map_cons, List.idxOf?_cons]
    by_cases hn : n.key = k
    · simp [hn]
    · rw [beq_eq_false_iff_ne.2 hn, if_neg Bool.false_ne_true, ih, Option.bind_map]
      rfl

theorem addTo_eq (node : ResolvedArtifact) (nodes : List ResolvedArtifact) :
    ApplicationModel.addTo node nodes =
      match (nodes.map (·.key)).idxOf? node.key with
      | some i => nodes.set i node
      | none => nodes ++ [node] := by
  induction nodes with
  | nil => rfl
  | cons n rest ih =>
    rw [ApplicationModel.addTo, List.map_cons, List.idxOf?_cons]
    by_cases hn : n.key = node.key
    · simp [hn]
    · rw [if_neg hn, beq_eq_false_iff_ne.2 hn, if_neg Bool.false_ne_true, ih]
      cases (rest.map (·.key)).idxOf? node.key <;> rfl

theorem updateNode_eq (k : ArtifactKey) (f : ResolvedArtifact → ResolvedArtifact)
    (nodes : List ResolvedArtifact) :
    ApplicationModel.updateNode k f nodes =
      match (nodes.map (·.key)).idxOf? k with
      | some i => nodes.modify i f
      | none => nodes := by
  induction nodes with
  | nil => rfl
  | cons n rest ih =>
    rw [ApplicationModel.updateNode, List.map_cons, List.idxOf?_cons]
    by_cases hn : n.key = k
    · simp [hn]
    · rw [if_neg hn, beq_eq_false_iff_ne.2 hn, if_neg Bool.false_ne_true, ih]
      cases (rest.map (·.key)).idxOf? k <;> rfl

variable {m : IndexedModel}

theorem isExact_applicationOnly (a : ResolvedArtifact) : IsExact { application := a } :=
  ⟨List.nodup_nil, fun _ => rfl⟩

theorem IsExact.get?_eq (hm : m.IsExact) (k : ArtifactKey) : m.get? k = m.view.get? k := by
  rw [get?, hm.position, ApplicationModel.get?, view, find?_key_eq]
  rfl

theorem IsExact.artifact?_eq (hm : m.IsExact) (k : ArtifactKey) :
    m.artifact? k = m.view.artifact? k := by
  rw [artifact?, hm.get?_eq]
  rfl

theorem IsExact.view_add (hm : m.IsExact) (node : ResolvedArtifact) :
    (m.add node).view = m.view.add node := by
  rw [add, ApplicationModel.add, view, view, addTo_eq, hm.position]
  unfold keys
  cases (m.nodes.map (·.key)).idxOf? node.key <;> rfl

theorem IsExact.view_update (hm : m.IsExact) (k : ArtifactKey)
    (f : ResolvedArtifact → ResolvedArtifact) : (m.update k f).view = m.view.update k f := by
  unfold update place? ApplicationModel.update
  change _ = if m.isApplication k then _ else _
  cases m.isApplication k with
  | true => rfl
  | false =>
    rw [if_neg Bool.false_ne_true, if_neg Bool.false_ne_true, hm.position, view, view,
      updateNode_eq]
    unfold keys
    cases (m.nodes.map (·.key)).idxOf? k <;> rfl

theorem keys_view (m : IndexedModel) : m.view.keys = m.keys := rfl

/-- A new key is noted with the position behind the last node. -/
theorem IsExact.position?_add (hm : m.IsExact) (node : ResolvedArtifact) (k : ArtifactKey) :
    (m.add node).position? k =
      if node.key ∈ m.keys then m.position? k
      else if k = node.key then some m.keys.length else m.position? k := by
  unfold add
  by_cases hnode : node.key ∈ m.keys
  · obtain ⟨i, hi⟩ : ∃ i, m.keys.idxOf? node.key = some i :=
      Option.ne_none_iff_exists'.1 (mt List.idxOf?_eq_none_iff.1 (not_not_intro hnode))
    rw [hm.position, hi, if_pos hnode]
    rfl
  · rw [hm.position, List.idxOf?_eq_none_iff.2 hnode, if_neg hnode]
    simp only [position?, List.lookup_cons, keys, List.length_map]
    by_cases hk : k = node.key
    · rw [beq_iff_eq.2 hk, if_pos hk]
    · rw [beq_eq_false_iff_ne.2 hk, if_neg hk]

theorem idxOf?_concat (keys : List ArtifactKey) (key k : ArtifactKey) :
    (keys ++ [key]).idxOf? k = (keys.idxOf? k).or (if key = k then some keys.length else none) := by
  change (keys ++ [key]).findIdx? (· == k) = (keys.findIdx? (· == k)).or _
  rw [List.findIdx?_append, List.findIdx?_singleton]
  by_cases hkey : key = k <;> simp [hkey]

theorem IsExact.add (hm : m.IsExact) (node : ResolvedArtifact) : (m.add node).IsExact := by
  have hkeys : (m.add node).keys = (m.view.add node).keys := by rw [← hm.view_add, keys_view]
  have hnodup : m.view.keys.Nodup := hm.nodup
  refine ⟨?_, fun k => ?_⟩
  · rw [hkeys]
    exact ApplicationModel.nodup_keys_add hnodup node
  · rw [hkeys, hm.position?_add, ApplicationModel.keys_add, keys_view, hm.position]
    by_cases hnode : node.key ∈ m.keys
    · rw [if_pos hnode, if_pos hnode]
    · rw [if_neg hnode, if_neg hnode, idxOf?_concat]
      by_cases hk : k = node.key
      · rw [if_pos hk, if_pos hk.symm, List.idxOf?_eq_none_iff.2 (hk ▸ hnode), Option.none_or]
      · rw [if_neg hk, if_neg (Ne.symm hk), Option.or_none]

/-- A change leaves the index alone wherever it is made. -/
theorem positions_modifyAt (m : IndexedModel) (f : ResolvedArtifact → ResolvedArtifact)
    (place : Place) : (m.modifyAt f place).positions = m.positions := by
  cases place <;> rfl

theorem positions_update (m : IndexedModel) (k : ArtifactKey)
    (f : ResolvedArtifact → ResolvedArtifact) : (m.update k f).positions = m.positions := by
  unfold update
  cases m.place? k with
  | none => rfl
  | some place => exact m.positions_modifyAt f place

theorem IsExact.update {f : ResolvedArtifact → ResolvedArtifact} (hf : ∀ a, (f a).key = a.key)
    (hm : m.IsExact) (k : ArtifactKey) : (m.update k f).IsExact := by
  have hkeys : (m.update k f).keys = m.keys := by
    rw [← keys_view, hm.view_update, ApplicationModel.keys_update hf, keys_view]
  refine ⟨?_, fun j => ?_⟩
  · rw [hkeys]
    exact hm.nodup
  · rw [hkeys, position?, positions_update]
    exact hm.position j

theorem IsExact.step (hm : m.IsExact) (s : Step) : (m.step s).IsExact := by
  cases s with
  | add node => exact hm.add node
  | change k c => exact hm.update c.key_apply k

theorem IsExact.view_step (hm : m.IsExact) (s : Step) : (m.step s).view = m.view.step s := by
  cases s with
  | add node => exact hm.view_add node
  | change k c => exact hm.view_update k c.apply

theorem IsExact.foldl_step (hm : m.IsExact) (h : List Step) :
    (h.foldl IndexedModel.step m).IsExact ∧
      (h.foldl IndexedModel.step m).view = h.foldl ApplicationModel.step m.view := by
  induction h generalizing m with
  | nil => exact ⟨hm, rfl⟩
  | cons s rest ih =>
    obtain ⟨hexact, hview⟩ := ih (hm.step s)
    exact ⟨hexact, by rw [List.foldl_cons, hview, hm.view_step, List.foldl_cons]⟩

/-- After any steps the index is exact. -/
theorem isExact_after (a : ResolvedArtifact) (h : List Step) : (after a h).IsExact :=
  ((isExact_applicationOnly a).foldl_step h).1

/-- After any steps a model with an index is the one without. -/
theorem view_after (a : ResolvedArtifact) (h : List Step) :
    (after a h).view = ApplicationModel.after a h :=
  ((isExact_applicationOnly a).foldl_step h).2

/-! ## The model after a history -/

/-- Under an exact index a key has a position exactly if the node there has the key. -/
theorem IsExact.position?_eq_some_iff {m : IndexedModel} (hm : m.IsExact) {k : ArtifactKey}
    {i : Nat} : m.position? k = some i ↔ ∃ n, m.nodes[i]? = some n ∧ n.key = k := by
  rw [hm.position, List.idxOf?_eq_some_iff]
  constructor
  · rintro ⟨hi, hkey, _⟩
    have hlt : i < m.nodes.length := by simpa [keys] using hi
    exact ⟨m.nodes[i], List.getElem?_eq_getElem hlt, by simpa [keys] using hkey⟩
  · rintro ⟨n, hn, rfl⟩
    obtain ⟨hlt, rfl⟩ := List.getElem?_eq_some_iff.1 hn
    have hi : i < m.keys.length := by simpa [keys] using hlt
    have hkey : m.keys[i] = m.nodes[i].key := by simp [keys]
    refine ⟨hi, hkey, fun j hj heq => ?_⟩
    rw [← hkey] at heq
    exact absurd ((List.getElem_inj hm.nodup).1 heq) (Nat.ne_of_lt hj)

/-- An artifact that is read is the one at the place where it can be changed. -/
theorem at?_place? (m : IndexedModel) (k : ArtifactKey) :
    (m.place? k).bind m.at? = m.artifact? k := by
  unfold place? artifact?
  split
  · rfl
  · rw [Option.bind_map]
    rfl

theorem at?_modifyAt (m : IndexedModel) (f : ResolvedArtifact → ResolvedArtifact) (place : Place) :
    (m.modifyAt f place).at? place = (m.at? place).map f := by
  cases place with
  | application => rfl
  | node i =>
    rw [modifyAt, at?, at?, List.getElem?_modify]
    simp only [if_true]
    rfl

theorem place?_update {f : ResolvedArtifact → ResolvedArtifact} (hf : ∀ a, (f a).key = a.key)
    (m : IndexedModel) (k j : ArtifactKey) : (m.update k f).place? j = m.place? j := by
  have happlication : (m.update k f).application.key = m.application.key := by
    unfold update
    cases m.place? k with
    | none => rfl
    | some place =>
      cases place with
      | application => exact hf m.application
      | node i => rfl
  unfold place? isApplication position?
  rw [happlication, positions_update]

theorem artifact?_update {f : ResolvedArtifact → ResolvedArtifact} (hf : ∀ a, (f a).key = a.key)
    (m : IndexedModel) (k : ArtifactKey) :
    (m.update k f).artifact? k = (m.artifact? k).map f := by
  rw [← at?_place?, ← at?_place?, place?_update hf, update]
  cases m.place? k with
  | none => rfl
  | some place => exact at?_modifyAt m f place

/-- What an indexed model is after some steps. -/
structure ReflectsHistory (a : ResolvedArtifact) (h : List Step) (m : IndexedModel) : Prop where
  /-- It is the model without an index after the same steps, and reads like it. -/
  view : m.view = ApplicationModel.after a h
  read : ∀ k, m.get? k = m.view.get? k ∧ m.artifact? k = m.view.artifact? k
  /-- The keys of the nodes differ, and they are in the order in which they were added first. -/
  nodup : m.keys.Nodup
  order : m.keys = (addedKeys h).eraseDups
  /-- A position that is noted is one of the list, namely that of the node of the key. -/
  position : ∀ k i, m.position? k = some i ↔ ∃ n, m.nodes[i]? = some n ∧ n.key = k
  /-- The node that was added last is found, with the changes made to it since, and none of these
  changes are made if the application has its key. -/
  latest : ∀ k n, m.get? k = some n ↔
    ∃ node since, IsLatest h node since ∧ node.key = k ∧
      n = if k = a.key then node else ArtifactChange.applyAll (changesOf k since) node
  missing : ∀ k, m.get? k = none ↔ k ∉ addedKeys h
  application : m.application = ArtifactChange.applyAll (changesOf a.key h) a
  /-- What is read and what can be changed is the application under its key, and else a node. -/
  artifact : ∀ k, m.artifact? k = if k = a.key then some m.application else m.get? k
  place : ∀ k, (m.place? k).bind m.at? = m.artifact? k
  /-- A change is made to what is read under the key, and to nothing else. -/
  changed : ∀ k (c : ArtifactChange),
    (m.update k c.apply).artifact? k = (m.artifact? k).map c.apply
  others : ∀ k (c : ArtifactChange) j, j ≠ k ∨ k = a.key →
    (m.update k c.apply).get? j = m.get? j
  applicationKept : ∀ k (c : ArtifactChange), k ≠ a.key →
    (m.update k c.apply).application = m.application
  placesKept : ∀ k (c : ArtifactChange) j, (m.update k c.apply).place? j = m.place? j

/-- An artifact as it is resolved, without anything else. -/
def plainArtifact (name version : String) : ResolvedArtifact :=
  { coordinates := { groupId := "g", artifactId := name, version } }

/-- A library is resolved twice and changed before and after, and a node has the application's
key. -/
def revisedHistory : List Step :=
  [.add (plainArtifact "lib" "1"),
    .change (plainArtifact "lib" "1").key (.addFlags (.of .visited)),
    .add (plainArtifact "app" "2"),
    .add (plainArtifact "lib" "2"),
    .change (plainArtifact "lib" "2").key (.addFlags (.of .direct)),
    .change (plainArtifact "app" "1").key (.addFlags (.of .workspaceModule)),
    .change (plainArtifact "lib" "2").key (.setDependencies []),
    .change (plainArtifact "lib" "2").key
      (.setDependencies [(plainArtifact "util" "1").coordinates]),
    .change (plainArtifact "lib" "2").key (.addFlags (.of .reloadable))]

end IndexedModel

end ArtifactGraph
