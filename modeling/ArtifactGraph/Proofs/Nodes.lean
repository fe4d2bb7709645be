import ArtifactGraph.Assembly

/-!
# Nodes under their keys

A model is `WellKeyed` when no two of its nodes have one key and none has that of the application.
Then every artifact is reached by its key, and a change of one artifact is a change of that
artifact alone.

* Adding.  `get?_add` says what an added node does to the view `get?`, and `keys_add` what it does
  to the keys.
* Looking up.  `WellKeyed.artifact?_key`: an artifact of a well-keyed model is what is found under
  its key, and `key_of_artifact?`: what is found under a key has it.
* Updating.  `update_congr`: an update is a matter of what is found under the key.
  `update_eq_mapArtifacts`: the artifact of the key is changed and no other one.
* Seeding.  `get?_seedNodes`: a seeded model has, for every key but the application's, the node of
  the last resolved artifact with this key; and it is well-keyed (`wellKeyed_seed`).
-/

namespace ArtifactGraph

namespace ApplicationModel

/-- Whether every artifact of a model is the only one with its key. -/
structure WellKeyed (m : ApplicationModel) : Prop where
  nodup : m.keys.Nodup
  apart : m.application.key ∉ m.keys

/-- The model with every artifact changed. -/
def mapArtifacts (f : ResolvedArtifact → ResolvedArtifact) (m : ApplicationModel) :
    ApplicationModel :=
  { application := f m.application, nodes := m.nodes.map f }

theorem mapArtifacts_congr {m : ApplicationModel} {f g : ResolvedArtifact → ResolvedArtifact}
    (h : ∀ a ∈ m.artifacts, f a = g a) : m.mapArtifacts f = m.mapArtifacts g := by
  have happlication : f m.application = g m.application := h _ List.mem_cons_self
  have hnodes : m.nodes.map f = m.nodes.map g :=
    List.map_congr_left fun n hn => h n (List.mem_cons_of_mem _ hn)
  rw [mapArtifacts, mapArtifacts, happlication, hnodes]

theorem mapArtifacts_eq_self {m : ApplicationModel} {f : ResolvedArtifact → ResolvedArtifact}
    (h : ∀ a ∈ m.artifacts, f a = a) : m.mapArtifacts f = m := by
  have hid : m.mapArtifacts f = m.mapArtifacts id := mapArtifacts_congr h
  rw [hid, mapArtifacts, List.map_id]
  rfl

theorem mapArtifacts_mapArtifacts (m : ApplicationModel)
    (f g : ResolvedArtifact → ResolvedArtifact) :
    (m.mapArtifacts f).mapArtifacts g = m.mapArtifacts fun a => g (f a) := by
  rw [mapArtifacts, mapArtifacts, mapArtifacts, List.map_map]
  rfl

/-! ## Adding -/

theorem find?_addTo (node : ResolvedArtifact) (nodes : List ResolvedArtifact) (k : ArtifactKey) :
    (addTo node nodes).find? (·.key == k) =
      if node.key = k then some node else nodes.find? (·.key == k) := by
  induction nodes with
  | nil =>
    rw [addTo, List.find?_cons]
    by_cases hk : node.key = k
    · rw [beq_iff_eq.2 hk, if_pos hk]
    · rw [beq_eq_false_iff_ne.2 hk, if_neg hk]
  | cons n rest ih =>
    rw [addTo, List.find?_cons]
    by_cases hn : n.key = node.key
    · rw [if_pos hn, List.find?_cons, hn]
      by_cases hk : node.key = k
      · rw [beq_iff_eq.2 hk, if_pos hk]
      · rw [beq_eq_false_iff_ne.2 hk, if_neg hk]
    · rw [if_neg hn, List.find?_cons, ih]
      by_cases hk : node.key = k
      · rw [if_pos hk, if_pos hk, beq_eq_false_iff_ne.2 (hk ▸ hn)]
      · rw [if_neg hk, if_neg hk]

/-- An added node is found under its key, and under every other key what was found before. -/
theorem get?_add (m : ApplicationModel) (node : ResolvedArtifact) (k : ArtifactKey) :
    (m.add node).get? k = if node.key = k then some node else m.get? k :=
  find?_addTo node m.nodes k

/-- The key of an added node is put at the end, unless it is there. -/
theorem keys_add (m : ApplicationModel) (node : ResolvedArtifact) :
    (m.add node).keys = if node.key ∈ m.keys then m.keys else m.keys ++ [node.key] := by
  unfold keys add
  simp only
  induction m.nodes with
  | nil => simp [addTo]
  | cons n rest ih =>
    rw [addTo]
    by_cases hn : n.key = node.key
    · simp [hn]
    · rw [if_neg hn, List.map_cons, ih]
      by_cases hrest : node.key ∈ rest.map (·.key)
      · simp [hrest]
      · simp [hrest, Ne.symm hn]

theorem nodup_keys_add {m : ApplicationModel} (hm : m.keys.Nodup) (node : ResolvedArtifact) :
    (m.add node).keys.Nodup := by
  rw [keys_add]
  split
  · exact hm
  · rename_i hnew
    rw [List.nodup_append]
    refine ⟨hm, by simp, ?_⟩
    intro a ha b hb
    rw [List.mem_singleton.1 hb]
    intro heq
    subst heq
    exact hnew ha

theorem WellKeyed.add {m : ApplicationModel} (hm : m.WellKeyed) {node : ResolvedArtifact}
    (hnode : m.isApplication node.key = false) : (m.add node).WellKeyed := by
  have hapart : m.application.key ≠ node.key := by simpa [isApplication] using hnode
  refine ⟨nodup_keys_add hm.nodup node, ?_⟩
  rw [keys_add]
  split
  · exact hm.apart
  · rw [List.mem_append, List.mem_singleton, not_or]
    exact ⟨hm.apart, hapart⟩

/-! ## Looking up -/

theorem find?_key_of_mem {nodes : List ResolvedArtifact} (hnodup : (nodes.map (·.key)).Nodup)
    {n : ResolvedArtifact} (hn : n ∈ nodes) : nodes.find? (·.key == n.key) = some n := by
  induction nodes with
  | nil => cases hn
  | cons a rest ih =>
    rw [List.map_cons, List.nodup_cons] at hnodup
    rw [List.find?_cons]
    rcases List.mem_cons.1 hn with rfl | hn
    · rw [beq_self_eq_true]
    · have hne : a.key ≠ n.key := by
        intro heq
        exact hnodup.1 (heq ▸ List.mem_map_of_mem hn)
      rw [beq_eq_false_iff_ne.2 hne]
      exact ih hnodup.2 hn

/-- In a well-keyed model a node is what is found under its key. -/
theorem WellKeyed.get?_key {m : ApplicationModel} (hm : m.WellKeyed) {n : ResolvedArtifact}
    (hn : n ∈ m.nodes) : m.get? n.key = some n :=
  find?_key_of_mem hm.nodup hn

theorem WellKeyed.key_ne {m : ApplicationModel} (hm : m.WellKeyed) {n : ResolvedArtifact}
    (hn : n ∈ m.nodes) : n.key ≠ m.application.key := by
  intro heq
  exact hm.apart (heq ▸ List.mem_map_of_mem hn)

/-- In a well-keyed model an artifact is what is found under its key. -/
theorem WellKeyed.artifact?_key {m : ApplicationModel} (hm : m.WellKeyed) {a : ResolvedArtifact}
    (ha : a ∈ m.artifacts) : m.artifact? a.key = some a := by
  unfold artifact? isApplication
  rcases List.mem_cons.1 ha with rfl | hn
  · rw [beq_self_eq_true, if_pos rfl]
  · rw [beq_eq_false_iff_ne.2 (hm.key_ne hn).symm, if_neg Bool.false_ne_true, hm.get?_key hn]

/-- Only the application has its key. -/
theorem WellKeyed.eq_application {m : ApplicationModel} (hm : m.WellKeyed) {a : ResolvedArtifact}
    (ha : a ∈ m.artifacts) (hkey : a.key = m.application.key) : a = m.application := by
  rcases List.mem_cons.1 ha with rfl | hn
  · rfl
  · exact absurd hkey (hm.key_ne hn)

theorem key_of_get? {m : ApplicationModel} {k : ArtifactKey} {n : ResolvedArtifact}
    (h : m.get? k = some n) : n.key = k := by
  simpa using List.find?_some h

/-- What is found under a key has this key. -/
theorem key_of_artifact? {m : ApplicationModel} {k : ArtifactKey} {a : ResolvedArtifact}
    (h : m.artifact? k = some a) : a.key = k := by
  unfold artifact? isApplication at h
  split at h
  · rename_i happlication
    cases h
    exact beq_iff_eq.1 happlication
  · exact key_of_get? h

/-! ## Updating -/

theorem updateNode_congr {nodes : List ResolvedArtifact} {k : ArtifactKey}
    {f g : ResolvedArtifact → ResolvedArtifact}
    (h : ∀ a, nodes.find? (·.key == k) = some a → f a = g a) :
    updateNode k f nodes = updateNode k g nodes := by
  induction nodes with
  | nil => rfl
  | cons n rest ih =>
    rw [updateNode, updateNode]
    by_cases hn : n.key = k
    · have hfound : (n :: rest).find? (·.key == k) = some n := by
        rw [List.find?_cons, beq_iff_eq.2 hn]
      rw [if_pos hn, if_pos hn, h n hfound]
    · rw [if_neg hn, if_neg hn, ih]
      intro a ha
      apply h
      rw [List.find?_cons, beq_eq_false_iff_ne.2 hn, ha]

/-- An update is a matter of what is found under the key. -/
theorem update_congr {m : ApplicationModel} {k : ArtifactKey}
    {f g : ResolvedArtifact → ResolvedArtifact} (h : ∀ a, m.artifact? k = some a → f a = g a) :
    m.update k f = m.update k g := by
  unfold artifact? at h
  unfold update
  split
  · rename_i happlication
    rw [if_pos happlication] at h
    rw [h _ rfl]
  · rename_i hplain
    rw [if_neg hplain] at h
    rw [updateNode_congr h]

theorem update_eq_self {m : ApplicationModel} {k : ArtifactKey}
    {f : ResolvedArtifact → ResolvedArtifact} (h : ∀ a, m.artifact? k = some a → f a = a) :
    m.update k f = m := by
  have hid (nodes : List ResolvedArtifact) : updateNode k id nodes = nodes := by
    induction nodes with
    | nil => rfl
    | cons n rest ih => rw [updateNode, ih, id, ite_self]
  have hcongr : m.update k f = m.update k id := update_congr h
  rw [hcongr, update, hid, id, ite_self]

theorem updateNode_eq_map {nodes : List ResolvedArtifact} (hnodup : (nodes.map (·.key)).Nodup)
    (k : ArtifactKey) (f : ResolvedArtifact → ResolvedArtifact) :
    updateNode k f nodes = nodes.map fun n => if n.key = k then f n else n := by
  induction nodes with
  | nil => rfl
  | cons n rest ih =>
    rw [List.map_cons, List.nodup_cons] at hnodup
    rw [updateNode, List.map_cons, ih hnodup.2]
    by_cases hn : n.key = k
    · rw [if_pos hn, if_pos hn]
      congr 1
      -- No later node has the key.
      rw [List.map_congr_left (g := id), List.map_id]
      intro a ha
      have hne : a.key ≠ k := by
        intro heq
        exact hnodup.1 (hn ▸ heq ▸ List.mem_map_of_mem ha)
      rw [if_neg hne, id]
    · rw [if_neg hn, if_neg hn]

/-- In a well-keyed model an update changes the artifact of the key and no other one. -/
theorem update_eq_mapArtifacts {m : ApplicationModel} (hm : m.WellKeyed) (k : ArtifactKey)
    (f : ResolvedArtifact → ResolvedArtifact) :
    m.update k f = m.mapArtifacts fun a => if a.key = k then f a else a := by
  unfold update mapArtifacts isApplication
  by_cases happlication : m.application.key = k
  · have hnodes : (m.nodes.map fun a => if a.key = k then f a else a) = m.nodes := by
      rw [List.map_congr_left (g := id), List.map_id]
      intro a ha
      rw [if_neg (happlication ▸ hm.key_ne ha), id]
    simp [happlication, hnodes]
  · simp [happlication, updateNode_eq_map hm.nodup]

end ApplicationModel

/-! ## Seeding -/

namespace BuildModel

@[simp] theorem key_nodeOf (direct : List ArtifactKey) (n : ResolvedNode) :
    (nodeOf direct n).key = n.coordinates.key := rfl

theorem seedNodes_cons (direct : List ArtifactKey) (m : ApplicationModel) (n : ResolvedNode)
    (rest : List ResolvedNode) :
    seedNodes direct m (n :: rest) = seedNodes direct
      (if m.isApplication n.coordinates.key then m else m.add (nodeOf direct n)) rest := rfl

@[simp] theorem application_seedNodes (direct : List ArtifactKey) (m : ApplicationModel)
    (nodes : List ResolvedNode) : (seedNodes direct m nodes).application = m.application := by
  induction nodes generalizing m with
  | nil => rfl
  | cons n rest ih =>
    rw [seedNodes_cons, ih]
    split <;> rfl

theorem wellKeyed_seedNodes (direct : List ArtifactKey) {m : ApplicationModel} (hm : m.WellKeyed)
    (nodes : List ResolvedNode) : (seedNodes direct m nodes).WellKeyed := by
  induction nodes generalizing m with
  | nil => exact hm
  | cons n rest ih =>
    rw [seedNodes_cons]
    apply ih
    split
    · exact hm
    · rename_i hn
      exact hm.add (by simpa using hn)

/-- For every key but that of the application, the last of the seeded artifacts with this key is
found, or else what was there before. -/
theorem get?_seedNodes (direct : List ArtifactKey) (m : ApplicationModel)
    (nodes : List ResolvedNode) {k : ArtifactKey} (hk : k ≠ m.application.key) :
    (seedNodes direct m nodes).get? k =
      ((nodes.reverse.find? (·.coordinates.key == k)).map (nodeOf direct)).or (m.get? k) := by
  induction nodes generalizing m with
  | nil => rfl
  | cons n rest ih =>
    have hstep : (if m.isApplication n.coordinates.key then m else m.add (nodeOf direct n)).get? k =
        (([n].find? (·.coordinates.key == k)).map (nodeOf direct)).or (m.get? k) := by
      rw [List.find?_cons]
      by_cases hn : n.coordinates.key = k
      · have hplain : m.isApplication n.coordinates.key = false :=
          beq_eq_false_iff_ne.2 fun heq => hk (hn ▸ heq.symm)
        rw [hplain, beq_iff_eq.2 hn, if_neg Bool.false_ne_true, ApplicationModel.get?_add,
          key_nodeOf, if_pos hn]
        rfl
      · rw [beq_eq_false_iff_ne.2 hn]
        split
        · rfl
        · rw [ApplicationModel.get?_add, key_nodeOf, if_neg hn]
          rfl
    have hrest := ih (if m.isApplication n.coordinates.key then m else m.add (nodeOf direct n))
      (by split <;> exact hk)
    rw [seedNodes_cons, hrest, hstep, List.reverse_cons, List.find?_append, Option.map_or,
      Option.or_assoc]

theorem wellKeyed_applicationOnly (coordinates : Coordinates) :
    (applicationOnly coordinates).WellKeyed :=
  ⟨List.nodup_nil, List.not_mem_nil⟩

theorem wellKeyed_seed (doc : BuildModel) (application : Coordinates)
    (declared : List DeclaredDependency) : (doc.seed application declared).WellKeyed :=
  wellKeyed_seedNodes _ (wellKeyed_applicationOnly application) _

/-- The nodes of the seeded model are those of the last resolved artifacts of their keys. -/
theorem exists_of_mem_nodes_seed {doc : BuildModel} {application : Coordinates}
    {declared : List DeclaredDependency} {n : ResolvedArtifact}
    (hn : n ∈ (doc.seed application declared).nodes) :
    ∃ last, doc.resolved.reverse.find? (·.coordinates.key == n.key) = some last ∧
      n = nodeOf (doc.directKeys declared) last ∧ n.key ≠ application.key := by
  have hwell := wellKeyed_seed doc application declared
  have hkey : n.key ≠ application.key := by
    have hne := hwell.key_ne hn
    rwa [seed, application_seedNodes] at hne
  have hfound := hwell.get?_key hn
  rw [seed, get?_seedNodes _ _ _ hkey] at hfound
  cases hlast : doc.resolved.reverse.find? (·.coordinates.key == n.key) with
  | none =>
    rw [hlast] at hfound
    cases hfound
  | some last =>
    rw [hlast] at hfound
    exact ⟨last, rfl, (Option.some.inj hfound).symm, hkey⟩

/-- A seeded artifact has no records yet. -/
theorem directDependencies_of_mem_artifacts_seed {doc : BuildModel} {application : Coordinates}
    {declared : List DeclaredDependency} {a : ResolvedArtifact}
    (ha : a ∈ (doc.seed application declared).artifacts) : a.directDependencies = [] := by
  rcases List.mem_cons.1 ha with rfl | hn
  · rw [seed, application_seedNodes]
    rfl
  · obtain ⟨last, -, hlast, -⟩ := exists_of_mem_nodes_seed hn
    rw [hlast]
    rfl

end BuildModel

end ArtifactGraph
