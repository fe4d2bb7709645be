import ArtifactGraph.Proofs.Edges

/-!
# What a run looks at

A run looks at the project of the application, and for every other key at the component of the first
resolved artifact with this key.  Which these are, and whether the run gets to its end, is in the
document alone: only a project can end a run, and a module has a finding also when its POM has no
effective model.

* `probe`, `look`, `lookEach` and `looked` are what the document decides of one component, of a
  look, of a collection and of a run: the keys that have a finding afterwards, or the failure.
* `keys_of_gives_collect`, `keys_of_gives_collectNodes` and `looked_of_gives_assemble`: this is what
  happens, wherever POMs are located.
* `origin?` is the component whose declarations are held for a key.  `exists_knownOf_origin` says
  that it deserves its name, and `exists_origin_of_mem` that every artifact of a model has one.
-/

namespace ArtifactGraph

/-- The failures that come from the workspace. -/
inductive Failure.OfWorkspace : Failure → Prop
  | projectNotFound (path declaredBy : String) : OfWorkspace (.projectNotFound path declaredBy)
  | projectComponentUnresolved (buildPath projectPath : String) :
      OfWorkspace (.projectComponentUnresolved buildPath projectPath)

/-! ## Keys of a session -/

namespace Session

/-- The keys that were looked at, the latest first. -/
def keys (session : Session) : List ArtifactKey := session.map Prod.fst

@[simp] theorem keys_nil : keys [] = [] := rfl

theorem isCollected_iff {session : Session} {key : ArtifactKey} :
    session.isCollected key = true ↔ key ∈ session.keys := by
  unfold isCollected finding? keys
  induction session with
  | nil => simp
  | cons entry rest ih =>
    rw [List.lookup_cons, List.map_cons, List.mem_cons, ← ih]
    by_cases hkey : key = entry.1
    · simp [hkey]
    · rw [beq_eq_false_iff_ne.2 hkey]
      simp [hkey]

/-- Every key that was looked at is counted once, with declarations or without. -/
theorem collectedCount_add_unresolvedCount (session : Session) :
    session.collectedCount + session.unresolvedCount = session.keys.length := by
  unfold collectedCount unresolvedCount keys
  rw [List.length_map, List.length_eq_countP_add_countP fun entry => entry.2.dependencies?.isSome]
  congr 2
  funext entry
  cases entry.2.dependencies? <;> rfl

end Session

/-! ## Looks -/

namespace Circumstances

theorem ofWorkspace_of_project {c : Circumstances} {p : ProjectComponent} {e : Failure}
    (h : c.project p = .error e) : e.OfWorkspace := by
  unfold project at h
  split at h
  · cases h
    exact .projectComponentUnresolved _ _
  · cases h

/-- What can fail in a look at a component. -/
def probe (c : Circumstances) : Component → Except Failure Unit
  | .project p => (c.declaredByProject p).map fun _ => ()
  | .module _ => .ok ()

theorem ofWorkspace_of_probe {c : Circumstances} {component : Component} {e : Failure}
    (h : c.probe component = .error e) : e.OfWorkspace := by
  cases component with
  | module gav => cases h
  | project p =>
    unfold probe declaredByProject at h
    cases hproject : c.project p with
    | error e' =>
      simp only [hproject] at h
      cases h
      exact ofWorkspace_of_project hproject
    | ok found =>
      obtain ⟨build, project⟩ := found
      simp only [hproject] at h
      split at h
      · cases h
        exact .projectNotFound _ _
      · cases h

/-- The keys that were looked at after a look at a component for a key. -/
def look (c : Circumstances) (keys : List ArtifactKey) (component : Component)
    (key : ArtifactKey) : Except Failure (List ArtifactKey) :=
  if key ∈ keys then .ok keys else (c.probe component).map fun _ => key :: keys

/-- The keys that were looked at after looks at resolved artifacts. -/
def lookEach (c : Circumstances) (applicationKey : ArtifactKey) :
    List ArtifactKey → List ResolvedNode → Except Failure (List ArtifactKey)
  | keys, [] => .ok keys
  | keys, n :: rest =>
    if applicationKey = n.coordinates.key then c.lookEach applicationKey keys rest
    else
      match c.look keys n.component n.coordinates.key with
      | .error e => .error e
      | .ok keys' => c.lookEach applicationKey keys' rest

theorem ofWorkspace_of_look {c : Circumstances} {keys : List ArtifactKey} {component : Component}
    {key : ArtifactKey} {e : Failure} (h : c.look keys component key = .error e) :
    e.OfWorkspace := by
  unfold look at h
  split at h
  · cases h
  · cases hprobe : c.probe component with
    | ok u =>
      rw [hprobe] at h
      cases h
    | error e' =>
      rw [hprobe] at h
      cases h
      exact ofWorkspace_of_probe hprobe

theorem ofWorkspace_of_lookEach {c : Circumstances} {applicationKey : ArtifactKey}
    {keys : List ArtifactKey} {nodes : List ResolvedNode} {e : Failure}
    (h : c.lookEach applicationKey keys nodes = .error e) : e.OfWorkspace := by
  induction nodes generalizing keys with
  | nil => cases h
  | cons n rest ih =>
    rw [lookEach] at h
    split at h
    · exact ih h
    · split at h
      · rename_i hlook
        cases h
        exact ofWorkspace_of_look hlook
      · exact ih h

end Circumstances

section

variable {σ : Type} {env : Surroundings (StateM σ)} {c : Circumstances}

/-- Whether a look fails does not depend on the surroundings. -/
theorem probe_of_gives_examine {component : Component} {r : Except Failure Finding} {s t : σ}
    (h : Gives (examine env c component) s r t) : (r.map fun _ => ()) = c.probe component := by
  cases component with
  | project p =>
    rw [(gives_pure_iff.1 h).1, Circumstances.probe]
    cases c.declaredByProject p <;> rfl
  | module gav =>
    -- With an effective model or without, there is a finding.
    obtain ⟨answer, u, -, h⟩ := gives_bind_iff.1 h
    cases answer with
    | error fault =>
      obtain ⟨_, _, _, h⟩ := gives_bind_iff.1 h
      rw [(gives_pure_iff.1 h).1]
      rfl
    | ok l =>
      rw [(gives_pure_iff.1 h).1]
      rfl

/-- What a look does to the keys does not depend on the surroundings. -/
theorem Session.keys_of_gives_collect {component : Component} {key : ArtifactKey}
    {session : Session} {r : Except Failure Session} {s t : σ}
    (h : Gives (session.collect env c component key) s r t) :
    r.map Session.keys = c.look session.keys component key := by
  unfold Circumstances.look
  rcases gives_collect_cases h with ⟨hcollected, rfl, -⟩ | ⟨hnew, hlook⟩
  · rw [if_pos (isCollected_iff.1 hcollected)]
    rfl
  · have hkey : key ∉ session.keys := by
      rw [← isCollected_iff, hnew]
      exact Bool.false_ne_true
    rw [if_neg hkey]
    rcases hlook with ⟨e, hexamine, rfl⟩ | ⟨f, hexamine, rfl⟩
    · rw [← probe_of_gives_examine hexamine]
      rfl
    · rw [← probe_of_gives_examine hexamine]
      rfl

end

namespace BuildModel

variable {σ : Type} {env : Surroundings (StateM σ)}

/-- One step of a collection, whether it fails or not. -/
theorem gives_collectNodes_cons_cases {c : Circumstances} {applicationKey : ArtifactKey}
    {total position : Nat} {session : Session} {n : ResolvedNode} {rest : List ResolvedNode}
    {r : Except Failure Session} {s t : σ}
    (h : Gives (collectNodes env c applicationKey total position session (n :: rest)) s r t) :
    (applicationKey = n.coordinates.key ∧
      Gives (collectNodes env c applicationKey total (position + 1) session rest) s r t) ∨
    (applicationKey ≠ n.coordinates.key ∧ ∃ answer u v,
      Gives (session.collect env c n.component n.coordinates.key) u answer v ∧
      ((∃ e, answer = .error e ∧ r = .error e) ∨ ∃ next, answer = .ok next ∧
        Gives (collectNodes env c applicationKey total (position + 1) next rest) v r t)) := by
  rw [collectNodes] at h
  by_cases hkey : applicationKey = n.coordinates.key
  · rw [if_pos (beq_iff_eq.2 hkey)] at h
    exact Or.inl ⟨hkey, h⟩
  · rw [if_neg (by simpa using hkey)] at h
    obtain ⟨⟨⟩, u, -, h⟩ := gives_bind_iff.1 h
    obtain ⟨answer, v, hanswer, h⟩ := gives_bind_iff.1 h
    refine Or.inr ⟨hkey, answer, u, v, hanswer, ?_⟩
    cases answer with
    | error e => exact Or.inl ⟨e, rfl, (gives_pure_iff.1 h).1⟩
    | ok next => exact Or.inr ⟨next, rfl, h⟩

/-- What a collection does to the keys does not depend on the surroundings. -/
theorem keys_of_gives_collectNodes {c : Circumstances} {applicationKey : ArtifactKey}
    {total position : Nat} {session : Session} {nodes : List ResolvedNode}
    {r : Except Failure Session} {s t : σ}
    (h : Gives (collectNodes env c applicationKey total position session nodes) s r t) :
    r.map Session.keys = c.lookEach applicationKey session.keys nodes := by
  induction nodes generalizing position session s with
  | nil =>
    obtain ⟨rfl, -⟩ := gives_pure_iff.1 h
    rfl
  | cons n rest ih =>
    rw [Circumstances.lookEach]
    rcases gives_collectNodes_cons_cases h with ⟨hkey, h⟩ | ⟨hkey, answer, u, v, hlook, hend⟩
    · rw [if_pos hkey, ih h]
    · rw [if_neg hkey, ← Session.keys_of_gives_collect hlook]
      rcases hend with ⟨e, rfl, rfl⟩ | ⟨next, rfl, h⟩
      · rfl
      · exact ih h

/-! ## Runs -/

/-- The keys that a run looks at, the latest first, or the failure that ends it. -/
def looked (doc : BuildModel) (policy : ScopePolicy) (requested : Option LaunchMode) :
    Except Failure (List ArtifactKey) :=
  match (doc.circumstances policy requested).project doc.application with
  | .error e => .error e
  | .ok (_, project) =>
    match (doc.circumstances policy requested).look [] (.project doc.application)
      project.coordinates.key with
    | .error e => .error e
    | .ok keys =>
      (doc.circumstances policy requested).lookEach project.coordinates.key keys doc.resolved

variable {policy : ScopePolicy} {requested : Option LaunchMode} {doc : BuildModel} {s t : σ}

theorem ofWorkspace_of_looked {e : Failure} (h : doc.looked policy requested = .error e) :
    e.OfWorkspace := by
  unfold looked at h
  split at h
  · rename_i hproject
    cases h
    exact Circumstances.ofWorkspace_of_project hproject
  · split at h
    · rename_i hlook
      cases h
      exact Circumstances.ofWorkspace_of_look hlook
    · exact Circumstances.ofWorkspace_of_lookEach h

/-- Once the project of the application was looked at, the rest is up to the resolved artifacts. -/
theorem looked_of_gives_collect {build : Build} {project : Project} {r : Except Failure Session}
    (hproject : (doc.circumstances policy requested).project doc.application =
      .ok (build, project))
    (hopening : Gives (Session.collect env (doc.circumstances policy requested)
      (.project doc.application) project.coordinates.key []) s r t) :
    doc.looked policy requested = match r with
      | .error e => .error e
      | .ok opened => (doc.circumstances policy requested).lookEach project.coordinates.key
          opened.keys doc.resolved := by
  have hlook := Session.keys_of_gives_collect hopening
  rw [Session.keys_nil] at hlook
  simp only [looked, hproject, ← hlook]
  cases r <;> rfl

theorem looked_of_fails {e : Failure} (h : Fails env policy requested doc s e) :
    doc.looked policy requested = .error e := by
  cases h with
  | resolving hproject => simp only [looked, hproject]
  | opening hproject hopening => exact looked_of_gives_collect hproject hopening
  | collecting hproject hopening hcollecting =>
    rw [looked_of_gives_collect hproject hopening]
    exact (keys_of_gives_collectNodes hcollecting).symm

theorem Course.looked_eq (course : Course env policy requested doc s) :
    doc.looked policy requested = .ok course.complete.keys := by
  rw [looked_of_gives_collect course.project_eq course.gives_opened]
  exact (keys_of_gives_collectNodes course.gives_complete).symm

/-- How a run ends does not depend on the surroundings, up to what the session holds. -/
theorem looked_of_gives_assemble {r : Except Failure Assembled}
    (h : Gives (doc.assemble env policy requested) s r t) :
    (∃ e, r = .error e ∧ doc.looked policy requested = .error e) ∨
      ∃ course : Course env policy requested doc s, r = .ok course.result ∧
        doc.looked policy requested = .ok course.complete.keys := by
  rcases gives_assemble_cases h with ⟨e, rfl, hfails⟩ | ⟨course, rfl⟩
  · exact Or.inl ⟨e, rfl, looked_of_fails hfails⟩
  · exact Or.inr ⟨course, rfl, course.looked_eq⟩

/-! ## Origins -/

/-- The component of the first resolved artifact with a key. -/
def firstComponent? (doc : BuildModel) (key : ArtifactKey) : Option Component :=
  (doc.resolved.find? (·.coordinates.key == key)).map (·.component)

/-- The component whose declarations a run holds for a key: that of the application for its own
key, and else that of the first resolved artifact. -/
def origin? (doc : BuildModel) (applicationKey key : ArtifactKey) : Option Component :=
  if key = applicationKey then some (.project doc.application) else doc.firstComponent? key

theorem firstComponent?_of_split {before after : List ResolvedNode} {first : ResolvedNode}
    {key : ArtifactKey} (hresolved : doc.resolved = before ++ first :: after)
    (hfirst : first.coordinates.key = key) (hbefore : ∀ a ∈ before, a.coordinates.key ≠ key) :
    doc.firstComponent? key = some first.component := by
  have hfound : doc.resolved.find? (·.coordinates.key == key) = some first := by
    rw [List.find?_eq_some_iff_append]
    refine ⟨by simpa using hfirst, before, after, hresolved, ?_⟩
    intro a ha
    simpa using hbefore a ha
  rw [firstComponent?, hfound, Option.map_some]

namespace Course

/-- What is held for a key is what a look at its origin could tell. -/
theorem exists_knownOf_origin (course : Course env policy requested doc s) {k : ArtifactKey}
    {component : Component} (h : doc.origin? course.key k = some component) :
    ∃ u, KnownOf env (doc.circumstances policy requested) component u
      (course.complete.declared? k) := by
  unfold origin? at h
  split at h
  · rename_i hk
    cases h
    obtain ⟨declared, hproject, hdeclared⟩ := course.exists_declared?_key
    rw [hk, hdeclared]
    exact ⟨s, .project hproject⟩
  · rename_i hplain
    obtain ⟨e, he, hcomponent⟩ := Option.map_eq_some_iff.1 h
    have hkey : e.coordinates.key = k := by simpa using List.find?_some he
    obtain ⟨first, before, after, -, -, u, hresolved, hfirst, hbefore, -, -, hknown⟩ :=
      course.exists_first_of_mem (List.mem_of_find?_eq_some he) (hkey ▸ hplain)
    rw [hkey] at hfirst hbefore hknown
    have hsame := h.symm.trans (firstComponent?_of_split hresolved hfirst hbefore)
    rw [Option.some.inj hsame]
    exact ⟨u, hknown⟩

/-- What is held for a key that comes from a project is what the project declares. -/
theorem exists_declared?_of_origin (course : Course env policy requested doc s) {k : ArtifactKey}
    {p : ProjectComponent} (hp : doc.origin? course.key k = some (.project p)) :
    ∃ l, (doc.circumstances policy requested).declaredByProject p = .ok l ∧
      course.complete.declared? k = some l := by
  obtain ⟨u, hknown⟩ := course.exists_knownOf_origin hp
  generalize course.complete.declared? k = held at hknown
  cases hknown with
  | project hdeclared => exact ⟨_, hdeclared, rfl⟩

/-- Every artifact of the model has an origin. -/
theorem exists_origin_of_mem (course : Course env policy requested doc s) {a : ResolvedArtifact}
    (ha : a ∈ course.result.model.artifacts) :
    ∃ component, doc.origin? course.key a.key = some component := by
  unfold origin?
  rcases List.mem_cons.1 ha with rfl | hn
  · rw [if_pos course.key_application_result]
    exact ⟨_, rfl⟩
  · obtain ⟨last, hlast, hplain, -, -⟩ := course.exists_last_of_mem hn
    have hlastkey : last.coordinates.key = a.key := by simpa using List.find?_some hlast
    have hlastmem : last ∈ doc.resolved := List.mem_reverse.1 (List.mem_of_find?_eq_some hlast)
    obtain ⟨before, first, after, hresolved, hfirst, hbefore⟩ := exists_split_at_first hlastmem
    rw [hlastkey] at hfirst hbefore
    rw [if_neg hplain]
    exact ⟨_, firstComponent?_of_split hresolved hfirst hbefore⟩

end Course

end BuildModel

end ArtifactGraph
