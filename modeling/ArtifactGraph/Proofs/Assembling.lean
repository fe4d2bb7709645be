import ArtifactGraph.Proofs.Sessions
import ArtifactGraph.Proofs.Settling

/-!
# Where the nodes of a model come from

Resolved artifacts may share a key.  The model then keeps the last of them, and the session looks
at the component of the first one only.

* `gives_collectNodes_append_iff` takes the collection apart at any place.
* `exists_examined_of_gives_collectNodes`: what is found for a key is what the component of the
  first artifact with this key says, asked at its turn.
* `Course` names what an assembly goes through and `Fails` the places where it can fail;
  `gives_assemble_cases` says that there is nothing else.
* `exists_first_and_last_of_mem`: a node has the coordinates and the flags of the last artifact with
  its key and the declarations of the first one.
-/

namespace ArtifactGraph

variable {σ : Type}

namespace BuildModel

/-! ## Collecting -/

section

variable {env : Surroundings (StateM σ)} {c : Circumstances} {applicationKey : ArtifactKey}
  {total : Nat}

theorem gives_collectNodes_nil_iff {position : Nat} {session complete : Session} {s t : σ} :
    Gives (collectNodes env c applicationKey total position session []) s (.ok complete) t ↔
      complete = session ∧ t = s := by
  rw [collectNodes, gives_pure_iff, Except.ok.injEq]

/-- One step: the artifact is the application itself, or its component is told of and looked at. -/
theorem gives_collectNodes_cons_iff {position : Nat} {session complete : Session}
    {n : ResolvedNode} {rest : List ResolvedNode} {s t : σ} :
    Gives (collectNodes env c applicationKey total position session (n :: rest)) s
        (.ok complete) t ↔
      (applicationKey = n.coordinates.key ∧
        Gives (collectNodes env c applicationKey total (position + 1) session rest) s
          (.ok complete) t) ∨
      (applicationKey ≠ n.coordinates.key ∧ ∃ u next v,
        Gives (env.tell (.examining position total n.component)) s () u ∧
        Gives (session.collect env c n.component n.coordinates.key) u (.ok next) v ∧
        Gives (collectNodes env c applicationKey total (position + 1) next rest) v
          (.ok complete) t) := by
  rw [collectNodes]
  by_cases hkey : applicationKey = n.coordinates.key
  · rw [if_pos (beq_iff_eq.2 hkey)]
    constructor
    · intro h
      exact Or.inl ⟨hkey, h⟩
    · intro hstep
      rcases hstep with ⟨-, h⟩ | ⟨hne, -⟩
      · exact h
      · exact absurd hkey hne
  · rw [if_neg (by simpa using hkey), gives_bind_iff]
    constructor
    · intro hsteps
      obtain ⟨⟨⟩, u, htell, h⟩ := hsteps
      obtain ⟨answer, v, hanswer, h⟩ := gives_bind_iff.1 h
      cases answer with
      | error e => cases (gives_pure_iff.1 h).1
      | ok next => exact Or.inr ⟨hkey, u, next, v, htell, hanswer, h⟩
    · intro hstep
      rcases hstep with ⟨heq, -⟩ | ⟨-, u, next, v, htell, hcollect, h⟩
      · exact absurd heq hkey
      · exact ⟨(), u, htell, gives_bind_iff.2 ⟨.ok next, v, hcollect, h⟩⟩

/-- A collection is one of any front part and then one of the rest. -/
theorem gives_collectNodes_append_iff {position : Nat} {session complete : Session}
    {before after : List ResolvedNode} {s t : σ} :
    Gives (collectNodes env c applicationKey total position session (before ++ after)) s
        (.ok complete) t ↔
      ∃ middle u,
        Gives (collectNodes env c applicationKey total position session before) s (.ok middle) u ∧
        Gives (collectNodes env c applicationKey total (position + before.length) middle after) u
          (.ok complete) t := by
  induction before generalizing position session s with
  | nil =>
    simp only [gives_collectNodes_nil_iff]
    constructor
    · intro h
      exact ⟨session, s, ⟨rfl, rfl⟩, h⟩
    · intro hparts
      obtain ⟨_, _, ⟨rfl, rfl⟩, h⟩ := hparts
      exact h
  | cons n rest ih =>
    have hposition : position + (n :: rest).length = position + 1 + rest.length := by
      rw [List.length_cons]
      omega
    rw [List.cons_append, gives_collectNodes_cons_iff, hposition]
    simp only [gives_collectNodes_cons_iff, ih]
    constructor
    · intro hstep
      rcases hstep with ⟨hkey, middle, u, hrest, hafter⟩ |
        ⟨hkey, u, next, v, htell, hcollect, middle, w, hrest, hafter⟩
      · exact ⟨middle, u, Or.inl ⟨hkey, hrest⟩, hafter⟩
      · exact ⟨middle, w, Or.inr ⟨hkey, u, next, v, htell, hcollect, hrest⟩, hafter⟩
    · intro hparts
      obtain ⟨middle, w, hfront, hafter⟩ := hparts
      rcases hfront with ⟨hkey, hrest⟩ | ⟨hkey, u, next, v, htell, hcollect, hrest⟩
      · exact Or.inl ⟨hkey, middle, w, hrest, hafter⟩
      · exact Or.inr ⟨hkey, u, next, v, htell, hcollect, middle, w, hrest, hafter⟩

/-- Nothing is found out about a key that no artifact has. -/
theorem finding?_of_gives_collectNodes_of_ne {position : Nat} {session complete : Session}
    {nodes : List ResolvedNode} {k : ArtifactKey} {s t : σ}
    (h : Gives (collectNodes env c applicationKey total position session nodes) s (.ok complete) t)
    (hne : ∀ n ∈ nodes, n.coordinates.key ≠ k) : complete.finding? k = session.finding? k := by
  induction nodes generalizing position session s with
  | nil => rw [(gives_collectNodes_nil_iff.1 h).1]
  | cons n rest ih =>
    obtain ⟨hn, hrest⟩ := List.forall_mem_cons.1 hne
    rcases gives_collectNodes_cons_iff.1 h with ⟨-, h⟩ | ⟨-, u, next, v, -, hcollect, h⟩
    · exact ih h hrest
    · rw [ih h hrest, Session.finding?_of_gives_collect_of_ne hcollect hn.symm]

/-- A finding stays. -/
theorem finding?_of_gives_collectNodes {position : Nat} {session complete : Session}
    {nodes : List ResolvedNode} {k : ArtifactKey} {f : Finding} {s t : σ}
    (h : Gives (collectNodes env c applicationKey total position session nodes) s (.ok complete) t)
    (hf : session.finding? k = some f) : complete.finding? k = some f := by
  induction nodes generalizing position session s with
  | nil => rw [(gives_collectNodes_nil_iff.1 h).1, hf]
  | cons n rest ih =>
    rcases gives_collectNodes_cons_iff.1 h with ⟨-, h⟩ | ⟨-, u, next, v, -, hcollect, h⟩
    · exact ih h hf
    · exact ih h (Session.finding?_of_gives_collect hcollect hf)

/-- Among artifacts with one key there is a first one. -/
theorem exists_split_at_first {nodes : List ResolvedNode} {e : ResolvedNode} (he : e ∈ nodes) :
    ∃ before first after, nodes = before ++ first :: after ∧
      first.coordinates.key = e.coordinates.key ∧
      ∀ a ∈ before, a.coordinates.key ≠ e.coordinates.key := by
  cases hfirst : nodes.find? (·.coordinates.key == e.coordinates.key) with
  | none => exact absurd (List.find?_eq_none.1 hfirst e he) (by simp)
  | some first =>
    obtain ⟨hkey, before, after, hnodes, hbefore⟩ := List.find?_eq_some_iff_append.1 hfirst
    refine ⟨before, first, after, hnodes, by simpa using hkey, ?_⟩
    intro a ha
    simpa using hbefore a ha

/-- What is found for a new key is what the component of the first artifact with the key says, asked
after the artifacts before it. -/
theorem exists_examined_of_gives_collectNodes {position : Nat} {session complete : Session}
    {before after : List ResolvedNode} {first : ResolvedNode} {s t : σ}
    (h : Gives (collectNodes env c applicationKey total position session
      (before ++ first :: after)) s (.ok complete) t)
    (hplain : applicationKey ≠ first.coordinates.key)
    (hnew : session.finding? first.coordinates.key = none)
    (hbefore : ∀ n ∈ before, n.coordinates.key ≠ first.coordinates.key) :
    ∃ middle u v w f,
      Gives (collectNodes env c applicationKey total position session before) s (.ok middle) u ∧
      Gives (env.tell (.examining (position + before.length) total first.component)) u () v ∧
      Gives (examine env c first.component) v (.ok f) w ∧
      complete.finding? first.coordinates.key = some f := by
  obtain ⟨middle, u, hmiddle, h⟩ := gives_collectNodes_append_iff.1 h
  have hmiddlenew : middle.finding? first.coordinates.key = none := by
    rw [finding?_of_gives_collectNodes_of_ne hmiddle hbefore, hnew]
  rcases gives_collectNodes_cons_iff.1 h with ⟨hkey, -⟩ | ⟨-, v, next, w, htell, hcollect, h⟩
  · exact absurd hkey hplain
  · obtain ⟨f, hexamine, hf⟩ := Session.exists_examine_of_gives_collect hcollect hmiddlenew
    exact ⟨middle, u, v, w, f, hmiddle, htell, hexamine, finding?_of_gives_collectNodes h hf⟩

end

/-! ## The course of an assembly -/

/-- What does not change in the course of an assembly. -/
def circumstances (doc : BuildModel) (policy : ScopePolicy) (requested : Option LaunchMode) :
    Circumstances :=
  { workspace := doc.workspace, policy, mode := doc.launchModeOf requested }

/-- What an assembly that begins in the state `s` goes through: the project of the application, the
session once the application was looked at, and the session at the end. -/
structure Course (env : Surroundings (StateM σ)) (policy : ScopePolicy)
    (requested : Option LaunchMode) (doc : BuildModel) (s : σ) where
  build : Build
  project : Project
  opened : Session
  afterOpening : σ
  complete : Session
  atEnd : σ
  project_eq : (doc.circumstances policy requested).project doc.application = .ok (build, project)
  gives_opened : Gives (Session.collect env (doc.circumstances policy requested)
    (.project doc.application) project.coordinates.key []) s (.ok opened) afterOpening
  gives_complete : Gives (collectNodes env (doc.circumstances policy requested)
    project.coordinates.key doc.resolved.length 1 opened doc.resolved) afterOpening (.ok complete)
    atEnd

namespace Course

variable {env : Surroundings (StateM σ)} {policy : ScopePolicy} {requested : Option LaunchMode}
  {doc : BuildModel} {s : σ}

/-- The key of the application. -/
def key (course : Course env policy requested doc s) : ArtifactKey := course.project.coordinates.key

/-- The keys of the direct dependencies of the application. -/
def direct (course : Course env policy requested doc s) : List ArtifactKey :=
  doc.directKeys ((course.opened.declared? course.key).getD [])

/-- The model before anything is reconciled. -/
def seeded (course : Course env policy requested doc s) : ApplicationModel :=
  doc.seed course.project.coordinates ((course.opened.declared? course.key).getD [])

/-- What the assembly gives. -/
def result (course : Course env policy requested doc s) : Assembled :=
  conclude (doc.launchModeOf requested) course.complete course.seeded

theorem finding?_opened (course : Course env policy requested doc s) {k : ArtifactKey}
    (hk : k ≠ course.key) : course.opened.finding? k = none :=
  Session.finding?_of_gives_collect_of_ne course.gives_opened hk

theorem model_result (course : Course env policy requested doc s) :
    course.result.model = course.seeded.mapArtifacts
      (course.complete.settled (doc.launchModeOf requested) course.seeded) :=
  conclude_model _ _ (doc.wellKeyed_seed _ _)

theorem bare_model_result (course : Course env policy requested doc s) :
    course.result.model.bare = course.seeded.bare := by
  rw [model_result]
  exact ApplicationModel.bare_mapArtifacts fun a =>
    Session.bare_settled course.complete _ course.seeded a

end Course

/-- The places where an assembly that begins in the state `s` can fail. -/
inductive Fails (env : Surroundings (StateM σ)) (policy : ScopePolicy)
    (requested : Option LaunchMode) (doc : BuildModel) (s : σ) : Failure → Prop
  | resolving {e : Failure}
      (hproject : (doc.circumstances policy requested).project doc.application = .error e) :
      Fails env policy requested doc s e
  | opening {build : Build} {project : Project} {e : Failure} {t : σ}
      (hproject : (doc.circumstances policy requested).project doc.application =
        .ok (build, project))
      (hopening : Gives (Session.collect env (doc.circumstances policy requested)
        (.project doc.application) project.coordinates.key []) s (.error e) t) :
      Fails env policy requested doc s e
  | collecting {build : Build} {project : Project} {opened : Session} {e : Failure} {t u : σ}
      (hproject : (doc.circumstances policy requested).project doc.application =
        .ok (build, project))
      (hopening : Gives (Session.collect env (doc.circumstances policy requested)
        (.project doc.application) project.coordinates.key []) s (.ok opened) t)
      (hcollecting : Gives (collectNodes env (doc.circumstances policy requested)
        project.coordinates.key doc.resolved.length 1 opened doc.resolved) t (.error e) u) :
      Fails env policy requested doc s e

/-- An assembly fails at one of these places, or it goes through a course. -/
theorem gives_assemble_cases {env : Surroundings (StateM σ)} {policy : ScopePolicy}
    {requested : Option LaunchMode} {doc : BuildModel} {r : Except Failure Assembled} {s t : σ}
    (h : Gives (doc.assemble env policy requested) s r t) :
    (∃ e, r = .error e ∧ Fails env policy requested doc s e) ∨
      ∃ course : Course env policy requested doc s, r = .ok course.result := by
  unfold assemble at h
  cases hproject : (doc.circumstances policy requested).project doc.application with
  | error e =>
    have hproject' := hproject
    simp only [circumstances] at hproject'
    simp only [hproject'] at h
    exact Or.inl ⟨e, (gives_pure_iff.1 h).1, .resolving hproject⟩
  | ok found =>
    obtain ⟨build, project⟩ := found
    have hproject' := hproject
    simp only [circumstances] at hproject'
    simp only [hproject'] at h
    obtain ⟨answer, u, hopened, h⟩ := gives_bind_iff.1 h
    cases answer with
    | error e => exact Or.inl ⟨e, (gives_pure_iff.1 h).1, .opening hproject hopened⟩
    | ok opened =>
      obtain ⟨answer, v, hcomplete, h⟩ := gives_bind_iff.1 h
      cases answer with
      | error e =>
        exact Or.inl ⟨e, (gives_pure_iff.1 h).1, .collecting hproject hopened hcomplete⟩
      | ok complete =>
        obtain ⟨-, w, -, h⟩ := gives_bind_iff.1 h
        exact Or.inr ⟨⟨build, project, opened, u, complete, v, hproject, hopened, hcomplete⟩,
          (gives_pure_iff.1 h).1⟩

theorem exists_course_of_gives_assemble {env : Surroundings (StateM σ)} {policy : ScopePolicy}
    {requested : Option LaunchMode} {doc : BuildModel} {result : Assembled} {s t : σ}
    (h : Gives (doc.assemble env policy requested) s (.ok result) t) :
    ∃ course : Course env policy requested doc s, result = course.result := by
  rcases gives_assemble_cases h with ⟨e, he, -⟩ | ⟨course, hcourse⟩
  · cases he
  · exact ⟨course, Except.ok.inj hcourse⟩

/-! ## The nodes -/

namespace Course

variable {env : Surroundings (StateM σ)} {policy : ScopePolicy} {requested : Option LaunchMode}
  {doc : BuildModel} {s : σ}

/-- A node of the model is that of the last artifact with its key, with what the session holds for
the key reconciled. -/
theorem exists_last_of_mem (course : Course env policy requested doc s) {n : ResolvedArtifact}
    (hn : n ∈ course.result.model.nodes) :
    ∃ last, doc.resolved.reverse.find? (·.coordinates.key == n.key) = some last ∧
      n.key ≠ course.key ∧ n.bare = (nodeOf course.direct last).bare ∧
      n = match course.complete.declared? n.key with
        | none => nodeOf course.direct last
        | some l =>
          (course.result.model.reconcile
            (course.result.model.retainsTests course.result.mode n) l).applyTo
              (nodeOf course.direct last) := by
  have hmodel := course.bare_model_result
  rw [course.model_result] at hn
  obtain ⟨seed, hseed, hn⟩ := List.mem_map.1 hn
  obtain ⟨last, hlast, hseedeq, hplain⟩ := exists_of_mem_nodes_seed hseed
  have hbare : n.bare = seed.bare := by
    rw [← hn, Session.bare_settled]
  have hkey : n.key = seed.key := ResolvedArtifact.key_eq_of_bare_eq hbare
  refine ⟨last, ?_, ?_, ?_, ?_⟩
  · rw [hkey, hlast]
  · rw [hkey]
    exact hplain
  · rw [hbare, hseedeq]
    rfl
  · -- The model at the end is read as the one at the beginning was.
    have hretains : course.result.model.retainsTests course.result.mode n =
        course.seeded.retainsTests (doc.launchModeOf requested) seed :=
      ApplicationModel.retainsTests_congr hmodel _ hbare
    have hlastseed : nodeOf course.direct last = seed := hseedeq.symm
    rw [hkey, hretains, hlastseed, ← hn]
    simp only [ApplicationModel.reconcile_congr hmodel]
    rfl

/-- What the session holds for a key is what the component of the first artifact with the key
says, asked after the artifacts before it. -/
theorem exists_first_of_mem (course : Course env policy requested doc s) {e : ResolvedNode}
    (he : e ∈ doc.resolved) (hplain : e.coordinates.key ≠ course.key) :
    ∃ (first : ResolvedNode) (before after : List ResolvedNode) (session : Session) (u v : σ),
      doc.resolved = before ++ first :: after ∧ first.coordinates.key = e.coordinates.key ∧
      (∀ a ∈ before, a.coordinates.key ≠ e.coordinates.key) ∧
      Gives (collectNodes env (doc.circumstances policy requested) course.key doc.resolved.length 1
        course.opened before) course.afterOpening (.ok session) u ∧
      Gives (env.tell (.examining (1 + before.length) doc.resolved.length first.component)) u ()
        v ∧
      KnownOf env (doc.circumstances policy requested) first.component v
        (course.complete.declared? e.coordinates.key) := by
  obtain ⟨before, first, after, hresolved, hfirst, hbefore⟩ := exists_split_at_first he
  have hcomplete := course.gives_complete
  rw [hresolved] at hcomplete
  obtain ⟨session, u, v, w, f, hsession, htell, hexamine, hfound⟩ :=
    exists_examined_of_gives_collectNodes hcomplete (hfirst ▸ hplain.symm)
      (course.finding?_opened (hfirst ▸ hplain)) (hfirst ▸ hbefore)
  rw [← hresolved] at hsession htell
  have hdeclared : course.complete.declared? e.coordinates.key = f.dependencies? := by
    rw [Session.declared?, ← hfirst, hfound]
    rfl
  refine ⟨first, before, after, session, u, v, hresolved, hfirst, hbefore, hsession, htell, ?_⟩
  rw [hdeclared]
  exact knownOf_of_gives_examine hexamine

end Course

/-- A node of the model has the coordinates and the flags of the last artifact with its key. The
declarations that are reconciled are those of the component of the first one, as they are found at
its turn, and nothing is reconciled exactly when that component is a module whose POM has no
effective model. -/
theorem exists_first_and_last_of_mem {env : Surroundings (StateM σ)} {policy : ScopePolicy}
    {requested : Option LaunchMode} {doc : BuildModel} {result : Assembled} {s t : σ}
    (h : Gives (doc.assemble env policy requested) s (.ok result) t) {n : ResolvedArtifact}
    (hn : n ∈ result.model.nodes) :
    ∃ (course : Course env policy requested doc s) (last first : ResolvedNode)
      (before after : List ResolvedNode) (session : Session) (u v : σ)
      (known : Option (List DeclaredDependency)),
      result = course.result ∧
      doc.resolved.reverse.find? (·.coordinates.key == n.key) = some last ∧
      n.coordinates = last.coordinates ∧ n.flags = (nodeOf course.direct last).flags ∧
      doc.resolved = before ++ first :: after ∧ first.coordinates.key = n.key ∧
      (∀ e ∈ before, e.coordinates.key ≠ n.key) ∧
      Gives (collectNodes env (doc.circumstances policy requested) course.key doc.resolved.length 1
        course.opened before) course.afterOpening (.ok session) u ∧
      Gives (env.tell (.examining (1 + before.length) doc.resolved.length first.component)) u ()
        v ∧
      KnownOf env (doc.circumstances policy requested) first.component v known ∧
      course.complete.declared? n.key = known ∧
      n = (match known with
        | none => nodeOf course.direct last
        | some l =>
          (result.model.reconcile (result.model.retainsTests result.mode n) l).applyTo
            (nodeOf course.direct last)) ∧
      (known = none ↔ ∃ gav fault w, first.component = .module gav ∧
        Gives (declaredByModule env gav).run v (.error fault) w) := by
  obtain ⟨course, rfl⟩ := exists_course_of_gives_assemble h
  obtain ⟨last, hlast, hplain, hbare, hsettled⟩ := course.exists_last_of_mem hn
  have hlastkey : last.coordinates.key = n.key := by simpa using List.find?_some hlast
  have hlastmem : last ∈ doc.resolved := List.mem_reverse.1 (List.mem_of_find?_eq_some hlast)
  obtain ⟨first, before, after, session, u, v, hresolved, hfirst, hbefore, hsession, htell,
    hknown⟩ := course.exists_first_of_mem hlastmem (hlastkey ▸ hplain)
  rw [hlastkey] at hfirst hbefore hknown
  exact ⟨course, last, first, before, after, session, u, v, _, rfl, hlast,
    (ResolvedArtifact.mk.inj hbare).1, (ResolvedArtifact.mk.inj hbare).2.1, hresolved, hfirst,
    hbefore, hsession, htell, hknown, rfl, hsettled, hknown.eq_none_iff⟩

/-! ## Two projects under one key -/

/-- A project of one declaration. -/
def declaringProject (path version artifactId : String) : Project :=
  { path, group := "g", name := "lib", version
    configurations := [("api", [.external "x" artifactId (some "1")])] }

/-- A resolved project. -/
def projectNode (path version : String) : ResolvedNode :=
  { component := .project { projectPath := path }
    coordinates := { groupId := "g", artifactId := "lib", version } }

/-- Two projects build an artifact of the same key, in two versions, and declare different
dependencies. -/
def sharedKey : BuildModel :=
  { application := { projectPath := ":" }
    workspace :=
      { root :=
          { projects :=
              [{ path := ":", group := "g", name := "app", version := "1" },
                declaringProject ":one" "1" "a", declaringProject ":two" "2" "b"] } }
    resolved := [projectNode ":one" "1", projectNode ":two" "2"] }

/-- Surroundings in which nothing is located and nothing is told. -/
def emptySurroundings : Surroundings (StateM Unit) :=
  { locate := (Shelf.ofVolumes "shelf" []).locator, system := [], tell := fun _ => pure () }

/-- The node that the two become. -/
def sharedNode : ResolvedArtifact :=
  { coordinates := { groupId := "g", artifactId := "lib", version := "2" }
    flags := .of .workspaceModule
    directDependencies :=
      [{ groupId := "x", artifactId := "a", version := some "1"
         flags := (Flags.of .missingFromApplication).add .direct }] }

def sharedResult : Assembled :=
  { model :=
      { application :=
          { coordinates := { groupId := "g", artifactId := "app", version := "1" }
            flags := .of .workspaceModule }
        nodes := [sharedNode] }
    mode := .normal
    statistics := { collected := 2, unresolved := 0, reconciled := 2, missing := 1 } }

theorem gives_assemble_sharedKey :
    Gives (sharedKey.assemble emptySurroundings default none) () (.ok sharedResult) () :=
  gives_ok_of_toOption (by decide +kernel)

theorem exists_first_and_last_sharedKey :
    Gives (sharedKey.assemble emptySurroundings default none) () (.ok sharedResult) () ∧
      sharedNode ∈ sharedResult.model.nodes ∧
      ∃ (course : Course emptySurroundings default none sharedKey ()) (last first : ResolvedNode)
        (before after : List ResolvedNode) (v : Unit) (known : Option (List DeclaredDependency)),
        sharedKey.resolved.reverse.find? (·.coordinates.key == sharedNode.key) = some last ∧
        sharedNode.coordinates = last.coordinates ∧
        sharedKey.resolved = before ++ first :: after ∧
        first.coordinates.key = sharedNode.key ∧
        (∀ e ∈ before, e.coordinates.key ≠ sharedNode.key) ∧
        KnownOf emptySurroundings (sharedKey.circumstances default none) first.component v known ∧
        sharedNode = match known with
          | none => nodeOf course.direct last
          | some l =>
            (sharedResult.model.reconcile
              (sharedResult.model.retainsTests sharedResult.mode sharedNode) l).applyTo
                (nodeOf course.direct last) := by
  have hmem : sharedNode ∈ sharedResult.model.nodes := List.mem_singleton_self _
  obtain ⟨course, last, first, before, after, -, -, v, known, -, hlast, hcoordinates, -,
    hresolved, hfirst, hbefore, -, -, hknown, -, hnode, -⟩ :=
    exists_first_and_last_of_mem gives_assemble_sharedKey hmem
  exact ⟨gives_assemble_sharedKey, hmem, course, last, first, before, after, v, known, hlast,
    hcoordinates, hresolved, hfirst, hbefore, hknown, hnode⟩

/-- The node has the coordinates of the second project and not the records of what this project
declares. -/
theorem records_not_of_last :
    Gives (sharedKey.assemble emptySurroundings default none) () (.ok sharedResult) () ∧
      sharedNode ∈ sharedResult.model.nodes ∧
      sharedKey.resolved.reverse.find? (·.coordinates.key == sharedNode.key) =
        some (projectNode ":two" "2") ∧
      sharedNode.coordinates = (projectNode ":two" "2").coordinates ∧
      ∃ l, (sharedKey.circumstances default none).declaredByProject { projectPath := ":two" } =
          .ok l ∧
        sharedNode.directDependencies ≠ (sharedResult.model.reconcile
          (sharedResult.model.retainsTests sharedResult.mode sharedNode) l).directDependencies := by
  refine ⟨gives_assemble_sharedKey, List.mem_singleton_self _, by decide +kernel, rfl,
    [.ofBuildScript "x" "b" (some "1") "compile"], eq_ok_of_toOption (by decide +kernel), ?_⟩
  decide +kernel

end BuildModel

end ArtifactGraph
