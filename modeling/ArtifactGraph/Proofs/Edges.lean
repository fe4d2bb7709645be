import ArtifactGraph.Proofs.Assembling
import Mathlib.Data.List.Basic

/-!
# Edges of a reconciled model

Reconciling takes the version of an edge from the node that a declaration names.  The model at the
end has the nodes and the versions of the one that was read, so its edges lead to nodes of its own.

* `dependencies_reconcile`: the edges are the coordinates of the nodes named by the declarations
  that count, in the order of these.
* `Course.eq_applyTo_of_mem_artifacts`: an artifact at the end has the edges and records that its
  declarations get on the model at the end; `Course.directDependencies_of_mem_artifacts` says this
  of the records, and also where no declarations are known.
* `dependencies_eq_of_gives_assemble` puts the two together.
-/

namespace ArtifactGraph

namespace ApplicationModel

/-- An edge has the coordinates of the node, not only its version. -/
theorem dependencies_reconcile (m : ApplicationModel) (retainTest : Bool)
    (declared : List DeclaredDependency) :
    (m.reconcile retainTest declared).dependencies =
      (declared.filter (·.isRetained retainTest)).filterMap fun d =>
        (m.get? d.key).map (·.coordinates) := by
  unfold reconcile
  apply List.filterMap_congr
  intro d _
  cases hfound : m.get? d.key with
  | none => rfl
  | some n =>
    have hkey : n.coordinates.key = d.key := key_of_get? hfound
    rw [Option.map_some, Option.map_some, ← hkey, Coordinates.withVersion_key]

/-- An edge leads to a node. -/
theorem exists_node_of_mem_dependencies_reconcile {m : ApplicationModel} {retainTest : Bool}
    {declared : List DeclaredDependency} {c : Coordinates}
    (hc : c ∈ (m.reconcile retainTest declared).dependencies) :
    ∃ n ∈ m.nodes, n.coordinates = c := by
  rw [dependencies_reconcile] at hc
  obtain ⟨d, -, hfound⟩ := List.mem_filterMap.1 hc
  obtain ⟨n, hn, rfl⟩ := Option.map_eq_some_iff.1 hfound
  exact ⟨n, List.mem_of_find?_eq_some hn, rfl⟩

end ApplicationModel

namespace BuildModel

variable {σ : Type} {env : Surroundings (StateM σ)} {policy : ScopePolicy}
  {requested : Option LaunchMode} {doc : BuildModel} {s : σ}

namespace Course

theorem wellKeyed_model_result (course : Course env policy requested doc s) :
    course.result.model.WellKeyed := by
  rw [model_result]
  have hseeded : course.seeded.WellKeyed := doc.wellKeyed_seed _ _
  exact hseeded.mapArtifacts fun a => Session.bare_settled course.complete _ course.seeded a

/-- An artifact at the end is as if its declarations had been reconciled on the model at the end. -/
theorem eq_applyTo_of_mem_artifacts (course : Course env policy requested doc s)
    {a : ResolvedArtifact} (ha : a ∈ course.result.model.artifacts)
    {declared : List DeclaredDependency}
    (hdeclared : course.complete.declared? a.key = some declared) :
    ∃ seed, a = (course.result.model.reconcile
      (course.result.model.retainsTests course.result.mode a) declared).applyTo seed := by
  have hmodel := course.bare_model_result
  rw [course.model_result] at ha
  obtain ⟨seed, -, hseed⟩ : ∃ seed ∈ course.seeded.artifacts,
      course.complete.settled (doc.launchModeOf requested) course.seeded seed = a :=
    List.mem_map.1 ha
  have hbare : a.bare = seed.bare := by rw [← hseed, Session.bare_settled]
  have hretains : course.result.model.retainsTests course.result.mode a =
      course.seeded.retainsTests (doc.launchModeOf requested) seed :=
    ApplicationModel.retainsTests_congr hmodel _ hbare
  rw [ResolvedArtifact.key_eq_of_bare_eq hbare] at hdeclared
  refine ⟨seed, ?_⟩
  rw [hretains, ApplicationModel.reconcile_congr hmodel, ← hseed, Session.settled, hdeclared]

/-- The records of an artifact at the end are those that its declarations get on the model at the
end. An artifact whose declarations are not known has none. -/
theorem directDependencies_of_mem_artifacts (course : Course env policy requested doc s)
    {a : ResolvedArtifact} (ha : a ∈ course.result.model.artifacts) :
    a.directDependencies = (course.result.model.reconcile
      (course.result.model.retainsTests course.result.mode a)
      ((course.complete.declared? a.key).getD [])).directDependencies := by
  cases hdeclared : course.complete.declared? a.key with
  | some declared =>
    obtain ⟨seed, hreconciled⟩ := course.eq_applyTo_of_mem_artifacts ha hdeclared
    exact congrArg ResolvedArtifact.directDependencies hreconciled
  | none =>
    rw [course.model_result] at ha
    obtain ⟨seed, hseed, hsettled⟩ : ∃ seed ∈ course.seeded.artifacts,
        course.complete.settled (doc.launchModeOf requested) course.seeded seed = a :=
      List.mem_map.1 ha
    rw [← hsettled, Session.key_settled] at hdeclared
    have hkept :
        course.complete.settled (doc.launchModeOf requested) course.seeded seed = seed := by
      rw [Session.settled, hdeclared]
    rw [← hsettled, hkept, directDependencies_of_mem_artifacts_seed hseed]
    rfl

theorem key_application_seeded (course : Course env policy requested doc s) :
    course.seeded.application.key = course.key := by
  have hseeded : course.seeded.application =
      (applicationOnly course.project.coordinates).application := application_seedNodes _ _ _
  rw [hseeded]
  rfl

theorem key_application_result (course : Course env policy requested doc s) :
    course.result.model.application.key = course.key := by
  rw [← course.key_application_seeded]
  exact congrArg (·.application.key) course.bare_model_result

/-- A run opens with what the project of the application declares. -/
theorem exists_opened_eq (course : Course env policy requested doc s) :
    ∃ declared, (doc.circumstances policy requested).declaredByProject doc.application =
        .ok declared ∧ course.opened = [(course.key, .declared declared)] := by
  rcases Session.gives_collect_cases course.gives_opened with
    ⟨hcollected, -, -⟩ | ⟨-, ⟨e, -, hopened⟩ | ⟨f, hexamine, hopened⟩⟩
  · cases hcollected
  · cases hopened
  · have hanswer := (gives_pure_iff.1 hexamine).1
    cases hdeclared : (doc.circumstances policy requested).declaredByProject doc.application with
    | error e =>
      rw [hdeclared] at hanswer
      cases hanswer
    | ok declared =>
      rw [hdeclared] at hanswer
      cases hanswer
      exact ⟨declared, rfl, Except.ok.inj hopened⟩

/-- What the project of the application declares is known at the end. -/
theorem exists_declared?_key (course : Course env policy requested doc s) :
    ∃ declared, (doc.circumstances policy requested).declaredByProject doc.application =
        .ok declared ∧ course.complete.declared? course.key = some declared := by
  obtain ⟨declared, hproject, hopened⟩ := course.exists_opened_eq
  have hfound : course.opened.finding? course.key = some (.declared declared) := by
    rw [hopened]
    exact Session.finding?_cons_self [] course.key _
  refine ⟨declared, hproject, ?_⟩
  rw [Session.declared?, finding?_of_gives_collectNodes course.gives_complete hfound]
  rfl

end Course

/-- An artifact of the model whose declarations are known has for edges, in order, the coordinates
of the nodes that its declarations name, as far as these count. So every edge leads to a node, in
the node's own version, and none leads to the application. The declarations of the application are
known, and are those of its project. -/
theorem dependencies_eq_of_gives_assemble {result : Assembled} {t : σ}
    (h : Gives (doc.assemble env policy requested) s (.ok result) t) :
    ∃ course : Course env policy requested doc s, result = course.result ∧
      result.model.WellKeyed ∧
      (∃ declared, (doc.circumstances policy requested).declaredByProject doc.application =
          .ok declared ∧
        course.complete.declared? result.model.application.key = some declared) ∧
      ∀ a ∈ result.model.artifacts, ∀ declared,
        course.complete.declared? a.key = some declared →
          (∀ c ∈ a.dependencies, (∃ n ∈ result.model.nodes, n.coordinates = c) ∧
            c.key ≠ result.model.application.key) ∧
          a.dependencies = (declared.filter
            (·.isRetained (result.model.retainsTests result.mode a))).filterMap fun d =>
              (result.model.get? d.key).map (·.coordinates) := by
  obtain ⟨course, rfl⟩ := exists_course_of_gives_assemble h
  have hwell := course.wellKeyed_model_result
  refine ⟨course, rfl, hwell, ?_, ?_⟩
  · rw [course.key_application_result]
    exact course.exists_declared?_key
  · intro a ha declared hdeclared
    obtain ⟨seed, hreconciled⟩ := course.eq_applyTo_of_mem_artifacts ha hdeclared
    have hedges : a.dependencies = (course.result.model.reconcile
        (course.result.model.retainsTests course.result.mode a) declared).dependencies :=
      congrArg ResolvedArtifact.dependencies hreconciled
    constructor
    · intro c hc
      rw [hedges] at hc
      obtain ⟨n, hn, rfl⟩ := ApplicationModel.exists_node_of_mem_dependencies_reconcile hc
      exact ⟨⟨n, hn, rfl⟩, hwell.key_ne hn⟩
    · rw [hedges, ApplicationModel.dependencies_reconcile]

/-! ## An edge that adopts a version -/

/-- An application that declares the artifact of the two projects in a version of neither, itself,
and what is not in the graph. -/
def adopting : BuildModel :=
  { sharedKey with
    workspace :=
      { root :=
          { projects :=
              [{ path := ":", group := "g", name := "app", version := "1"
                 configurations := [("api", [.external "g" "lib" (some "9"),
                   .external "g" "app" none, .external "x" "none" (some "1")])] },
                declaringProject ":one" "1" "a", declaringProject ":two" "2" "b"] } } }

/-- The application with its one edge. -/
def adoptingApplication : ResolvedArtifact :=
  { coordinates := { groupId := "g", artifactId := "app", version := "1" }
    flags := .of .workspaceModule
    dependencies := [{ groupId := "g", artifactId := "lib", version := "2" }]
    directDependencies :=
      [{ groupId := "g", artifactId := "lib", version := some "2"
         flags := (Flags.of .workspaceModule).add .direct },
        { groupId := "g", artifactId := "app"
          flags := (Flags.of .missingFromApplication).add .direct },
        { groupId := "x", artifactId := "none", version := some "1"
          flags := (Flags.of .missingFromApplication).add .direct }] }

def adoptingResult : Assembled :=
  { model :=
      { application := adoptingApplication
        nodes := [sharedNode.addFlags (.of .direct)] }
    mode := .normal
    statistics := { collected := 2, unresolved := 0, reconciled := 2, missing := 3 } }

theorem gives_assemble_adopting :
    Gives (adopting.assemble emptySurroundings default none) () (.ok adoptingResult) () :=
  gives_ok_of_toOption (by decide +kernel)

theorem dependencies_eq_adopting :
    Gives (adopting.assemble emptySurroundings default none) () (.ok adoptingResult) () ∧
      adoptingApplication ∈ adoptingResult.model.artifacts ∧
      ∃ declared, (adopting.circumstances default none).declaredByProject adopting.application =
          .ok declared ∧
        (∀ c ∈ adoptingApplication.dependencies,
          (∃ n ∈ adoptingResult.model.nodes, n.coordinates = c) ∧
            c.key ≠ adoptingApplication.key) ∧
        adoptingApplication.dependencies = (declared.filter (·.isRetained
          (adoptingResult.model.retainsTests .normal adoptingApplication))).filterMap fun d =>
            (adoptingResult.model.get? d.key).map (·.coordinates) := by
  have hmem : adoptingApplication ∈ adoptingResult.model.artifacts := List.mem_cons_self
  obtain ⟨course, -, -, ⟨declared, hproject, hdeclared⟩, hedges⟩ :=
    dependencies_eq_of_gives_assemble gives_assemble_adopting
  exact ⟨gives_assemble_adopting, hmem, declared, hproject,
    hedges adoptingApplication hmem declared hdeclared⟩

end BuildModel

end ArtifactGraph
