import ArtifactGraph.Proofs.Extracting
import ArtifactGraph.Proofs.Origins
import ArtifactGraph.Proofs.Records

/-!
# Where tests leave records

Three places have to agree on what is needed for tests only.  Rows of the test scope are extracted
from projects in test mode and not else; the effective model of a module keeps no such dependency;
and reconciling lets them count for the application and its direct dependencies.  In each of these
places something could be lost that another one expects.

* `KnownOf.isTestScoped_eq_false`: nothing is held of a module that is for tests only.
* `exists_testRows_of_declaredByProject`: what is held of a project has all that is for tests, each
  declaration once and in the order of the rows of the test scope.
* `test_records_of_gives_assemble`: which artifacts have records of the test scope, and which
  records these are.
-/

namespace ArtifactGraph

variable {σ : Type} {env : Surroundings (StateM σ)}

/-! ## What is held -/

theorem DeclaredDependency.isTestScoped_ofModel {d : ModelDependency}
    (h : d.scope ≠ some Scope.test.toText) :
    (DeclaredDependency.ofModel d).isTestScoped = false := by
  unfold isTestScoped ofModel
  cases hscope : d.scope with
  | none => rfl
  | some scope => simpa [hscope] using h

/-- A module says nothing of what its own tests need. -/
theorem KnownOf.isTestScoped_eq_false {c : Circumstances} {gav : Gav} {l : List DeclaredDependency}
    {s : σ} (h : KnownOf env c (.module gav) s (some l)) : ∀ d ∈ l, d.isTestScoped = false := by
  obtain ⟨rows, hrows, rfl⟩ := h.exists_rowsOf
  cases hrows with
  | module hbuild =>
    intro d hd
    obtain ⟨dep, hdep, rfl⟩ := List.mem_map.1 hd
    exact DeclaredDependency.isTestScoped_ofModel (by simpa using (List.mem_filter.1 hdep).2)

theorem Circumstances.resolve_of_project {c : Circumstances} {p : ProjectComponent}
    {found : Build × Project} (h : c.project p = .ok found) :
    c.workspace.resolve p = some found := by
  unfold project at h
  split at h
  · cases h
  · rename_i hresolve
    cases h
    exact hresolve

/-- In test mode all that a project has in rows of the test scope is held. -/
theorem exists_testRows_of_declaredByProject {c : Circumstances} {p : ProjectComponent}
    {l : List DeclaredDependency} (hmode : c.mode = .test) (h : c.declaredByProject p = .ok l) :
    ∃ build project rows, c.workspace.resolve p = some (build, project) ∧
      build.declaredUnder project c.policy.testRows = .ok rows ∧
      l.filter (·.isTestScoped) = firstOccurrences rows := by
  obtain ⟨build, project, rows, hproject, hrows, rfl⟩ := exists_rows_of_declaredByProject h
  rw [hmode] at hrows
  have htest := Build.declaredUnder_filter (q := (· == .test))
    (fun _ _ => DeclaredDependency.isTestScoped_of_scope) hrows
  rw [LaunchMode.isTest, beq_self_eq_true, ScopePolicy.mappings_filter_test] at htest
  exact ⟨build, project, _, Circumstances.resolve_of_project hproject, htest,
    filter_firstOccurrences _ rows⟩

/-! ## What counts -/

theorem ApplicationModel.retainsTests_iff {m : ApplicationModel} {mode : LaunchMode}
    {a : ResolvedArtifact} :
    m.retainsTests mode a = true ↔
      mode = .test ∧ (a.key = m.application.key ∨ a.isDirect = true) := by
  rw [retainsTests, LaunchMode.isTest, isApplication, Bool.and_eq_true, beq_iff_eq,
    Bool.or_eq_true, beq_iff_eq, eq_comm (a := m.application.key), or_comm]

namespace BuildModel

variable {policy : ScopePolicy} {requested : Option LaunchMode} {doc : BuildModel} {s t : σ}

namespace Course

/-- The records of the test scope of an artifact, as far as these count. -/
theorem filter_directDependencies (course : Course env policy requested doc s)
    {a : ResolvedArtifact} (ha : a ∈ course.result.model.artifacts) :
    a.directDependencies.filter (·.isTestScoped) =
      if course.result.model.retainsTests course.result.mode a then
        (((course.complete.declared? a.key).getD []).filter (·.isTestScoped)).map fun d =>
          d.matchedRecord (course.result.model.get? d.key)
      else [] := by
  rw [course.directDependencies_of_mem_artifacts ha, ApplicationModel.filter_records_reconcile]

theorem exists_project_of_isTestScoped (course : Course env policy requested doc s)
    {k : ArtifactKey} {component : Component} (horigin : doc.origin? course.key k = some component)
    {d : DeclaredDependency} (hd : d ∈ (course.complete.declared? k).getD [])
    (htest : d.isTestScoped = true) : ∃ p, component = .project p := by
  obtain ⟨u, hknown⟩ := course.exists_knownOf_origin horigin
  generalize course.complete.declared? k = held at hknown hd
  cases component with
  | project p => exact ⟨p, rfl⟩
  | module gav =>
    cases held with
    | none => cases hd
    | some l =>
      rw [hknown.isTestScoped_eq_false d hd] at htest
      cases htest

/-- A record of the test scope is found where tests count and a project declares. -/
theorem exists_project_of_test_record (course : Course env policy requested doc s)
    {a : ResolvedArtifact} (ha : a ∈ course.result.model.artifacts) {r : DirectDependency}
    (hr : r ∈ a.directDependencies) (htest : r.isTestScoped = true) :
    course.result.model.retainsTests course.result.mode a = true ∧
      ∃ p, doc.origin? course.key a.key = some (.project p) := by
  have hfound : r ∈ a.directDependencies.filter (·.isTestScoped) := List.mem_filter.2 ⟨hr, htest⟩
  rw [course.filter_directDependencies ha] at hfound
  split at hfound
  · rename_i hretains
    obtain ⟨d, hd, -⟩ := List.mem_map.1 hfound
    obtain ⟨hd, hdtest⟩ := List.mem_filter.1 hd
    obtain ⟨component, horigin⟩ := course.exists_origin_of_mem ha
    obtain ⟨p, rfl⟩ := course.exists_project_of_isTestScoped horigin hd hdtest
    exact ⟨hretains, p, horigin⟩
  · cases hfound

/-- Where tests count and a project declares, all its rows of the test scope are recorded. -/
theorem exists_testRows_of_retainsTests (course : Course env policy requested doc s)
    {a : ResolvedArtifact} (ha : a ∈ course.result.model.artifacts)
    (hretains : course.result.model.retainsTests course.result.mode a = true)
    {p : ProjectComponent} (horigin : doc.origin? course.key a.key = some (.project p)) :
    ∃ build project rows, doc.workspace.resolve p = some (build, project) ∧
      build.declaredUnder project policy.testRows = .ok rows ∧
      a.directDependencies.filter (·.isTestScoped) = (firstOccurrences rows).map fun d =>
        d.matchedRecord (course.result.model.get? d.key) := by
  obtain ⟨l, hl, hheld⟩ := course.exists_declared?_of_origin horigin
  obtain ⟨build, project, rows, hresolve, hrows, hfirst⟩ :=
    exists_testRows_of_declaredByProject (ApplicationModel.retainsTests_iff.1 hretains).1 hl
  refine ⟨build, project, rows, hresolve, hrows, ?_⟩
  rw [course.filter_directDependencies ha, if_pos hretains, hheld, Option.getD_some, hfirst]

end Course

/-- A record of the test scope is found in test mode only, at the application or an artifact that is
direct, and only where a project says what is declared. There all that the project has in rows of
the test scope is recorded, each declaration once and in the order of the rows. -/
theorem test_records_of_gives_assemble {result : Assembled}
    (h : Gives (doc.assemble env policy requested) s (.ok result) t) :
    result.mode = doc.launchModeOf requested ∧
    ∃ course : Course env policy requested doc s, result = course.result ∧
      ∀ a ∈ result.model.artifacts,
        ((∃ r ∈ a.directDependencies, r.isTestScoped = true) →
          result.mode = .test ∧ (a = result.model.application ∨ a.isDirect = true) ∧
          ∃ p l, doc.origin? result.model.application.key a.key = some (.project p) ∧
            (doc.circumstances policy requested).declaredByProject p = .ok l ∧
            course.complete.declared? a.key = some l) ∧
        (result.mode = .test → (a = result.model.application ∨ a.isDirect = true) →
          ∀ p, doc.origin? result.model.application.key a.key = some (.project p) →
            ∃ build project rows, doc.workspace.resolve p = some (build, project) ∧
              build.declaredUnder project policy.testRows = .ok rows ∧
              a.directDependencies.filter (·.isTestScoped) =
                (firstOccurrences rows).map fun d =>
                  d.matchedRecord (result.model.get? d.key)) := by
  obtain ⟨course, rfl⟩ := exists_course_of_gives_assemble h
  refine ⟨rfl, course, rfl, ?_⟩
  intro a ha
  rw [course.key_application_result]
  constructor
  · intro hrecord
    obtain ⟨r, hr, htest⟩ := hrecord
    obtain ⟨hretains, p, horigin⟩ := course.exists_project_of_test_record ha hr htest
    obtain ⟨hmode, hplace⟩ := ApplicationModel.retainsTests_iff.1 hretains
    obtain ⟨l, hl, hheld⟩ := course.exists_declared?_of_origin horigin
    exact ⟨hmode, hplace.imp_left (course.wellKeyed_model_result.eq_application ha), p, l,
      horigin, hl, hheld⟩
  · intro hmode hplace p horigin
    have hretains : course.result.model.retainsTests course.result.mode a = true :=
      ApplicationModel.retainsTests_iff.2 ⟨hmode, hplace.imp_left (congrArg ResolvedArtifact.key)⟩
    exact course.exists_testRows_of_retainsTests ha hretains horigin

/-! ## A run in test mode -/

/-- An application and two projects that all need the same artifact in their tests. -/
def tested : BuildModel :=
  { sharedKey with
    workspace :=
      { root :=
          { projects :=
              [{ path := ":", group := "g", name := "app", version := "1"
                 configurations :=
                  [("api", [.project ":lib"]),
                    ("testRuntimeOnly", [.external "x" "t" (some "1"), .project "lib"]),
                    ("testImplementation", [.external "x" "t" (some "1")])] },
                { path := ":lib", group := "g", name := "lib", version := "1"
                  configurations :=
                    [("testImplementation", [.external "x" "t" none, .external "x" "t" none]),
                      ("api", [.external "x" "far" none])] },
                { path := ":far", group := "x", name := "far", version := "1"
                  configurations := [("testImplementation", [.external "x" "t" none])] }] } }
    resolved :=
      [projectNode ":lib" "1",
        { component := .project { projectPath := ":far" }
          coordinates := { groupId := "x", artifactId := "far", version := "1" } },
        { component := .module ⟨"x", "t", "2"⟩
          coordinates := { groupId := "x", artifactId := "t", version := "2" } }] }

/-- The artifact that tests need. -/
def testedLibrary : Coordinates := { groupId := "x", artifactId := "t", version := "2" }

/-- The project that the application declares. -/
def testedNode : ResolvedArtifact :=
  { coordinates := { groupId := "g", artifactId := "lib", version := "1" }
    flags := (Flags.of .workspaceModule).add .direct
    dependencies := [{ groupId := "x", artifactId := "far", version := "1" }, testedLibrary]
    directDependencies :=
      [{ groupId := "x", artifactId := "far", version := some "1"
         flags := (Flags.of .workspaceModule).add .direct },
        { groupId := "x", artifactId := "t", version := some "2", scope := "test"
          flags := .of .direct }] }

def testedResult : Assembled :=
  { model :=
      { application :=
          { coordinates := { groupId := "g", artifactId := "app", version := "1" }
            flags := .of .workspaceModule
            dependencies := [testedNode.coordinates, testedLibrary, testedNode.coordinates]
            directDependencies :=
              [{ groupId := "g", artifactId := "lib", version := some "1"
                 flags := (Flags.of .workspaceModule).add .direct },
                { groupId := "x", artifactId := "t", version := some "2", scope := "test"
                  flags := .of .direct },
                { groupId := "g", artifactId := "lib", version := some "1", scope := "test"
                  flags := (Flags.of .workspaceModule).add .direct }] }
        nodes :=
          [testedNode,
            { coordinates := { groupId := "x", artifactId := "far", version := "1" }
              flags := .of .workspaceModule },
            { coordinates := testedLibrary, flags := .of .direct }] }
    mode := .test
    statistics := { collected := 3, unresolved := 1, reconciled := 3, missing := 0 } }

theorem gives_assemble_tested :
    Gives (tested.assemble emptySurroundings default (some .test)) () (.ok testedResult) () :=
  gives_ok_of_toOption (by decide +kernel)

/-- The project that is direct has a record of the test scope, and it is that of its one row. -/
theorem test_records_tested :
    Gives (tested.assemble emptySurroundings default (some .test)) () (.ok testedResult) () ∧
      testedNode ∈ testedResult.model.artifacts ∧
      (∃ r ∈ testedNode.directDependencies, r.isTestScoped = true) ∧
      (∃ p, tested.origin? testedResult.model.application.key testedNode.key =
        some (.project p)) ∧
      ∃ build project rows,
        tested.workspace.resolve { projectPath := ":lib" } = some (build, project) ∧
        build.declaredUnder project (default : ScopePolicy).testRows = .ok rows ∧
        testedNode.directDependencies.filter (·.isTestScoped) =
          (firstOccurrences rows).map fun d => d.matchedRecord (testedResult.model.get? d.key) := by
  have hmem : testedNode ∈ testedResult.model.artifacts :=
    List.mem_cons_of_mem _ List.mem_cons_self
  have hrecord : ∃ r ∈ testedNode.directDependencies, r.isTestScoped = true := by decide
  obtain ⟨-, course, -, hplaces⟩ := test_records_of_gives_assemble gives_assemble_tested
  obtain ⟨honly, hall⟩ := hplaces testedNode hmem
  obtain ⟨-, -, p, -, horigin, -, -⟩ := honly hrecord
  exact ⟨gives_assemble_tested, hmem, hrecord, ⟨p, horigin⟩,
    hall rfl (Or.inr (by decide)) { projectPath := ":lib" } (by decide)⟩

end BuildModel

end ArtifactGraph
