import ArtifactGraph.Proofs.Seeding
import ArtifactGraph.Proofs.TestScope

/-!
# Direct nodes and direct records

A node is marked as direct before there is a model to speak of, by the keys of what the application
declares; the records of the application are made at the end, of those declarations that count.
Both come to the same: outside of test mode nothing is declared for tests, and in test mode the
application keeps all of it.

* `isTestScoped_eq_false_of_declaredByProject`: nothing is extracted for tests unless tests are run.
* `has_flags_nodeOf_direct`: the two reasons for which a node is direct.
* `Course.application_eq_applyTo`: all declarations of the application count.
* `isDirect_iff_of_gives_assemble` puts them together, and the edges with them.
-/

namespace ArtifactGraph

/-! ## What the application declares -/

theorem ScopePolicy.mappings_filter_eq_nil (policy : ScopePolicy) :
    (policy.mappings false).filter (fun row => row.2 == .test) = [] := by
  rw [← mappings_filter_not_test, List.filter_filter, List.filter_eq_nil_iff]
  intro row _
  simp

/-- Unless tests are run, a project declares nothing for them. -/
theorem isTestScoped_eq_false_of_declaredByProject {c : Circumstances} {p : ProjectComponent}
    {l : List DeclaredDependency} (hmode : c.mode.isTest = false)
    (h : c.declaredByProject p = .ok l) : ∀ d ∈ l, d.isTestScoped = false := by
  obtain ⟨build, project, rows, -, hrows, rfl⟩ := exists_rows_of_declaredByProject h
  rw [hmode] at hrows
  have htest := Build.declaredUnder_filter (q := (· == .test))
    (fun _ _ => DeclaredDependency.isTestScoped_of_scope) hrows
  rw [ScopePolicy.mappings_filter_eq_nil] at htest
  have hnone : rows.filter (·.isTestScoped) = [] := (Except.ok.inj htest).symm
  intro d hd
  simpa using List.filter_eq_nil_iff.1 hnone d (mem_firstOccurrences.1 hd)

/-- Whatever a project declares counts for the application itself. -/
theorem filter_isRetained_eq_self {c : Circumstances} {p : ProjectComponent}
    {l : List DeclaredDependency} (h : c.declaredByProject p = .ok l) :
    l.filter (·.isRetained c.mode.isTest) = l := by
  rw [List.filter_eq_self]
  intro d hd
  rw [DeclaredDependency.isRetained]
  cases hmode : c.mode.isTest with
  | true => exact Bool.or_true _
  | false => rw [isTestScoped_eq_false_of_declaredByProject hmode h d hd, Bool.not_false,
      Bool.true_or]

namespace ApplicationModel

theorem retainsTests_application (m : ApplicationModel) (mode : LaunchMode) :
    m.retainsTests mode m.application = mode.isTest := by
  rw [retainsTests, isApplication, beq_self_eq_true, Bool.or_true, Bool.and_true]

end ApplicationModel

namespace BuildModel

/-! ## Nodes -/

/-- A node is direct if it was resolved so or its key is among the direct ones. -/
theorem has_flags_nodeOf_direct {direct : List ArtifactKey} {e : ResolvedNode} :
    (nodeOf direct e).flags.has .direct = true ↔
      e.flags.has .direct = true ∨ e.coordinates.key ∈ direct := by
  rw [Flags.has_eq_getLsbD, getLsbD_nodeOf_iff, ← Flags.has_eq_getLsbD, exists_marked_iff]
  simp [Flag.position]

variable {σ : Type} {env : Surroundings (StateM σ)} {policy : ScopePolicy}
  {requested : Option LaunchMode} {doc : BuildModel} {s t : σ}

namespace Course

/-! ## The application -/

/-- The application has the edges and the records of all that its project declares. -/
theorem application_eq_applyTo (course : Course env policy requested doc s) :
    ∃ declared seed,
      course.direct = doc.directKeys declared ∧
      course.result.model.application = DirectDependencies.applyTo
        { dependencies := declared.filterMap fun d =>
            (course.result.model.get? d.key).map (·.coordinates)
          directDependencies := declared.map fun d =>
            d.matchedRecord (course.result.model.get? d.key) } seed := by
  obtain ⟨declared, hproject, hopened⟩ := course.exists_opened_eq
  have hfound : course.opened.finding? course.key = some (.declared declared) := by
    rw [hopened]
    exact Session.finding?_cons_self [] course.key _
  have hknown : course.complete.declared? course.result.model.application.key = some declared := by
    rw [course.key_application_result, Session.declared?,
      finding?_of_gives_collectNodes course.gives_complete hfound]
    rfl
  obtain ⟨seed, hseed⟩ := course.eq_applyTo_of_mem_artifacts List.mem_cons_self hknown
  have hretained : declared.filter (·.isRetained course.result.mode.isTest) = declared :=
    filter_isRetained_eq_self hproject
  refine ⟨declared, seed, ?_, ?_⟩
  · rw [Course.direct, Session.declared?, hfound]
    rfl
  · rw [ApplicationModel.retainsTests_application] at hseed
    rw [hseed]
    congr 1
    have hedges := course.result.model.dependencies_reconcile course.result.mode.isTest declared
    rw [hretained] at hedges
    rw [← hedges, ApplicationModel.reconcile, hretained]

end Course

/-- Where the document does not list the direct dependencies of the application, a node is direct
exactly when the last artifact with its key was resolved so or the application has a record with its
key. In the latter case the application has an edge to the node, too. -/
theorem isDirect_iff_of_gives_assemble {result : Assembled}
    (h : Gives (doc.assemble env policy requested) s (.ok result) t)
    (hunlisted : doc.applicationDependencies = none) {n : ResolvedArtifact}
    (hn : n ∈ result.model.nodes) :
    ∃ last, doc.resolved.reverse.find? (·.coordinates.key == n.key) = some last ∧
      (n.isDirect = true ↔ last.flags.has .direct = true ∨
        ∃ r ∈ result.model.application.directDependencies, r.key = n.key) ∧
      ((∃ r ∈ result.model.application.directDependencies, r.key = n.key) →
        n.coordinates ∈ result.model.application.dependencies) := by
  obtain ⟨course, rfl⟩ := exists_course_of_gives_assemble h
  obtain ⟨last, hlast, -, hbare, -⟩ := course.exists_last_of_mem hn
  obtain ⟨declared, seed, hdirect, happlication⟩ := course.application_eq_applyTo
  have hlastkey : last.coordinates.key = n.key := by simpa using List.find?_some hlast
  have hflags : n.flags = (nodeOf course.direct last).flags := (ResolvedArtifact.mk.inj hbare).2.1
  have hkeys : course.direct = declared.map (·.key) := by
    rw [hdirect, directKeys, hunlisted, Option.getD_none]
  -- A record has the key of its declaration, whatever it is matched with.
  have hrecords : (∃ r ∈ course.result.model.application.directDependencies, r.key = n.key) ↔
      ∃ d ∈ declared, d.key = n.key := by
    rw [happlication]
    simp [DirectDependencies.applyTo]
  refine ⟨last, hlast, ?_, ?_⟩
  · rw [ResolvedArtifact.isDirect, hflags, has_flags_nodeOf_direct, hrecords, hkeys, hlastkey,
      List.mem_map]
  · intro hrecord
    obtain ⟨d, hd, hkey⟩ := hrecords.1 hrecord
    have hfound : course.result.model.get? d.key = some n := by
      rw [hkey]
      exact course.wellKeyed_model_result.get?_key hn
    rw [happlication]
    exact List.mem_filterMap.2 ⟨d, hd, by rw [hfound, Option.map_some]⟩

/-- The artifact that only tests need, as a node. -/
def testedLibraryNode : ResolvedArtifact :=
  { coordinates := testedLibrary, flags := .of .direct }

/-- In test mode what is declared for tests makes a node direct and is recorded. -/
theorem isDirect_iff_tested :
    Gives (tested.assemble emptySurroundings default (some .test)) () (.ok testedResult) () ∧
      tested.applicationDependencies = none ∧ testedLibraryNode ∈ testedResult.model.nodes ∧
      (∃ last, tested.resolved.reverse.find? (·.coordinates.key == testedLibraryNode.key) =
          some last ∧
        (testedLibraryNode.isDirect = true ↔ last.flags.has .direct = true ∨
          ∃ r ∈ testedResult.model.application.directDependencies,
            r.key = testedLibraryNode.key)) ∧
      testedLibraryNode.coordinates ∈ testedResult.model.application.dependencies := by
  have hmem : testedLibraryNode ∈ testedResult.model.nodes :=
    List.mem_cons_of_mem _ (List.mem_cons_of_mem _ List.mem_cons_self)
  obtain ⟨last, hlast, hdirect, hedge⟩ :=
    isDirect_iff_of_gives_assemble gives_assemble_tested rfl hmem
  exact ⟨gives_assemble_tested, rfl, hmem, ⟨last, hlast, hdirect⟩, hedge (by decide)⟩

end BuildModel

end ArtifactGraph
