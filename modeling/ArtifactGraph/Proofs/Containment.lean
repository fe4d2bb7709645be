import ArtifactGraph.Proofs.Origins
import Mathlib.Data.List.Forall2

/-!
# What repositories can change

A run locates POMs, and what it finds may be anything: no POM, a text that is none, a POM without an
effective model, or one with other dependencies than yesterday.  None of this can end a run, and
none of it reaches the application or what comes from a project.

Two runs on one document are compared, in surroundings that have nothing in common.

* `seeded_eq`: they begin with the same model, since the application is a project.
* `Agrees` is what the results of both have in common, and `agrees_of_gives_assemble` says that
  both fail in the same way or give such results.
-/

namespace ArtifactGraph

namespace BuildModel

/-- Whether two results of a document are the same but for the edges and records of the nodes that
come from modules, and for what is counted of these. -/
structure Agrees (doc : BuildModel) (result result' : Assembled) : Prop where
  mode : result.mode = result'.mode
  application : result.model.application = result'.model.application
  nodes : List.Forall₂
    (fun n n' => n.coordinates = n'.coordinates ∧ n.flags = n'.flags ∧
      ∀ p, doc.firstComponent? n.key = some (.project p) →
        n.dependencies = n'.dependencies ∧ n.directDependencies = n'.directDependencies)
    result.model.nodes result'.model.nodes
  looked : result.statistics.collected + result.statistics.unresolved =
    result'.statistics.collected + result'.statistics.unresolved

variable {σ σ' : Type} {env : Surroundings (StateM σ)} {env' : Surroundings (StateM σ')}
  {policy : ScopePolicy} {requested : Option LaunchMode} {doc : BuildModel} {s t : σ} {s' t' : σ'}

namespace Course

variable (course : Course env policy requested doc s)
  (course' : Course env' policy requested doc s')

theorem project_eq_project : course.project = course'.project := by
  have hfound := course.project_eq.symm.trans course'.project_eq
  exact (Prod.mk.inj (Except.ok.inj hfound)).2

theorem key_eq_key : course.key = course'.key := by
  rw [key, project_eq_project course course', key]

/-- Both runs begin with the same model. -/
theorem seeded_eq_seeded : course.seeded = course'.seeded := by
  obtain ⟨l, hl, hopened⟩ := course.exists_opened_eq
  obtain ⟨l', hl', hopened'⟩ := course'.exists_opened_eq
  cases hl.symm.trans hl'
  rw [seeded, seeded, hopened, hopened', project_eq_project course course',
    key_eq_key course course']

/-- Both runs hold the same for a key that comes from a project. -/
theorem declared?_eq_of_origin {k : ArtifactKey} {p : ProjectComponent}
    (hp : doc.origin? course.key k = some (.project p)) :
    course.complete.declared? k = course'.complete.declared? k := by
  obtain ⟨l, hl, hheld⟩ := course.exists_declared?_of_origin hp
  rw [key_eq_key course course'] at hp
  obtain ⟨l', hl', hheld'⟩ := course'.exists_declared?_of_origin hp
  cases hl.symm.trans hl'
  rw [hheld, hheld']

theorem settled_eq_of_origin {a : ResolvedArtifact} {p : ProjectComponent}
    (hp : doc.origin? course.key a.key = some (.project p)) (mode : LaunchMode)
    (m : ApplicationModel) :
    course.complete.settled mode m a = course'.complete.settled mode m a := by
  rw [Session.settled, Session.settled, declared?_eq_of_origin course course' hp]

theorem keys_eq_keys : course.complete.keys = course'.complete.keys :=
  Except.ok.inj (course.looked_eq.symm.trans course'.looked_eq)

theorem looked_statistics_result : course.result.statistics.collected +
    course.result.statistics.unresolved = course.complete.keys.length :=
  course.complete.collectedCount_add_unresolvedCount

/-- Every artifact that comes from a project ends alike. -/
theorem agrees : doc.Agrees course.result course'.result := by
  have hmodel := course.model_result
  have hmodel' := course'.model_result
  rw [← seeded_eq_seeded course course'] at hmodel'
  constructor
  · rfl
  · rw [hmodel, hmodel']
    exact settled_eq_of_origin course course'
      (by rw [origin?, if_pos course.key_application_seeded]) _ _
  · rw [hmodel, hmodel']
    unfold ApplicationModel.mapArtifacts
    rw [List.forall₂_map_left_iff, List.forall₂_map_right_iff, List.forall₂_same]
    intro n hn
    have hbare : (course.complete.settled (doc.launchModeOf requested) course.seeded n).bare =
        (course'.complete.settled (doc.launchModeOf requested) course.seeded n).bare := by
      rw [Session.bare_settled, Session.bare_settled]
    obtain ⟨hcoordinates, hflags, -, -⟩ := ResolvedArtifact.mk.inj hbare
    refine ⟨hcoordinates, hflags, ?_⟩
    intro p hp
    have hplain : n.key ≠ course.key := by
      rw [← course.key_application_seeded]
      exact (doc.wellKeyed_seed _ _).key_ne hn
    rw [Session.key_settled] at hp
    have horigin : doc.origin? course.key n.key = some (.project p) := by
      rw [origin?, if_neg hplain, hp]
    rw [settled_eq_of_origin course course' horigin]
    exact ⟨rfl, rfl⟩
  · rw [looked_statistics_result, looked_statistics_result, keys_eq_keys course course']

end Course

/-- Whatever two runs on one document find in their repositories, they fail alike, for a reason that
lies in the workspace, or they give results that agree on the application, on what nodes there
are and on those that come from projects. -/
theorem agrees_of_gives_assemble {r : Except Failure Assembled} {r' : Except Failure Assembled}
    (h : Gives (doc.assemble env policy requested) s r t)
    (h' : Gives (doc.assemble env' policy requested) s' r' t') :
    (∃ e, e.OfWorkspace ∧ r = .error e ∧ r' = .error e) ∨
      ∃ result result', r = .ok result ∧ r' = .ok result' ∧ doc.Agrees result result' := by
  rcases looked_of_gives_assemble h with ⟨e, rfl, hlooked⟩ | ⟨course, rfl, hlooked⟩
  · rcases looked_of_gives_assemble h' with ⟨e', rfl, hlooked'⟩ | ⟨course', rfl, hlooked'⟩
    · cases hlooked.symm.trans hlooked'
      exact Or.inl ⟨e, ofWorkspace_of_looked hlooked, rfl, rfl⟩
    · cases hlooked.symm.trans hlooked'
  · rcases looked_of_gives_assemble h' with ⟨e', rfl, hlooked'⟩ | ⟨course', rfl, hlooked'⟩
    · cases hlooked.symm.trans hlooked'
    · exact Or.inr ⟨_, _, rfl, rfl, course.agrees course'⟩

/-! ## A module with a POM and without -/

/-- The application with a project and a module. -/
def mixed : BuildModel :=
  { sharedKey with
    resolved :=
      [projectNode ":one" "1",
        { component := .module ⟨"g", "m", "1"⟩
          coordinates := { groupId := "g", artifactId := "m", version := "1" }
          dependencies := [{ groupId := "x", artifactId := "b", version := "1" }] }] }

/-- The result, given the node of the module and what is counted. -/
def mixedResult (moduleNode : ResolvedArtifact) (statistics : Statistics) : Assembled :=
  { model :=
      { application :=
          { coordinates := { groupId := "g", artifactId := "app", version := "1" }
            flags := .of .workspaceModule }
        nodes :=
          [{ coordinates := { groupId := "g", artifactId := "lib", version := "1" }
             flags := .of .workspaceModule
             directDependencies :=
              [{ groupId := "x", artifactId := "a", version := some "1"
                 flags := (Flags.of .missingFromApplication).add .direct }] },
            moduleNode] }
    mode := .normal, statistics }

/-- The module as it was resolved. -/
def exportedModule : ResolvedArtifact :=
  { coordinates := { groupId := "g", artifactId := "m", version := "1" }
    dependencies := [{ groupId := "x", artifactId := "b", version := "1" }] }

/-- The module with what its POM declares. -/
def declaringModule : ResolvedArtifact :=
  { coordinates := { groupId := "g", artifactId := "m", version := "1" }
    directDependencies := List.replicate 2
      { groupId := "x", artifactId := "a"
        flags := (Flags.of .missingFromApplication).add .direct } }

theorem gives_assemble_mixed_empty :
    Gives (mixed.assemble emptySurroundings default none) ()
      (.ok (mixedResult exportedModule ⟨2, 1, 2, 1⟩)) () :=
  gives_ok_of_toOption (by decide +kernel)

theorem gives_assemble_mixed_repeating :
    Gives (mixed.assemble Session.repeatingSurroundings default none) ()
      (.ok (mixedResult declaringModule ⟨3, 0, 3, 3⟩)) () := by
  simp only [mixed, assemble, collectNodes, Session.collect, examine, declaredByModule,
    EffectiveModel.build, Session.repeatingSurroundings, Pom.fetch_locator]
  exact gives_ok_of_toOption (by decide +kernel)

/-- The two results agree, and differ in the node of the module. -/
theorem agrees_mixed :
    Gives (mixed.assemble emptySurroundings default none) ()
        (.ok (mixedResult exportedModule ⟨2, 1, 2, 1⟩)) () ∧
      Gives (mixed.assemble Session.repeatingSurroundings default none) ()
        (.ok (mixedResult declaringModule ⟨3, 0, 3, 3⟩)) () ∧
      mixed.Agrees (mixedResult exportedModule ⟨2, 1, 2, 1⟩)
        (mixedResult declaringModule ⟨3, 0, 3, 3⟩) ∧
      exportedModule ≠ declaringModule := by
  refine ⟨gives_assemble_mixed_empty, gives_assemble_mixed_repeating, ?_, by decide⟩
  rcases agrees_of_gives_assemble gives_assemble_mixed_empty gives_assemble_mixed_repeating with
    ⟨e, -, he, -⟩ | ⟨result, result', hresult, hresult', hagrees⟩
  · cases he
  · cases hresult
    cases hresult'
    exact hagrees

end BuildModel

end ArtifactGraph
