import ArtifactGraph.Proofs.Edges
import ArtifactGraph.Proofs.Records

/-!
# Declarations without a counterpart

A record says that the graph has no counterpart of a declaration.  But a record also takes over the
flags of its counterpart, and a node may have been resolved with this very flag.  Then the record
says of a declaration that has a counterpart, with an edge to it, that it has none.

* `isMissing_matchedRecord`: the two reasons for the flag.
* `isMissing_iff_iff_unmarked` and `map_coordinates?_iff_unmarked`: the flag means what it says
  exactly when no declaration has a counterpart with this flag.
* `countP_isMissing`: what is counted, both reasons apart.
* `missing_iff_unmarked`: all of it, for lists of declarations and for runs.
-/

namespace ArtifactGraph

namespace ApplicationModel

/-- Whether the graph has no counterpart of a declaration. -/
def isLeftOut (m : ApplicationModel) (d : DeclaredDependency) : Bool := (m.get? d.key).isNone

/-- Whether the counterpart of a declaration has itself the flag that says there is none. -/
def isMarked (m : ApplicationModel) (d : DeclaredDependency) : Bool :=
  (m.get? d.key).any (·.flags.has .missingFromApplication)

/-- Whether no declaration of a list has such a counterpart. -/
def Unmarked (m : ApplicationModel) (ds : List DeclaredDependency) : Prop :=
  ∀ d ∈ ds, m.isMarked d = false

variable (m : ApplicationModel)

theorem unmarked_iff_countP {ds : List DeclaredDependency} :
    m.Unmarked ds ↔ ds.countP m.isMarked = 0 := by
  rw [List.countP_eq_zero]
  exact forall₂_congr fun d _ => Bool.not_eq_true _ ▸ Iff.rfl

/-- Where no node has the flag, no declaration can have such a counterpart. -/
theorem unmarked_of_nodes (h : ∀ n ∈ m.nodes, n.flags.has .missingFromApplication = false)
    (ds : List DeclaredDependency) : m.Unmarked ds := by
  intro d _
  unfold isMarked
  cases hfound : m.get? d.key with
  | none => rfl
  | some n => exact h n (List.mem_of_find?_eq_some hfound)

/-! ## One record -/

/-- A record has the flag for one of two reasons. -/
theorem isMissing_matchedRecord (d : DeclaredDependency) :
    (d.matchedRecord (m.get? d.key)).isMissing = (m.isLeftOut d || m.isMarked d) := by
  rw [DirectDependency.isMissing, DeclaredDependency.has_flags_matchedRecord, isLeftOut, isMarked]
  cases m.get? d.key <;> rfl

theorem isMissing_iff_iff (d : DeclaredDependency) :
    ((d.matchedRecord (m.get? d.key)).isMissing = true ↔
      m.get? (d.matchedRecord (m.get? d.key)).key = none) ↔ m.isMarked d = false := by
  rw [isMissing_matchedRecord, DeclaredDependency.key_matchedRecord, isLeftOut]
  cases hfound : m.get? d.key with
  | none => simp [isMarked, hfound]
  | some n => simp

/-! ## Lists of records -/

/-- The flag says on every record what it should exactly when no declaration has a counterpart with
the flag. -/
theorem isMissing_iff_iff_unmarked (ds : List DeclaredDependency) :
    (∀ r ∈ ds.map fun d => d.matchedRecord (m.get? d.key),
      r.isMissing = true ↔ m.get? r.key = none) ↔ m.Unmarked ds := by
  rw [List.forall_mem_map]
  exact forall₂_congr fun d _ => m.isMissing_iff_iff d

/-- The records with the flag are those of declarations that are left out and those of declarations
whose counterpart has the flag. -/
theorem countP_isMissing (ds : List DeclaredDependency) :
    (ds.map fun d => d.matchedRecord (m.get? d.key)).countP (·.isMissing) =
      ds.countP m.isLeftOut + ds.countP m.isMarked := by
  induction ds with
  | nil => rfl
  | cons d rest ih =>
    rw [List.map_cons, List.countP_cons, List.countP_cons, List.countP_cons, ih,
      isMissing_matchedRecord]
    -- No declaration counts for both reasons.
    cases hfound : m.get? d.key with
    | none =>
      simp only [isLeftOut, isMarked, hfound, Option.isNone_none, Option.any_none, Bool.or_false,
        if_true, Bool.false_eq_true, if_false]
      omega
    | some n =>
      simp only [isLeftOut, isMarked, hfound, Option.isNone_some, Option.any_some, Bool.false_or,
        Bool.false_eq_true, if_false]
      omega

/-- An edge has the coordinates of its record. -/
theorem map_coordinates?_of_unmarked {ds : List DeclaredDependency} (h : m.Unmarked ds) :
    ((ds.map fun d => d.matchedRecord (m.get? d.key)).filter (!·.isMissing)).map (·.coordinates?) =
      (ds.filterMap fun d =>
        (m.get? d.key).map fun n => d.key.withVersion n.coordinates.version).map some := by
  induction ds with
  | nil => rfl
  | cons d rest ih =>
    obtain ⟨hd, hrest⟩ := List.forall_mem_cons.1 h
    have hmissing := m.isMissing_matchedRecord d
    rw [hd, Bool.or_false, isLeftOut] at hmissing
    rw [List.map_cons]
    cases hfound : m.get? d.key with
    | none =>
      rw [hfound] at hmissing
      rw [List.filter_cons_of_neg (by simp [hmissing]), ih hrest,
        List.filterMap_cons_none (by rw [hfound, Option.map_none])]
    | some n =>
      rw [hfound] at hmissing
      rw [List.filter_cons_of_pos (by simp [hmissing]), List.map_cons, ih hrest,
        List.filterMap_cons_some (by rw [hfound, Option.map_some]), List.map_cons]
      rfl

/-- The edges are more than the records without the flag by the counterparts that have it. -/
theorem length_filter_not_isMissing (ds : List DeclaredDependency) :
    ((ds.map fun d => d.matchedRecord (m.get? d.key)).filter (!·.isMissing)).length +
        ds.countP m.isMarked =
      (ds.filterMap fun d =>
        (m.get? d.key).map fun n => d.key.withVersion n.coordinates.version).length := by
  have hrecords := List.length_eq_countP_add_countP (·.isMissing)
    (l := ds.map fun d => d.matchedRecord (m.get? d.key))
  have hedges := List.length_eq_countP_add_countP m.isLeftOut (l := ds)
  have hfound : ds.countP (fun d => ((m.get? d.key).map fun n =>
      d.key.withVersion n.coordinates.version).isSome) =
      ds.countP fun d => decide ¬ m.isLeftOut d = true := by
    congr 1
    funext d
    rw [isLeftOut]
    cases m.get? d.key <;> rfl
  rw [List.length_map, m.countP_isMissing] at hrecords
  rw [← List.countP_eq_length_filter, List.length_filterMap_eq_countP, hfound]
  simp only [Bool.not_eq_true, Bool.decide_eq_false] at hrecords hedges ⊢
  omega

/-- The records without the flag stand for the edges, one by one, exactly when no declaration has a
counterpart with the flag. -/
theorem map_coordinates?_iff_unmarked (ds : List DeclaredDependency) :
    ((ds.map fun d => d.matchedRecord (m.get? d.key)).filter (!·.isMissing)).map (·.coordinates?) =
        (ds.filterMap fun d =>
          (m.get? d.key).map fun n => d.key.withVersion n.coordinates.version).map some ↔
      m.Unmarked ds := by
  constructor
  · intro h
    have hlength := congrArg List.length h
    rw [List.length_map, List.length_map, ← m.length_filter_not_isMissing] at hlength
    rw [unmarked_iff_countP]
    omega
  · exact m.map_coordinates?_of_unmarked

end ApplicationModel

namespace BuildModel

variable {σ : Type} {env : Surroundings (StateM σ)} {policy : ScopePolicy}
  {requested : Option LaunchMode} {doc : BuildModel} {s : σ}

/-! ## Runs -/

namespace Course

/-- All declarations that count, of the application and then of the nodes. -/
def counted (course : Course env policy requested doc s) : List DeclaredDependency :=
  course.result.model.artifacts.flatMap fun a =>
    ((course.complete.declared? a.key).getD []).filter
      (·.isRetained (course.result.model.retainsTests course.result.mode a))

theorem flatMap_directDependencies (course : Course env policy requested doc s) :
    course.result.model.artifacts.flatMap (·.directDependencies) =
      course.counted.map fun d => d.matchedRecord (course.result.model.get? d.key) := by
  rw [counted, List.map_flatMap, List.flatMap_def, List.flatMap_def]
  congr 1
  exact List.map_congr_left fun a ha => course.directDependencies_of_mem_artifacts ha

/-- What a run counts as missing are the declarations that are left out and those whose counterpart
has the flag. -/
theorem missing_statistics_result (course : Course env policy requested doc s) :
    course.result.statistics.missing =
      course.counted.countP course.result.model.isLeftOut +
        course.counted.countP course.result.model.isMarked := by
  have hcount : course.result.statistics.missing = course.result.model.missingCount := rfl
  rw [hcount, ApplicationModel.missingCount, course.flatMap_directDependencies,
    ApplicationModel.countP_isMissing]

end Course

/-- The flag that says that there is no counterpart is on the records of those declarations that
have none, the other records stand one by one for the edges, and a run counts the declarations that
are left out: each of these exactly when no declaration that counts has a counterpart with the
flag. -/
theorem missing_iff_unmarked (m : ApplicationModel) (retainTest : Bool)
    (declared : List DeclaredDependency) :
    ((∀ r ∈ (m.reconcile retainTest declared).directDependencies,
        r.isMissing = true ↔ m.get? r.key = none) ↔
      m.Unmarked (declared.filter (·.isRetained retainTest))) ∧
    (((m.reconcile retainTest declared).directDependencies.filter (!·.isMissing)).map
        (·.coordinates?) = (m.reconcile retainTest declared).dependencies.map some ↔
      m.Unmarked (declared.filter (·.isRetained retainTest))) ∧
    ∀ {σ : Type} {env : Surroundings (StateM σ)} {policy : ScopePolicy}
      {requested : Option LaunchMode} {doc : BuildModel} {result : Assembled} {s t : σ},
      Gives (doc.assemble env policy requested) s (.ok result) t →
        ∃ course : Course env policy requested doc s, result = course.result ∧
          (result.statistics.missing = course.counted.countP result.model.isLeftOut ↔
            result.model.Unmarked course.counted) := by
  refine ⟨m.isMissing_iff_iff_unmarked _, m.map_coordinates?_iff_unmarked _, ?_⟩
  intro σ env policy requested doc result s t h
  obtain ⟨course, rfl⟩ := exists_course_of_gives_assemble h
  refine ⟨course, rfl, ?_⟩
  rw [course.missing_statistics_result, ApplicationModel.unmarked_iff_countP]
  omega

/-- What the application of `adopting` declares. -/
def adoptingDeclarations : List DeclaredDependency :=
  [.ofBuildScript "g" "lib" (some "9") "compile", .ofBuildScript "g" "app" none "compile",
    .ofBuildScript "x" "none" (some "1") "compile"]

/-- In a run in which no node has the flag, the flag is where it belongs and the declarations that
are left out are counted. -/
theorem missing_adopting :
    (∀ r ∈ (adoptingResult.model.reconcile false adoptingDeclarations).directDependencies,
      r.isMissing = true ↔ adoptingResult.model.get? r.key = none) ∧
    Gives (adopting.assemble emptySurroundings default none) () (.ok adoptingResult) () ∧
    ∃ course : Course emptySurroundings default none adopting (),
      adoptingResult = course.result ∧
      adoptingResult.statistics.missing =
        course.counted.countP adoptingResult.model.isLeftOut := by
  obtain ⟨hrecords, -, hruns⟩ :=
    missing_iff_unmarked adoptingResult.model false adoptingDeclarations
  obtain ⟨course, hresult, hcounts⟩ := hruns gives_assemble_adopting
  have hunmarked := adoptingResult.model.unmarked_of_nodes (by decide)
  exact ⟨hrecords.2 (hunmarked _), gives_assemble_adopting, course, hresult,
    hcounts.2 (hunmarked _)⟩

/-! ## A node that was resolved with the flag -/

/-- An application that declares an artifact of the graph. -/
def marked : BuildModel :=
  { sharedKey with
    workspace :=
      { root :=
          { projects :=
              [{ path := ":", group := "g", name := "app", version := "1"
                 configurations := [("api", [.external "x" "a" (some "1")])] }] } }
    resolved :=
      [{ component := .module ⟨"x", "a", "1"⟩
         coordinates := { groupId := "x", artifactId := "a", version := "1" }
         flags := .of .missingFromApplication }] }

def markedNode : ResolvedArtifact :=
  { coordinates := { groupId := "x", artifactId := "a", version := "1" }
    flags := (Flags.of .missingFromApplication).add .direct }

def markedResult : Assembled :=
  { model :=
      { application :=
          { coordinates := { groupId := "g", artifactId := "app", version := "1" }
            flags := .of .workspaceModule
            dependencies := [markedNode.coordinates]
            directDependencies :=
              [{ groupId := "x", artifactId := "a", version := some "1"
                 flags := (Flags.of .missingFromApplication).add .direct }] }
        nodes := [markedNode] }
    mode := .normal
    statistics := { collected := 1, unresolved := 1, reconciled := 1, missing := 1 } }

theorem gives_assemble_marked :
    Gives (marked.assemble emptySurroundings default none) () (.ok markedResult) () :=
  gives_ok_of_toOption (by decide +kernel)

/-- The application has an edge to the node and a record that says there is none, which is counted
as missing. -/
theorem isMissing_with_counterpart :
    Gives (marked.assemble emptySurroundings default none) () (.ok markedResult) () ∧
      (∃ r ∈ markedResult.model.application.directDependencies,
        r.isMissing = true ∧ markedResult.model.get? r.key = some markedNode ∧
        r.coordinates? = some markedNode.coordinates ∧
        markedNode.coordinates ∈ markedResult.model.application.dependencies) ∧
      markedResult.statistics.missing = 1 ∧
      ¬ ∀ r ∈ (markedResult.model.reconcile false
          [.ofBuildScript "x" "a" (some "1") "compile"]).directDependencies,
        (r.isMissing = true ↔ markedResult.model.get? r.key = none) :=
  ⟨gives_assemble_marked, by decide, rfl, by decide⟩

end BuildModel

end ArtifactGraph
