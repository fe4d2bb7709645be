import ArtifactGraph.Proofs.Origins

/-!
# What seeding puts into a model

The nodes of a model are put there before anything is reconciled.  Resolved artifacts may share a
key, and one may have the key of the application; the flags of a node come from three sources.

* Keys.  `keys_seedNodes`: the nodes have the keys of the resolved artifacts but the application's,
  in the order in which these occur for the first time.
* Flags.  `Marked` are the flags that an artifact gets besides those it was resolved with, and
  `getLsbD_nodeOf_iff` says of every single bit whether it is set.
* The end.  `Course.keys_model_result`, `Course.eq_nodeOf_of_declared?_eq_none` and
  `Course.exists_fault_of_declared?_eq_none` say what is left of this when everything is reconciled,
  and `nodes_eq_of_gives_assemble` puts all of it together.
-/

namespace ArtifactGraph

namespace BuildModel

/-! ## Keys -/

/-- A seeded artifact with a new key comes last, and one with a key that is taken changes no key. It
is enough to remember which keys are taken. -/
theorem keys_seedNodes (direct : List ArtifactKey) (m : ApplicationModel)
    (nodes : List ResolvedNode) {seen : List ArtifactKey} (hseen : ∀ k, k ∈ seen ↔ k ∈ m.keys) :
    (seedNodes direct m nodes).keys = m.keys ++ firstOccurrencesBut seen
      ((nodes.map (·.coordinates.key)).filter (· ≠ m.application.key)) := by
  induction nodes generalizing m seen with
  | nil => exact (List.append_nil _).symm
  | cons n rest ih =>
    rw [seedNodes_cons, List.map_cons]
    by_cases happlication : m.application.key = n.coordinates.key
    · have hskip : m.isApplication n.coordinates.key = true := beq_iff_eq.2 happlication
      rw [if_pos hskip, ih m hseen, List.filter_cons_of_neg (by simp [happlication])]
    · have hplain : m.isApplication n.coordinates.key = false := beq_eq_false_iff_ne.2 happlication
      rw [hplain, if_neg Bool.false_ne_true,
        List.filter_cons_of_pos (by simpa using Ne.symm happlication), firstOccurrencesBut]
      have hkeys := ApplicationModel.keys_add m (nodeOf direct n)
      rw [key_nodeOf] at hkeys
      by_cases htaken : n.coordinates.key ∈ m.keys
      · rw [if_pos htaken] at hkeys
        rw [if_pos ((hseen _).2 htaken), ih _ (by rw [hkeys]; exact hseen), hkeys]
        rfl
      · rw [if_neg htaken] at hkeys
        have hseen' (k : ArtifactKey) :
            k ∈ n.coordinates.key :: seen ↔ k ∈ (m.add (nodeOf direct n)).keys := by
          rw [hkeys, List.mem_cons, List.mem_append, List.mem_singleton, hseen, or_comm]
        rw [if_neg (mt (hseen _).1 htaken), ih _ hseen', hkeys, List.append_assoc]
        rfl

/-! ## Flags -/

/-- The flags that a resolved artifact gets in the model, whatever it was resolved with. -/
inductive Marked (direct : List ArtifactKey) (e : ResolvedNode) : Flag → Prop
  | project {p : ProjectComponent} (hproject : e.component = .project p) :
      Marked direct e .workspaceModule
  | direct (hdirect : e.coordinates.key ∈ direct) : Marked direct e .direct

/-- The flags come from two places. -/
theorem exists_marked_iff {direct : List ArtifactKey} {e : ResolvedNode} {P : Flag → Prop} :
    (∃ f, Marked direct e f ∧ P f) ↔
      ((∃ p, e.component = .project p) ∧ P .workspaceModule) ∨
        (e.coordinates.key ∈ direct ∧ P .direct) := by
  constructor
  · intro hmarked
    obtain ⟨f, hf, hP⟩ := hmarked
    cases hf with
    | project hproject => exact Or.inl ⟨⟨_, hproject⟩, hP⟩
    | direct hdirect => exact Or.inr ⟨hdirect, hP⟩
  · intro hplace
    rcases hplace with ⟨⟨p, hproject⟩, hP⟩ | ⟨hdirect, hP⟩
    · exact ⟨_, .project hproject, hP⟩
    · exact ⟨_, .direct hdirect, hP⟩

/-- Every bit of a node is one that the artifact was resolved with or that of a flag it gets, also
the bits that no flag has. -/
theorem getLsbD_nodeOf_iff {direct : List ArtifactKey} {e : ResolvedNode} {i : Nat} :
    (nodeOf direct e).flags.bits.getLsbD i = true ↔
      e.flags.bits.getLsbD i = true ∨ ∃ f, Marked direct e f ∧ f.position = i := by
  rw [exists_marked_iff]
  by_cases hdirect : e.coordinates.key ∈ direct
  · cases hcomponent : e.component with
    | project p => simp [nodeOf, hcomponent, hdirect, Flags.getLsbD_add, or_assoc]
    | module gav => simp [nodeOf, hcomponent, hdirect, Flags.getLsbD_add]
  · cases hcomponent : e.component with
    | project p => simp [nodeOf, hcomponent, hdirect, Flags.getLsbD_add]
    | module gav => simp [nodeOf, hcomponent, hdirect]

/-! ## The end -/

namespace Course

variable {σ : Type} {env : Surroundings (StateM σ)} {policy : ScopePolicy}
  {requested : Option LaunchMode} {doc : BuildModel} {s : σ}

theorem keys_model_result (course : Course env policy requested doc s) :
    course.result.model.keys =
      firstOccurrences ((doc.resolved.map (·.coordinates.key)).filter (· ≠ course.key)) := by
  have hkeys : course.result.model.keys = course.seeded.keys := by
    rw [course.model_result]
    exact ApplicationModel.keys_mapArtifacts fun a =>
      Session.bare_settled course.complete _ course.seeded a
  have hempty (k : ArtifactKey) :
      k ∈ [] ↔ k ∈ (applicationOnly course.project.coordinates).keys := Iff.rfl
  rw [hkeys, seeded, seed, keys_seedNodes _ _ _ hempty]
  rfl

/-- Where no declarations are known, a node is still the one that was put into the model. -/
theorem eq_nodeOf_of_declared?_eq_none (course : Course env policy requested doc s)
    {n : ResolvedArtifact} (hn : n ∈ course.result.model.nodes)
    (hdeclared : course.complete.declared? n.key = none) {last : ResolvedNode}
    (hlast : doc.resolved.reverse.find? (·.coordinates.key == n.key) = some last) :
    n = nodeOf course.direct last := by
  obtain ⟨last', hlast', -, -, hsettled⟩ := course.exists_last_of_mem hn
  cases hlast.symm.trans hlast'
  rwa [hdeclared] at hsettled

/-- Where no declarations are known, the first artifact with the key is a module whose POM has no
effective model. -/
theorem exists_fault_of_declared?_eq_none (course : Course env policy requested doc s)
    {n : ResolvedArtifact} (hn : n ∈ course.result.model.nodes)
    (hdeclared : course.complete.declared? n.key = none) :
    ∃ gav fault u v, doc.firstComponent? n.key = some (.module gav) ∧
      Gives (declaredByModule env gav).run u (.error fault) v := by
  obtain ⟨component, horigin⟩ := course.exists_origin_of_mem (List.mem_cons_of_mem _ hn)
  obtain ⟨u, hknown⟩ := course.exists_knownOf_origin horigin
  obtain ⟨gav, fault, v, rfl, hfault⟩ := hknown.eq_none_iff.1 hdeclared
  refine ⟨gav, fault, u, v, ?_, hfault⟩
  unfold origin? at horigin
  split at horigin
  · cases horigin
  · exact horigin

end Course

/-- The nodes of a model are those of the distinct keys of the resolved artifacts, but for that of the
application, in order. Each has the coordinates and the flags of the last artifact with its key, and
the flags that this one gets. This was so before anything was reconciled. A node for whose key no
declarations are known has the edges of that artifact and no records. -/
theorem nodes_eq_of_gives_assemble {σ : Type} {env : Surroundings (StateM σ)}
    {policy : ScopePolicy} {requested : Option LaunchMode} {doc : BuildModel} {result : Assembled}
    {s t : σ} (h : Gives (doc.assemble env policy requested) s (.ok result) t) :
    ∃ (course : Course env policy requested doc s) (declared : List DeclaredDependency),
      result = course.result ∧ result.model.application.key = course.key ∧
      (doc.circumstances policy requested).declaredByProject doc.application = .ok declared ∧
      result.model.keys =
        firstOccurrences ((doc.resolved.map (·.coordinates.key)).filter (· ≠ course.key)) ∧
      result.model.bare = (doc.seed course.project.coordinates declared).bare ∧
      ∀ n ∈ result.model.nodes, ∃ last,
        doc.resolved.reverse.find? (·.coordinates.key == n.key) = some last ∧
        n.coordinates = last.coordinates ∧
        (∀ i, n.flags.bits.getLsbD i = true ↔ last.flags.bits.getLsbD i = true ∨
          ∃ f, Marked (doc.directKeys declared) last f ∧ f.position = i) ∧
        (course.complete.declared? n.key = none →
          (∃ gav fault u v, doc.firstComponent? n.key = some (.module gav) ∧
            Gives (declaredByModule env gav).run u (.error fault) v) ∧
          n.dependencies = last.dependencies ∧ n.directDependencies = []) := by
  obtain ⟨course, rfl⟩ := exists_course_of_gives_assemble h
  obtain ⟨declared, hproject, hopened⟩ := course.exists_opened_eq
  have hdeclared : (course.opened.declared? course.key).getD [] = declared := by
    rw [hopened, Session.declared?, Session.finding?_cons_self]
    rfl
  have hseeded : course.seeded = doc.seed course.project.coordinates declared := by
    rw [Course.seeded, hdeclared]
  have hdirect : course.direct = doc.directKeys declared := by
    rw [Course.direct, hdeclared]
  refine ⟨course, declared, rfl, course.key_application_result, hproject,
    course.keys_model_result, hseeded ▸ course.bare_model_result, ?_⟩
  intro n hn
  obtain ⟨last, hlast, -, hbare, -⟩ := course.exists_last_of_mem hn
  have hcoordinates : n.coordinates = last.coordinates := (ResolvedArtifact.mk.inj hbare).1
  have hflags : n.flags = (nodeOf course.direct last).flags := (ResolvedArtifact.mk.inj hbare).2.1
  refine ⟨last, hlast, hcoordinates, ?_, ?_⟩
  · intro i
    rw [hflags, hdirect]
    exact getLsbD_nodeOf_iff
  · intro hunknown
    have hnode := course.eq_nodeOf_of_declared?_eq_none hn hunknown hlast
    refine ⟨course.exists_fault_of_declared?_eq_none hn hunknown, ?_, ?_⟩
    · rw [hnode]
      rfl
    · rw [hnode]
      rfl

/-! ## Nodes that are replaced and one that is left out -/

/-- A resolved module with an edge. -/
def edgedModule (version target : String) (flags : Flags) : ResolvedNode :=
  { component := .module ⟨"g", "m", version⟩
    coordinates := { groupId := "g", artifactId := "m", version }, flags
    dependencies := [{ groupId := "x", artifactId := target, version := "1" }] }

/-- Two projects with one key, two modules with one key and the application itself, in turns. -/
def crowded : BuildModel :=
  { sharedKey with
    applicationDependencies := some [⟨"g", "m", "", "jar"⟩]
    resolved :=
      [edgedModule "1" "b" (.of .optional), projectNode ":one" "1",
        { component := .module ⟨"g", "app", "7"⟩
          coordinates := { groupId := "g", artifactId := "app", version := "7" } },
        edgedModule "2" "c" (.of .reloadable), projectNode ":two" "2"] }

/-- The node of the two modules, which are not located. -/
def edgedNode : ResolvedArtifact :=
  { coordinates := { groupId := "g", artifactId := "m", version := "2" }
    flags := (Flags.of .reloadable).add .direct
    dependencies := [{ groupId := "x", artifactId := "c", version := "1" }] }

def crowdedResult : Assembled :=
  { sharedResult with
    model := { sharedResult.model with nodes := [edgedNode, sharedNode] }
    statistics := { collected := 2, unresolved := 1, reconciled := 2, missing := 1 } }

theorem gives_assemble_crowded :
    Gives (crowded.assemble emptySurroundings default none) () (.ok crowdedResult) () :=
  gives_ok_of_toOption (by decide +kernel)

/-- Whatever course leads to the result, the POM of the modules is not located in it. -/
theorem declared?_edgedNode (course : Course emptySurroundings default none crowded ())
    (hkey : crowdedResult.model.application.key = course.key) :
    course.complete.declared? edgedNode.key = none := by
  have horigin : crowded.origin? course.key edgedNode.key = some (.module ⟨"g", "m", "1"⟩) := by
    rw [← hkey]
    decide +kernel
  obtain ⟨u, hknown⟩ := course.exists_knownOf_origin horigin
  exact hknown.eq_none_iff.2 ⟨_, .notLocated (.refused "shelf has no g:m:1"), (), rfl,
    gives_of_eq rfl⟩

theorem nodes_eq_crowded :
    Gives (crowded.assemble emptySurroundings default none) () (.ok crowdedResult) () ∧
      edgedNode ∈ crowdedResult.model.nodes ∧
      crowdedResult.model.keys = firstOccurrences ((crowded.resolved.map
        (·.coordinates.key)).filter (· ≠ crowdedResult.model.application.key)) ∧
      ∃ declared last,
        (crowded.circumstances default none).declaredByProject crowded.application =
          .ok declared ∧
        crowded.resolved.reverse.find? (·.coordinates.key == edgedNode.key) = some last ∧
        edgedNode.coordinates = last.coordinates ∧
        (∀ i, edgedNode.flags.bits.getLsbD i = true ↔ last.flags.bits.getLsbD i = true ∨
          ∃ f, Marked (crowded.directKeys declared) last f ∧ f.position = i) ∧
        edgedNode.dependencies = last.dependencies ∧ edgedNode.directDependencies = [] := by
  have hmem : edgedNode ∈ crowdedResult.model.nodes := List.mem_cons_self
  obtain ⟨course, declared, -, hkey, hproject, hkeys, -, hnodes⟩ :=
    nodes_eq_of_gives_assemble gives_assemble_crowded
  obtain ⟨last, hlast, hcoordinates, hflags, hunknown⟩ := hnodes edgedNode hmem
  obtain ⟨-, hedges, hrecords⟩ := hunknown (declared?_edgedNode course hkey)
  exact ⟨gives_assemble_crowded, hmem, hkey ▸ hkeys, declared, last, hproject, hlast,
    hcoordinates, hflags, hedges, hrecords⟩

end BuildModel

end ArtifactGraph
