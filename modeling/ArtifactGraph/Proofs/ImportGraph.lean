import ArtifactGraph.Proofs.Imports
import Mathlib.Data.List.Chain

/-!
# The graph of imports

A triple imports another one when the management of its lineage, once it is expanded, has an entry
that stands for the other's.  What a lineage manages depends on ancestors, and an ancestor may well
be the importer, so this graph can have any shape.  A build walks through it without seeing the
whole of it: it knows the triples that it is inside of, and how much room is left.

* The graph.  `imports_iff_of_gives_lineage`: over a steady locator the steps from a triple are what
  any build of it comes upon.
* Faults.  `ImportFails` is all that can go wrong with one import, and
  `exists_importFails_of_gives_importBoms` finds the import that a fault comes from.
* A fault is justified.  `Inside` is the invariant of the walk: what it is inside of is a way
  through the graph.  `justified_of_gives_buildWithin` carries it to wherever a fault arises.
* A success is justified.  `length_le_of_gives_buildWithin`: no way through the graph is longer than
  the room there was.
* `imports_checked_of_gives_build` puts these together.
-/

namespace ArtifactGraph

variable {σ : Type}

namespace EffectiveModel

/-! ## The graph -/

variable {fetch : Pom.Fetch (StateM σ)} {system : Bindings}

/-- Over a way to get POMs that does not change its answers, the steps from a triple can be read off
any lineage of it that was found. -/
theorem imports_iff_of_gives_lineage (hfetch : ∀ gav, Steady (fetch gav).run) {importer : Gav}
    {lineage : List Pom} {merged : EffectiveModel} {s t : σ}
    (hlineage : Gives (Pom.lineage fetch importer).run s (.ok lineage) t)
    (hmerged : ofLineage system lineage = .ok merged) {imported : Gav} :
    Imports fetch system importer imported ↔
      ∃ bom ∈ merged.management.filter isImport, importedGav? bom = some imported := by
  constructor
  · intro himports
    obtain ⟨s', lineage', t', merged', hlineage', hmerged', hbom⟩ := himports
    have hsteady : Steady (Pom.lineage fetch importer).run :=
      Pom.steady_lineageFrom hfetch _ _ _ _
    have hsame : lineage' = lineage := Except.ok.inj (hsteady.unique hlineage' hlineage)
    subst hsame
    cases hmerged'.symm.trans hmerged
    exact hbom
  · intro hbom
    exact ⟨s, lineage, t, merged, hlineage, hmerged, hbom⟩

/-- Ways from a triple that is on a cycle are as long as one likes. -/
theorem exists_isChain_of_transGen {α : Type} {r : α → α → Prop} {a : α}
    (h : Relation.TransGen r a a) (n : Nat) :
    ∃ chain : List α, List.IsChain r (a :: chain) ∧ chain.length = n := by
  induction n generalizing a with
  | zero => exact ⟨[], List.isChain_singleton a, rfl⟩
  | succ n ih =>
    obtain ⟨b, hab, hba⟩ := Relation.TransGen.head'_iff.1 h
    have hbb : Relation.TransGen r b b := Relation.TransGen.tail' hba hab
    obtain ⟨chain, hchain, hlength⟩ := ih hbb
    exact ⟨b :: chain, List.isChain_cons_cons.2 ⟨hab, hchain⟩, by rw [List.length_cons, hlength]⟩

end EffectiveModel

/-! ## Faults -/

/-- Whether a fault says that imports go round or go too deep. -/
def ModelFault.OfImportGraph : ModelFault → Prop
  | .importCycle _ => True
  | .importsTooDeep _ => True
  | _ => False

namespace Pom

theorem not_ofImportGraph_of_gives_fetch {locate : Locate (StateM σ)} {gav : Gav}
    {fault : ModelFault} {s t : σ} (h : Gives (fetch locate gav).run s (.error fault) t) :
    ¬ fault.OfImportGraph := by
  rcases gives_error_bind_iff.1 h with h | ⟨answer, u, -, h⟩
  · -- Asking itself does not stop.
    have hasked : Gives (locate gav >>= fun answer =>
        (pure (.ok answer) : StateM σ (Except ModelFault _))) s (.error fault) t := h
    obtain ⟨_, _, -, hreturn⟩ := gives_bind_iff.1 hasked
    cases (gives_pure_iff.1 hreturn).1
  · cases answer with
    | error e =>
      cases (gives_throw_iff.1 h).1
      exact not_false
    | ok found =>
      simp only at h
      split at h
      · cases (gives_throw_iff.1 h).1
        exact not_false
      · cases (gives_pure_iff.1 h).1

theorem not_ofImportGraph_of_gives_lineageFrom {fetch : Fetch (StateM σ)}
    (hfetch : ∀ gav fault s t, Gives (fetch gav).run s (.error fault) t → ¬ fault.OfImportGraph)
    {gav current : Gav} {room : Nat} {seen : List Gav} {fault : ModelFault} {s t : σ}
    (h : Gives (lineageFrom fetch gav room seen current).run s (.error fault) t) :
    ¬ fault.OfImportGraph := by
  induction room generalizing seen current s with
  | zero =>
    rw [lineageFrom] at h
    split at h
    all_goals
      cases (gives_throw_iff.1 h).1
      exact not_false
  | succ room ih =>
    rw [lineageFrom] at h
    split at h
    · cases (gives_throw_iff.1 h).1
      exact not_false
    · rcases gives_error_bind_iff.1 h with h | ⟨pom, u, -, h⟩
      · exact hfetch _ _ _ _ h
      · split at h
        · cases (gives_pure_iff.1 h).1
        · rcases gives_error_bind_iff.1 h with h | ⟨ancestors, v, -, h⟩
          · exact ih h
          · cases (gives_pure_iff.1 h).1

end Pom

namespace EffectiveModel

theorem not_ofImportGraph_of_fault? {e : EffectiveModel} {gav : Gav} {level : Strictness}
    {fault : ModelFault} (h : e.fault? gav level = some fault) : ¬ fault.OfImportGraph := by
  have hdependency : ∀ d, dependencyFault? gav level d = some fault → ¬ fault.OfImportGraph := by
    intro d hd
    unfold dependencyFault? at hd
    split at hd
    · cases hd
      exact not_false
    · cases level with
      | minimal => cases hd
      | strict =>
        simp only at hd
        split at hd
        · cases hd
          exact not_false
        · split at hd
          · cases hd
            exact not_false
          · cases hd
  unfold fault? at h
  split at h
  · cases h
    exact not_false
  · split at h
    · cases h
      exact not_false
    · split at h
      · cases h
        exact not_false
      · obtain ⟨d, -, hd⟩ := List.exists_of_findSome?_eq_some h
        exact hdependency d hd

section

variable (build? : Option (Gav → Modeling (StateM σ) EffectiveModel)) (importing : List Gav)
  (importer : Gav)

/-- What can go wrong with one import. -/
inductive ImportFails (bom : ModelDependency) : ModelFault → Prop
  | withoutVersion (hversion : importedGav? bom = none) :
      ImportFails bom (.importWithoutVersion importer bom.groupId bom.artifactId)
  | cycle {imported : Gav} (hbom : importedGav? bom = some imported)
      (hgoing : imported ∈ importer :: importing) : ImportFails bom (.importCycle imported)
  | tooDeep {imported : Gav} (hbom : importedGav? bom = some imported) (hroom : build? = none) :
      ImportFails bom (.importsTooDeep importer)
  /-- The model that is imported cannot be built. -/
  | inside {imported : Gav} {build : Gav → Modeling (StateM σ) EffectiveModel}
      {fault : ModelFault} {s t : σ} (hbom : importedGav? bom = some imported)
      (hbuild : build? = some build) (hfault : Gives (build imported).run s (.error fault) t) :
      ImportFails bom fault

end

section

variable {build? : Option (Gav → Modeling (StateM σ) EffectiveModel)} {importing : List Gav}
  {importer : Gav} {fault : ModelFault} {s t : σ}

/-- A fault of several imports is the fault of one of them. -/
theorem exists_importFails_of_gives_importBoms {managed imports : List ModelDependency}
    (h : Gives (importBoms build? importing importer managed imports).run s (.error fault) t) :
    ∃ bom ∈ imports, ImportFails build? importing importer bom fault := by
  induction imports generalizing managed s with
  | nil =>
    rw [importBoms, ExceptT.run_pure] at h
    cases (gives_pure_iff.1 h).1
  | cons bom rest ih =>
    rw [importBoms] at h
    cases hversion : bom.version with
    | none =>
      simp only [hversion] at h
      cases (gives_throw_iff.1 h).1
      exact ⟨bom, List.mem_cons_self, .withoutVersion (by rw [importedGav?, hversion]; rfl)⟩
    | some version =>
      have hbom : importedGav? bom = some ⟨bom.groupId, bom.artifactId, version⟩ := by
        rw [importedGav?, hversion, Option.map_some]
      simp only [hversion] at h
      split at h
      · rename_i hgoing
        cases (gives_throw_iff.1 h).1
        refine ⟨bom, List.mem_cons_self, .cycle hbom ?_⟩
        rw [Bool.or_eq_true, beq_iff_eq, List.contains_iff_mem] at hgoing
        exact List.mem_cons.2 hgoing.symm
      · split at h
        · cases (gives_throw_iff.1 h).1
          exact ⟨bom, List.mem_cons_self, .tooDeep hbom rfl⟩
        · rcases gives_error_bind_iff.1 h with h | ⟨model, u, -, h⟩
          · exact ⟨bom, List.mem_cons_self, .inside hbom rfl h⟩
          · obtain ⟨other, hother, hfails⟩ := ih h
            exact ⟨other, List.mem_cons_of_mem bom hother, hfails⟩

/-- A fault of a build that tells of the graph is the fault of an import, and the import is a step
in the graph. -/
theorem exists_importFails_of_gives_buildWith
    (hfetch : ∀ gav fault s t, Gives (fetch gav).run s (.error fault) t → ¬ fault.OfImportGraph)
    {level : Strictness}
    (h : Gives (buildWith fetch system build? importing level importer).run s (.error fault) t)
    (hfault : fault.OfImportGraph) :
    ∃ bom, ImportFails build? importing importer bom fault ∧
      ∀ imported, importedGav? bom = some imported → Imports fetch system importer imported := by
  rw [buildWith] at h
  rcases gives_error_bind_iff.1 h with h | ⟨lineage, u, hlineage, h⟩
  · exact absurd hfault (Pom.not_ofImportGraph_of_gives_lineageFrom hfetch h)
  · cases hmerged : ofLineage system lineage with
    | error e =>
      simp only [hmerged] at h
      cases (gives_throw_iff.1 h).1
      exact hfault.elim
    | ok merged =>
      simp only [hmerged, List.partition_eq_filter_filter] at h
      rcases gives_error_bind_iff.1 h with h | ⟨management, v, -, h⟩
      · obtain ⟨bom, hbom, hfails⟩ := exists_importFails_of_gives_importBoms h
        refine ⟨bom, hfails, ?_⟩
        intro imported himported
        exact ⟨s, lineage, u, merged, hlineage, hmerged, bom, hbom, himported⟩
      · -- The check at the end knows nothing of imports.
        have hcheck := (gives_pure_iff.1 h).1
        unfold check at hcheck
        split at hcheck
        · rename_i hfound
          cases hcheck
          exact absurd hfault (not_ofImportGraph_of_fault? hfound)
        · cases hcheck

end

/-! ## A fault is justified -/

section

variable (fetch : Pom.Fetch (StateM σ)) (system : Bindings) (request : Gav)

/-- Whether the triples between a request and a triple that is built for it, the latest first, are a
way through the graph. -/
structure Inside (importing : List Gav) (gav : Gav) : Prop where
  chain : List.IsChain (fun imported importer => Imports fetch system importer imported)
    (gav :: importing)
  last : (gav :: importing).getLast? = some request

/-- What the faults of the graph say of it, as seen from a request. -/
inductive Justified : ModelFault → Prop
  | cycle {imported : Gav}
      (hreached : Relation.ReflTransGen (Imports fetch system) request imported)
      (hcycle : Relation.TransGen (Imports fetch system) imported imported) :
      Justified (.importCycle imported)
  | tooDeep {importer : Gav} {chain : List Gav}
      (hchain : List.IsChain (Imports fetch system) (request :: chain))
      (hlong : importLimit < chain.length) : Justified (.importsTooDeep importer)

end

section

variable {request gav : Gav} {importing : List Gav}

theorem inside_nil (fetch : Pom.Fetch (StateM σ)) (system : Bindings) (request : Gav) :
    Inside fetch system request [] request :=
  ⟨List.isChain_singleton _, rfl⟩

namespace Inside

/-- An import leads one step further inside. -/
theorem step (h : Inside fetch system request importing gav) {imported : Gav}
    (himports : Imports fetch system gav imported) :
    Inside fetch system request (gav :: importing) imported :=
  ⟨List.isChain_cons_cons.2 ⟨himports, h.chain⟩, by rw [List.getLast?_cons_cons, h.last]⟩

/-- Each triple outside leads to the one that is built. -/
theorem transGen_of_mem (h : Inside fetch system request importing gav) {outer : Gav}
    (houter : outer ∈ importing) : Relation.TransGen (Imports fetch system) outer gav := by
  have hchain : List.IsChain
      (fun imported importer => Relation.TransGen (Imports fetch system) importer imported)
      (gav :: importing) := h.chain.imp fun _ _ hstep => .single hstep
  have htrans : IsTrans Gav
      fun imported importer => Relation.TransGen (Imports fetch system) importer imported :=
    ⟨fun _ _ _ hab hbc => hbc.trans hab⟩
  exact (List.pairwise_cons.1 (List.isChain_iff_pairwise.1 hchain)).1 outer houter

theorem reflTransGen (h : Inside fetch system request importing gav) :
    Relation.ReflTransGen (Imports fetch system) request gav := by
  have hmem : request ∈ gav :: importing := List.mem_of_getLast? h.last
  rcases List.mem_cons.1 hmem with rfl | hmem
  · exact .refl
  · exact (h.transGen_of_mem hmem).to_reflTransGen

/-- The way from the request has a step for each triple outside. -/
theorem exists_isChain (h : Inside fetch system request importing gav) :
    ∃ chain, List.IsChain (Imports fetch system) (request :: chain) ∧
      chain.length = importing.length := by
  obtain ⟨before, hbefore⟩ := List.getLast?_eq_some_iff.1 h.last
  refine ⟨before.reverse, ?_, ?_⟩
  · have hreverse : request :: before.reverse = (gav :: importing).reverse := by
      rw [hbefore, List.reverse_append]
      rfl
    rw [hreverse, List.isChain_reverse]
    exact h.chain
  · have hlength := congrArg List.length hbefore
    simp only [List.length_cons, List.length_append, List.length_nil] at hlength
    rw [List.length_reverse]
    omega

/-- An import of a triple that one is inside of closes a cycle. -/
theorem justified_importCycle (h : Inside fetch system request importing gav) {imported : Gav}
    (himports : Imports fetch system gav imported) (hgoing : imported ∈ gav :: importing) :
    Justified fetch system request (.importCycle imported) := by
  refine .cycle (h.reflTransGen.tail himports) ?_
  rcases List.mem_cons.1 hgoing with rfl | houter
  · exact .single himports
  · exact (h.transGen_of_mem houter).tail himports

/-- An import where there is no room left makes a way too long. -/
theorem justified_importsTooDeep (h : Inside fetch system request importing gav) {imported : Gav}
    (himports : Imports fetch system gav imported) (hfull : importing.length = importLimit) :
    Justified fetch system request (.importsTooDeep gav) := by
  obtain ⟨chain, hchain, hlength⟩ := (h.step himports).exists_isChain
  refine .tooDeep hchain ?_
  rw [hlength, List.length_cons, hfull]
  exact Nat.lt_succ_self _

/-- The fault of an import is justified, if the faults of the models inside are. -/
theorem justified_of_importFails (h : Inside fetch system request importing gav)
    {build? : Option (Gav → Modeling (StateM σ) EffectiveModel)} {bom : ModelDependency}
    {fault : ModelFault} (hfails : ImportFails build? importing gav bom fault)
    (himports : ∀ imported, importedGav? bom = some imported → Imports fetch system gav imported)
    (hfull : build? = none → importing.length = importLimit)
    (hinner : ∀ build, build? = some build → ∀ imported, Imports fetch system gav imported →
      ∀ s t, Gives (build imported).run s (.error fault) t → Justified fetch system request fault)
    (hfault : fault.OfImportGraph) : Justified fetch system request fault := by
  cases hfails with
  | withoutVersion => exact hfault.elim
  | cycle hbom hgoing => exact h.justified_importCycle (himports _ hbom) hgoing
  | tooDeep hbom hnone => exact h.justified_importsTooDeep (himports _ hbom) (hfull hnone)
  | inside hbom hbuild himported =>
    exact hinner _ hbuild _ (himports _ hbom) _ _ himported

end Inside

/-- A fault of a build tells the truth about the graph. By induction on the room: what is built
inside begins one step further on the way from the request. -/
theorem justified_of_gives_buildWithin
    (hfetch : ∀ gav fault s t, Gives (fetch gav).run s (.error fault) t → ¬ fault.OfImportGraph)
    {room : Nat} (hroom : importing.length + room = importLimit)
    (hinside : Inside fetch system request importing gav) {level : Strictness}
    {fault : ModelFault} {s t : σ}
    (h : Gives (buildWithin fetch system room importing level gav).run s (.error fault) t)
    (hfault : fault.OfImportGraph) : Justified fetch system request fault := by
  induction room generalizing importing gav level s t with
  | zero =>
    obtain ⟨bom, hfails, himports⟩ := exists_importFails_of_gives_buildWith hfetch h hfault
    refine hinside.justified_of_importFails hfails himports (fun _ => hroom) ?_ hfault
    intro build hbuild
    cases hbuild
  | succ room ih =>
    obtain ⟨bom, hfails, himports⟩ := exists_importFails_of_gives_buildWith hfetch h hfault
    refine hinside.justified_of_importFails hfails himports ?_ ?_ hfault
    · intro hnone
      cases hnone
    · intro build hbuild imported hstep s t himported
      cases hbuild
      refine ih ?_ (hinside.step hstep) himported
      rw [List.length_cons]
      omega

end

/-! ## A success is justified -/

section

variable {build? : Option (Gav → Modeling (StateM σ) EffectiveModel)} {importing : List Gav}
  {importer : Gav}

/-- Where imports succeed, none of them was going on, and a model was built for each. -/
theorem exists_built_of_gives_importBoms {managed imports management : List ModelDependency}
    {s t : σ}
    (h : Gives (importBoms build? importing importer managed imports).run s (.ok management) t)
    {bom : ModelDependency} (hbom : bom ∈ imports) {imported : Gav}
    (himported : importedGav? bom = some imported) :
    imported ∉ importer :: importing ∧
      ∃ build model u v, build? = some build ∧ Gives (build imported).run u (.ok model) v := by
  induction imports generalizing managed s with
  | nil => cases hbom
  | cons first rest ih =>
    obtain ⟨version, build, model, u, hversion, hnew, hbuild, hmodel, hrest⟩ :=
      gives_importBoms_cons_iff.1 h
    rcases List.mem_cons.1 hbom with rfl | hbom
    · rw [importedGav?, hversion] at himported
      cases himported
      exact ⟨hnew, build, model, s, u, hbuild, hmodel⟩
    · exact ih hrest hbom

theorem exists_built_of_gives_buildWith (hfetch : ∀ gav, Steady (fetch gav).run)
    {level : Strictness} {e : EffectiveModel} {s t : σ}
    (h : Gives (buildWith fetch system build? importing level importer).run s (.ok e) t)
    {imported : Gav} (himports : Imports fetch system importer imported) :
    imported ∉ importer :: importing ∧
      ∃ build model u v, build? = some build ∧ Gives (build imported).run u (.ok model) v := by
  obtain ⟨lineage, u, merged, management, hlineage, hmerged, hmodels, -⟩ :=
    gives_buildWith_iff.1 h
  obtain ⟨bom, hbom, himported⟩ :=
    (imports_iff_of_gives_lineage hfetch hlineage hmerged).1 himports
  exact exists_built_of_gives_importBoms hmodels hbom himported

end

/-- A build that succeeds had room for every way through the graph. -/
theorem length_le_of_gives_buildWithin (hfetch : ∀ gav, Steady (fetch gav).run) {room : Nat}
    {importing : List Gav} {level : Strictness} {gav : Gav} {e : EffectiveModel} {s t : σ}
    (h : Gives (buildWithin fetch system room importing level gav).run s (.ok e) t)
    {chain : List Gav} (hchain : List.IsChain (Imports fetch system) (gav :: chain)) :
    chain.length ≤ room := by
  induction room generalizing importing level gav e s t chain with
  | zero =>
    cases chain with
    | nil => exact Nat.le_refl 0
    | cons imported rest =>
      obtain ⟨himports, -⟩ := List.isChain_cons_cons.1 hchain
      obtain ⟨-, build, model, u, v, hbuild, -⟩ :=
        exists_built_of_gives_buildWith hfetch h himports
      cases hbuild
  | succ room ih =>
    cases chain with
    | nil => exact Nat.zero_le _
    | cons imported rest =>
      obtain ⟨himports, hrest⟩ := List.isChain_cons_cons.1 hchain
      obtain ⟨-, build, model, u, v, hbuild, hmodel⟩ :=
        exists_built_of_gives_buildWith hfetch h himports
      cases hbuild
      exact Nat.succ_le_succ (ih hmodel hrest)

/-- Where ways are no longer than a bound, none leads back. -/
theorem not_transGen_of_length_le {α : Type} {r : α → α → Prop} {bound : Nat} {a : α}
    (hbound : ∀ chain, List.IsChain r (a :: chain) → chain.length ≤ bound) :
    ¬ Relation.TransGen r a a := by
  intro hround
  obtain ⟨chain, hchain, hlength⟩ := exists_isChain_of_transGen hround (bound + 1)
  have hle := hbound chain hchain
  omega

/-- If no way from a triple is longer than a bound, none is from a triple that it leads to. -/
theorem length_le_of_reflTransGen {α : Type} {r : α → α → Prop} {bound : Nat} {a b : α}
    (hbound : ∀ chain, List.IsChain r (a :: chain) → chain.length ≤ bound)
    (hreached : Relation.ReflTransGen r a b) :
    ∀ chain, List.IsChain r (b :: chain) → chain.length ≤ bound := by
  induction hreached with
  | refl => exact hbound
  | @tail b c _ hbc ih =>
    intro chain hchain
    have hlonger := ih (c :: chain) (List.isChain_cons_cons.2 ⟨hbc, hchain⟩)
    rw [List.length_cons] at hlonger
    omega

/-! ## The checks -/

/-- What a build says of imports is so. It tells of a cycle at a triple that it reaches and that
leads back to itself, never at one that is merely imported on several ways or several times; it
tells of imports that are too deep where a way is longer than the limit; and it succeeds only where
there is no cycle within reach and no way longer than the limit. -/
theorem imports_checked_of_gives_build {locate : Locate (StateM σ)}
    (hlocate : ∀ gav, Steady (locate gav)) {system : Bindings} {level : Strictness} {gav : Gav}
    {r : Except ModelFault EffectiveModel} {s t : σ}
    (h : Gives (build locate system level gav).run s r t) :
    (∀ imported, r = .error (.importCycle imported) →
      Relation.ReflTransGen (Imports (Pom.fetch locate) system) gav imported ∧
        Relation.TransGen (Imports (Pom.fetch locate) system) imported imported) ∧
    (∀ importer, r = .error (.importsTooDeep importer) →
      ∃ chain, List.IsChain (Imports (Pom.fetch locate) system) (gav :: chain) ∧
        importLimit < chain.length) ∧
    (∀ e, r = .ok e →
      ∀ reached, Relation.ReflTransGen (Imports (Pom.fetch locate) system) gav reached →
        ¬ Relation.TransGen (Imports (Pom.fetch locate) system) reached reached ∧
          ∀ chain, List.IsChain (Imports (Pom.fetch locate) system) (reached :: chain) →
            chain.length ≤ importLimit) ∧
    ∀ imported, ¬ Relation.TransGen (Imports (Pom.fetch locate) system) imported imported →
      r ≠ .error (.importCycle imported) := by
  have hjustified : ∀ fault, r = .error fault → fault.OfImportGraph →
      Justified (Pom.fetch locate) system gav fault := by
    intro fault hr hfault
    subst hr
    exact justified_of_gives_buildWithin
      (fun _ _ _ _ hfetch => Pom.not_ofImportGraph_of_gives_fetch hfetch)
      (Nat.zero_add importLimit) (inside_nil _ _ _) h hfault
  have hcycle : ∀ imported, r = .error (.importCycle imported) →
      Relation.ReflTransGen (Imports (Pom.fetch locate) system) gav imported ∧
        Relation.TransGen (Imports (Pom.fetch locate) system) imported imported := by
    intro imported hr
    cases hjustified _ hr trivial with
    | cycle hreached hcycle => exact ⟨hreached, hcycle⟩
  refine ⟨hcycle, ?_, ?_, ?_⟩
  · intro importer hr
    cases hjustified _ hr trivial with
    | tooDeep hchain hlong => exact ⟨_, hchain, hlong⟩
  · intro e hr reached hreached
    subst hr
    have hbound := length_le_of_reflTransGen
      (fun _ hchain => length_le_of_gives_buildWithin (Pom.steady_fetch hlocate) h hchain) hreached
    exact ⟨not_transGen_of_length_le hbound, hbound⟩
  · intro imported hplain hr
    obtain ⟨-, hround⟩ := hcycle imported hr
    exact hplain hround

/-! ## An import that inherits itself -/

/-- A POM that imports its child. -/
def parentVolume : Volume where
  gav := ⟨"g", "p", "1"⟩
  pieces := managingPieces "p" [importEntry "b" "1"]
  pom := managingPom "p" [importRaw "b" "1"]
  read_eq := by
    rw [Pom.read?, Xml.readRoot?, Text.toList_ofPieces]
    decide +kernel

/-- The child, which says nothing of imports and inherits that of itself. -/
def childVolume : Volume where
  gav := ⟨"g", "b", "1"⟩
  pieces := ["<project>", "<parent>", "<groupId>g</groupId>", "<artifactId>p</artifactId>",
    "<version>1</version>", "</parent>", "<artifactId>b</artifactId>", "</project>"]
  pom :=
    { artifactId := some "b"
      parent := some
        { groupId := some "g", artifactId := some "p", version := some "1" } }
  read_eq := by
    rw [Pom.read?, Xml.readRoot?, Text.toList_ofPieces]
    decide +kernel

def inheritedImports : Locate (StateM Unit) :=
  (Shelf.ofVolumes "shelf" [parentVolume, childVolume]).locator

theorem steady_inheritedImports (gav : Gav) : Steady (inheritedImports gav) := steady_pure _

/-- The triple at which imports go round, if they do. -/
def cycleOf? {α : Type} : Except ModelFault α → Option Gav
  | .error (.importCycle imported) => some imported
  | _ => none

theorem eq_error_of_cycleOf? {α : Type} {r : Except ModelFault α} {imported : Gav}
    (h : cycleOf? r = some imported) : r = .error (.importCycle imported) := by
  unfold cycleOf? at h
  split at h
  · cases h
    rfl
  · cases h

theorem gives_build_inheritedImports :
    Gives (build inheritedImports [] .minimal ⟨"g", "p", "1"⟩).run ()
      (.error (.importCycle ⟨"g", "b", "1"⟩)) () := by
  rw [build, inheritedImports, Pom.fetch_locator]
  exact gives_of_eq (eq_error_of_cycleOf? (by decide +kernel))

/-- The child is on a cycle that only its lineage shows; and a POM that is imported on two ways is
on none. -/
theorem imports_checked_of_two_shapes :
    (Gives (build inheritedImports [] .minimal ⟨"g", "p", "1"⟩).run ()
        (.error (.importCycle ⟨"g", "b", "1"⟩)) () ∧
      Relation.ReflTransGen (Imports (Pom.fetch inheritedImports) []) ⟨"g", "p", "1"⟩
        ⟨"g", "b", "1"⟩ ∧
      Relation.TransGen (Imports (Pom.fetch inheritedImports) []) ⟨"g", "b", "1"⟩
        ⟨"g", "b", "1"⟩) ∧
    Gives (build imports [] .strict ⟨"g", "c", "1"⟩).run () (.ok importingModel) () ∧
      ∀ reached, Relation.ReflTransGen (Imports (Pom.fetch imports) []) ⟨"g", "c", "1"⟩ reached →
        ¬ Relation.TransGen (Imports (Pom.fetch imports) []) reached reached ∧
          ∀ chain, List.IsChain (Imports (Pom.fetch imports) []) (reached :: chain) →
            chain.length ≤ importLimit := by
  obtain ⟨hcycle, -⟩ := imports_checked_of_gives_build steady_inheritedImports
    gives_build_inheritedImports
  obtain ⟨-, -, hok, -⟩ := imports_checked_of_gives_build steady_imports gives_build_imports
  exact ⟨⟨gives_build_inheritedImports, hcycle _ rfl⟩, gives_build_imports, hok _ rfl⟩

end EffectiveModel

end ArtifactGraph
