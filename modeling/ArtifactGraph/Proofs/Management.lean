import ArtifactGraph.Proofs.Expansion

/-!
# The management of a built model

A model that is built holds its own management, which is the expanded management of its lineage
without the imports, and behind it what the imports add.  There are three groups.

* What imports add.  `gives_importBoms_cons_iff` is all that one import can do.
  `exists_append_of_gives_importBoms`: imports add entries behind the own ones, and only for keys
  that those do not have.
* What fills a dependency.  `managed?` answers the last entry of a key.  `managed?_append_of_mem`:
  among keys that the own management has, nothing that is added counts.
* The run.  `gives_buildWith_iff` says when a build succeeds, and `exists_of_gives_build` takes a
  build that succeeds apart into its lineage, its merged model and its imports.
-/

namespace ArtifactGraph

variable {σ : Type}

namespace EffectiveModel

/-! ## What imports add -/

theorem exists_append_mergeByKey (preferred fallback : List ModelDependency) :
    ∃ others, mergeByKey preferred fallback = preferred ++ others ∧
      ∀ d ∈ others, d.key ∉ preferred.map (·.key) := by
  refine ⟨_, rfl, ?_⟩
  intro d hd
  have hfilter := (List.mem_filter.1 hd).2
  simpa using hfilter

section

variable {build? : Option (Gav → Modeling (StateM σ) EffectiveModel)} {importing : List Gav}
  {importer : Gav} {managed management : List ModelDependency} {s t : σ}

theorem gives_importBoms_nil_iff :
    Gives (importBoms build? importing importer managed []).run s (.ok management) t ↔
      management = managed ∧ t = s := by
  rw [importBoms, ExceptT.run_pure, gives_pure_iff, Except.ok.injEq]

/-- One import: it has a version, it is none of those that are going on, there is room for it, and
its model can be built. -/
theorem gives_importBoms_cons_iff {bom : ModelDependency} {rest : List ModelDependency} :
    Gives (importBoms build? importing importer managed (bom :: rest)).run s (.ok management) t ↔
      ∃ version build model u, bom.version = some version ∧
        (⟨bom.groupId, bom.artifactId, version⟩ : Gav) ∉ importer :: importing ∧
        build? = some build ∧
        Gives (build ⟨bom.groupId, bom.artifactId, version⟩).run s (.ok model) u ∧
        Gives (importBoms build? importing importer (mergeByKey managed model.management)
          rest).run u (.ok management) t := by
  rw [importBoms]
  cases hversion : bom.version with
  | none =>
    constructor
    · intro h
      exact absurd h not_gives_ok_throw
    · intro hparts
      obtain ⟨version, build, model, u, hsome, -⟩ := hparts
      cases hsome
  | some version =>
    simp only
    split
    · rename_i hgoing
      constructor
      · intro h
        exact absurd h not_gives_ok_throw
      · intro hparts
        obtain ⟨version', build, model, u, hsome, hnew, -⟩ := hparts
        cases hsome
        rw [List.mem_cons, not_or] at hnew
        simp [hnew] at hgoing
    · rename_i hgoing
      have hnew : (⟨bom.groupId, bom.artifactId, version⟩ : Gav) ∉ importer :: importing := by
        rw [List.mem_cons, not_or]
        simpa [and_comm] using hgoing
      cases build? with
      | none =>
        constructor
        · intro h
          exact absurd h not_gives_ok_throw
        · intro hparts
          obtain ⟨_, build, model, u, -, -, hsome, -⟩ := hparts
          cases hsome
      | some build =>
        simp only [gives_ok_bind_iff]
        constructor
        · intro h
          obtain ⟨model, u, hmodel, hrest⟩ := h
          exact ⟨version, build, model, u, rfl, hnew, rfl, hmodel, hrest⟩
        · intro hparts
          obtain ⟨_, _, model, u, hsome, -, hbuild, hmodel, hrest⟩ := hparts
          cases hsome
          cases hbuild
          exact ⟨model, u, hmodel, hrest⟩

/-- The imports add entries behind those that are there, and none for a key that is there. -/
theorem exists_append_of_gives_importBoms {imports : List ModelDependency}
    (h : Gives (importBoms build? importing importer managed imports).run s (.ok management) t) :
    ∃ others, management = managed ++ others ∧ ∀ d ∈ others, d.key ∉ managed.map (·.key) := by
  induction imports generalizing managed s with
  | nil =>
    obtain ⟨rfl, -⟩ := gives_importBoms_nil_iff.1 h
    exact ⟨[], by simp, by simp⟩
  | cons bom rest ih =>
    obtain ⟨version, build, model, u, -, -, -, -, hrest⟩ := gives_importBoms_cons_iff.1 h
    -- What this import adds and what the later ones add, one behind the other.
    obtain ⟨added, hadded, hnew⟩ := exists_append_mergeByKey managed model.management
    obtain ⟨others, hothers, hfresh⟩ := ih hrest
    rw [hadded] at hothers hfresh
    refine ⟨added ++ others, by rw [hothers, List.append_assoc], ?_⟩
    intro d hd
    rcases List.mem_append.1 hd with hd | hd
    · exact hnew d hd
    · have hboth := hfresh d hd
      rw [List.map_append, List.mem_append, not_or] at hboth
      exact hboth.1

end

end EffectiveModel

/-! ## What fills a dependency -/

/-- The dependency `d` with what it leaves open taken from `entry`. -/
def ModelDependency.filledFrom (d entry : ModelDependency) : ModelDependency :=
  { d with version := d.version.or entry.version, scope := d.scope.or entry.scope,
           optional := d.optional.or entry.optional }

namespace EffectiveModel

theorem fill_of_managed?_eq_none {management : List ModelDependency} {d : ModelDependency}
    (h : managed? management d.key = none) : fill management d = d := by
  rw [fill, h]

theorem fill_of_managed?_eq_some {management : List ModelDependency} {d entry : ModelDependency}
    (h : managed? management d.key = some entry) : fill management d = d.filledFrom entry := by
  rw [fill, h]
  rfl

@[simp] theorem key_fill (management : List ModelDependency) (d : ModelDependency) :
    (fill management d).key = d.key := by
  rw [fill]
  split <;> rfl

/-- The entry that counts for a key is the last one with it. -/
theorem managed?_eq_some_iff {management : List ModelDependency} {k : ArtifactKey}
    {d : ModelDependency} :
    managed? management k = some d ↔
      d.key = k ∧ ∃ before after, management = before ++ d :: after ∧ ∀ x ∈ after, x.key ≠ k := by
  rw [managed?, List.find?_eq_some_iff_append, beq_iff_eq]
  refine and_congr_right fun _ => ⟨?_, ?_⟩
  · intro hsplit
    obtain ⟨after, before, hreverse, hafter⟩ := hsplit
    refine ⟨before.reverse, after.reverse, ?_, fun x hx => ?_⟩
    · rw [← List.reverse_reverse management, hreverse]
      simp
    · simpa using hafter x (List.mem_reverse.1 hx)
  · intro hsplit
    obtain ⟨before, after, rfl, hafter⟩ := hsplit
    refine ⟨after.reverse, before.reverse, by simp, fun x hx => ?_⟩
    simpa using hafter x (List.mem_reverse.1 hx)

theorem managed?_eq_none_iff {management : List ModelDependency} {k : ArtifactKey} :
    managed? management k = none ↔ ∀ entry ∈ management, entry.key ≠ k := by
  rw [managed?, List.find?_eq_none]
  simp only [List.mem_reverse, beq_iff_eq, ne_eq]

/-- Entries behind, with other keys, do not count. -/
theorem managed?_append_of_mem {own others : List ModelDependency} {k : ArtifactKey}
    (hmem : k ∈ own.map (·.key)) (hothers : ∀ d ∈ others, d.key ∉ own.map (·.key)) :
    managed? (own ++ others) k = managed? own k := by
  have hnone : managed? others k = none :=
    managed?_eq_none_iff.2 fun d hd hkey => hothers d hd (hkey ▸ hmem)
  rw [managed?, List.reverse_append, List.find?_append]
  rw [managed?] at hnone
  rw [hnone, Option.none_or, managed?]

/-! ## The run -/

/-- A build succeeds when it loads a lineage, merges it, adds what the imports give, and fills the
dependencies, and nothing is wrong with the result. -/
theorem gives_buildWith_iff {fetch : Pom.Fetch (StateM σ)} {system : Bindings}
    {build? : Option (Gav → Modeling (StateM σ) EffectiveModel)} {importing : List Gav}
    {level : Strictness} {gav : Gav} {e : EffectiveModel} {s t : σ} :
    Gives (buildWith fetch system build? importing level gav).run s (.ok e) t ↔
      ∃ lineage u merged management,
        Gives (Pom.lineage fetch gav).run s (.ok lineage) u ∧
        ofLineage system lineage = .ok merged ∧
        Gives (importBoms build? importing gav (merged.management.filter (!isImport ·))
          (merged.management.filter isImport)).run u (.ok management) t ∧
        e = ({ merged with management } : EffectiveModel).applyManagement ∧
        e.fault? gav level = none := by
  rw [buildWith, gives_ok_bind_iff]
  constructor
  · intro h
    obtain ⟨lineage, u, hlineage, h⟩ := h
    cases hmerged : ofLineage system lineage with
    | error fault =>
      simp only [hmerged] at h
      exact absurd h not_gives_ok_throw
    | ok merged =>
      simp only [hmerged, List.partition_eq_filter_filter, gives_ok_bind_iff] at h
      obtain ⟨management, v, himports, hcheck⟩ := h
      obtain ⟨hcheck, rfl⟩ := gives_pure_iff.1 hcheck
      refine ⟨lineage, u, merged, management, hlineage, hmerged, himports, ?_⟩
      rw [check] at hcheck
      split at hcheck
      · cases hcheck
      · rename_i hfault
        cases hcheck
        exact ⟨rfl, hfault⟩
  · intro hparts
    obtain ⟨lineage, u, merged, management, hlineage, hmerged, himports, rfl, hfault⟩ := hparts
    refine ⟨lineage, u, hlineage, ?_⟩
    simp only [hmerged, List.partition_eq_filter_filter, gives_ok_bind_iff]
    refine ⟨management, t, himports, gives_pure_iff.2 ⟨?_, rfl⟩⟩
    rw [check, hfault]

/-- A build that succeeds has a lineage and a merged model, and its management is that of the
merged model without the imports, with entries for other keys behind it. -/
theorem exists_of_gives_build {locate : Locate (StateM σ)} {system : Bindings} {level : Strictness}
    {gav : Gav} {e : EffectiveModel} {s t : σ}
    (h : Gives (build locate system level gav).run s (.ok e) t) :
    ∃ lineage u merged others,
      Gives (Pom.lineage (Pom.fetch locate) gav).run s (.ok lineage) u ∧
      ofLineage system lineage = .ok merged ∧
      e.management = merged.management.filter (!isImport ·) ++ others ∧
      (∀ d ∈ others, d.key ∉ (merged.management.filter (!isImport ·)).map (·.key)) ∧
      e.dependencies = merged.dependencies.map (fill e.management) := by
  rw [build, importLimit, buildWithin] at h
  obtain ⟨lineage, u, merged, management, hlineage, hmerged, himports, rfl, -⟩ :=
    gives_buildWith_iff.1 h
  obtain ⟨others, hmanagement, hothers⟩ := exists_append_of_gives_importBoms himports
  exact ⟨lineage, u, merged, others, hlineage, hmerged, hmanagement, hothers, rfl⟩

end EffectiveModel

end ArtifactGraph
