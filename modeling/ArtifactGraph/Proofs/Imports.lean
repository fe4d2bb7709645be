import ArtifactGraph.Proofs.Management
import ArtifactGraph.Proofs.Shelves
import Mathlib.Data.List.Forall2

/-!
# What imported models manage

A model manages what its own lineage manages and, behind that, what the models it imports manage.
Each imported model is built on the way, inside other imports.  With a locator that does not change
its answers this is the model one gets by asking for it alone.

* The same answers.  `steady_build`: over a steady locator a build is steady.
* More room.  `Imports` is one step in the graph of imports, and `gives_buildWith_of_covers` says
  what has to be the same at each step for a build to succeed again.  `gives_buildWithin_of_le`: a
  build that succeeds inside other imports succeeds in the same way with more room and fewer imports
  around it.
* Layers of entries.  `entriesOf_foldl_mergeByKey`: merged one behind the other, lists answer a key
  with the entries of the first list that has the key.
* The run.  `entriesOf_management_of_gives_build` puts these together.
-/

namespace ArtifactGraph

variable {σ : Type}

/-! ## The same answers -/

namespace Pom

variable {locate : Locate (StateM σ)}

theorem steady_fetch (hlocate : ∀ gav, Steady (locate gav)) (gav : Gav) :
    Steady (fetch locate gav).run := by
  have hlift : Steady
      (liftM (locate gav) : Modeling (StateM σ) (Except LocateFault PomSource)).run :=
    (hlocate gav).bind fun _ => steady_pure _
  refine hlift.run_bind fun answer => ?_
  cases answer with
  | error fault => exact steady_throw _
  | ok found =>
    simp only
    split
    · exact steady_throw _
    · exact steady_pure _

theorem steady_lineageFrom {fetch : Fetch (StateM σ)} (hfetch : ∀ gav, Steady (fetch gav).run)
    (gav : Gav) (room : Nat) (seen : List Gav) (current : Gav) :
    Steady (lineageFrom fetch gav room seen current).run := by
  induction room generalizing seen current with
  | zero =>
    rw [lineageFrom]
    split <;> exact steady_throw _
  | succ room ih =>
    rw [lineageFrom]
    split
    · exact steady_throw _
    · refine (hfetch current).run_bind fun pom => ?_
      split
      · exact steady_pure _
      · exact (ih _ _).run_bind fun _ => steady_pure _

end Pom

namespace EffectiveModel

theorem steady_importBoms {build? : Option (Gav → Modeling (StateM σ) EffectiveModel)}
    (hbuild : ∀ build, build? = some build → ∀ gav, Steady (build gav).run)
    (importing : List Gav) (importer : Gav) (managed imports : List ModelDependency) :
    Steady (importBoms build? importing importer managed imports).run := by
  induction imports generalizing managed with
  | nil => exact steady_pure _
  | cons bom rest ih =>
    rw [importBoms]
    split
    · exact steady_throw _
    · dsimp only
      split
      · exact steady_throw _
      · split
        · exact steady_throw _
        · exact (hbuild _ rfl _).run_bind fun model => ih _

theorem steady_buildWith {fetch : Pom.Fetch (StateM σ)} (hfetch : ∀ gav, Steady (fetch gav).run)
    {build? : Option (Gav → Modeling (StateM σ) EffectiveModel)}
    (hbuild : ∀ build, build? = some build → ∀ gav, Steady (build gav).run) (system : Bindings)
    (importing : List Gav) (level : Strictness) (gav : Gav) :
    Steady (buildWith fetch system build? importing level gav).run := by
  refine (Pom.steady_lineageFrom hfetch gav _ _ _).run_bind fun lineage => ?_
  split
  · exact steady_throw _
  · exact (steady_importBoms hbuild _ _ _ _).run_bind fun management => steady_pure _

theorem steady_buildWithin {fetch : Pom.Fetch (StateM σ)} (hfetch : ∀ gav, Steady (fetch gav).run)
    (system : Bindings) (room : Nat) (importing : List Gav) (level : Strictness) (gav : Gav) :
    Steady (buildWithin fetch system room importing level gav).run := by
  induction room generalizing importing level gav with
  | zero => exact steady_buildWith hfetch (by simp) system importing level gav
  | succ room ih =>
    refine steady_buildWith hfetch ?_ system importing level gav
    intro build hbuild imported
    cases hbuild
    exact ih _ _ _

/-- Over a locator that does not change its answers, what a build gives does not depend on what was
asked before. -/
theorem steady_build {locate : Locate (StateM σ)} (hlocate : ∀ gav, Steady (locate gav))
    (system : Bindings) (level : Strictness) (gav : Gav) :
    Steady (build locate system level gav).run :=
  steady_buildWithin (Pom.steady_fetch hlocate) system importLimit [] level gav

/-! ## More room -/

/-- The triple whose management an entry stands for, if the entry names a version. -/
def importedGav? (bom : ModelDependency) : Option Gav :=
  bom.version.map fun version => ⟨bom.groupId, bom.artifactId, version⟩

/-- Whether the management of the lineage of a triple, expanded, has an entry that stands for the
management of another one. -/
def Imports (fetch : Pom.Fetch (StateM σ)) (system : Bindings) (importer imported : Gav) : Prop :=
  ∃ s lineage t merged, Gives (Pom.lineage fetch importer).run s (.ok lineage) t ∧
    ofLineage system lineage = .ok merged ∧
    ∃ bom ∈ merged.management.filter isImport, importedGav? bom = some imported

section

variable {build? build'? : Option (Gav → Modeling (StateM σ) EffectiveModel)}
  {importing importing' : List Gav}

/-- Whether the second way to build imports gives for a triple whatever the first one gives. -/
def Covers (build? build'? : Option (Gav → Modeling (StateM σ) EffectiveModel)) (gav : Gav) :
    Prop :=
  ∀ build, build? = some build → ∃ build', build'? = some build' ∧
    ∀ s e t, Gives (build gav).run s (.ok e) t → Gives (build' gav).run s (.ok e) t

theorem gives_importBoms_of_covers {importer : Gav}
    {managed imports management : List ModelDependency} {s t : σ}
    (hbom : ∀ bom ∈ imports, ∀ imported, importedGav? bom = some imported →
      (imported ∉ importer :: importing → imported ∉ importer :: importing') ∧
        Covers build? build'? imported)
    (h : Gives (importBoms build? importing importer managed imports).run s (.ok management) t) :
    Gives (importBoms build'? importing' importer managed imports).run s (.ok management) t := by
  induction imports generalizing managed s with
  | nil =>
    rw [gives_importBoms_nil_iff] at h ⊢
    exact h
  | cons bom rest ih =>
    obtain ⟨hfirst, hothers⟩ := List.forall_mem_cons.1 hbom
    obtain ⟨version, build, model, u, hversion, hnew, hbuild, hmodel, hrest⟩ :=
      gives_importBoms_cons_iff.1 h
    have himported : importedGav? bom = some ⟨bom.groupId, bom.artifactId, version⟩ := by
      rw [importedGav?, hversion, Option.map_some]
    obtain ⟨hapart, hcovers⟩ := hfirst _ himported
    obtain ⟨build', hbuild', hgives⟩ := hcovers build hbuild
    exact gives_importBoms_cons_iff.2 ⟨version, build', model, u, hversion, hapart hnew, hbuild',
      hgives _ _ _ hmodel, ih hothers hrest⟩

theorem gives_buildWith_of_covers {fetch : Pom.Fetch (StateM σ)} {system : Bindings}
    {level : Strictness} {gav : Gav} {e : EffectiveModel} {s t : σ}
    (himports : ∀ imported, Imports fetch system gav imported →
      (imported ∉ gav :: importing → imported ∉ gav :: importing') ∧
        Covers build? build'? imported)
    (h : Gives (buildWith fetch system build? importing level gav).run s (.ok e) t) :
    Gives (buildWith fetch system build'? importing' level gav).run s (.ok e) t := by
  obtain ⟨lineage, u, merged, management, hlineage, hmerged, hboms, he⟩ :=
    gives_buildWith_iff.1 h
  refine gives_buildWith_iff.2 ⟨lineage, u, merged, management, hlineage, hmerged,
    gives_importBoms_of_covers ?_ hboms, he⟩
  intro bom hbom imported himported
  exact himports imported ⟨s, lineage, u, merged, hlineage, hmerged, bom, hbom, himported⟩

end

/-- The way to build imports where there is a number of them as room, inside those that are going
on. -/
def inner? (fetch : Pom.Fetch (StateM σ)) (system : Bindings) (going : List Gav) :
    Nat → Option (Gav → Modeling (StateM σ) EffectiveModel)
  | 0 => none
  | room + 1 => some (buildWithin fetch system room going .minimal)

theorem buildWithin_eq (fetch : Pom.Fetch (StateM σ)) (system : Bindings) (room : Nat)
    (importing : List Gav) (level : Strictness) (gav : Gav) :
    buildWithin fetch system room importing level gav =
      buildWith fetch system (inner? fetch system (gav :: importing) room) importing level gav := by
  cases room <;> rfl

/-- What is built inside other imports is built in the same way with more room and fewer of them. -/
theorem gives_buildWithin_of_le {fetch : Pom.Fetch (StateM σ)} {system : Bindings}
    {room room' : Nat} (hroom : room ≤ room') {importing importing' : List Gav}
    (hsub : importing' ⊆ importing) {level : Strictness} {gav : Gav} {e : EffectiveModel} {s t : σ}
    (h : Gives (buildWithin fetch system room importing level gav).run s (.ok e) t) :
    Gives (buildWithin fetch system room' importing' level gav).run s (.ok e) t := by
  induction room generalizing room' importing importing' level gav e s t with
  | zero =>
    rw [buildWithin_eq] at h ⊢
    refine gives_buildWith_of_covers ?_ h
    intro imported _
    refine ⟨fun hnew hmem => hnew (List.cons_subset_cons gav hsub hmem), ?_⟩
    intro build hbuild
    cases hbuild
  | succ room ih =>
    rw [buildWithin_eq] at h ⊢
    obtain ⟨room', rfl⟩ : ∃ r, room' = r + 1 := ⟨room' - 1, by omega⟩
    refine gives_buildWith_of_covers ?_ h
    intro imported _
    refine ⟨fun hnew hmem => hnew (List.cons_subset_cons gav hsub hmem), ?_⟩
    intro build hbuild
    cases hbuild
    refine ⟨_, rfl, ?_⟩
    intro s e t himported
    exact ih (by omega) (List.cons_subset_cons gav hsub) himported

/-! ## Layers of entries -/

/-- The entries of a key. -/
def entriesOf (k : ArtifactKey) (entries : List ModelDependency) : List ModelDependency :=
  entries.filter (·.key == k)

/-- The entries of a key in the first of several lists that has the key. -/
def entriesOfFirst (k : ArtifactKey) : List (List ModelDependency) → List ModelDependency
  | [] => []
  | entries :: rest =>
    if k ∈ entries.map (·.key) then entriesOf k entries else entriesOfFirst k rest

theorem entriesOf_eq_nil {k : ArtifactKey} {entries : List ModelDependency}
    (h : k ∉ entries.map (·.key)) : entriesOf k entries = [] := by
  rw [entriesOf, List.filter_eq_nil_iff]
  intro d hd hkey
  exact h (beq_iff_eq.1 hkey ▸ List.mem_map_of_mem hd)

theorem mem_mergeByKey {preferred fallback : List ModelDependency} {d : ModelDependency} :
    d ∈ mergeByKey preferred fallback ↔
      d ∈ preferred ∨ d ∈ fallback ∧ d.key ∉ preferred.map (·.key) := by
  rw [mergeByKey, List.mem_append, List.mem_filter]
  simp

theorem mem_keys_mergeByKey {preferred fallback : List ModelDependency} {k : ArtifactKey} :
    k ∈ (mergeByKey preferred fallback).map (·.key) ↔
      k ∈ preferred.map (·.key) ∨ k ∈ fallback.map (·.key) := by
  simp only [List.mem_map, mem_mergeByKey]
  constructor
  · intro hfound
    obtain ⟨d, hd | hd, rfl⟩ := hfound
    · exact Or.inl ⟨d, hd, rfl⟩
    · exact Or.inr ⟨d, hd.1, rfl⟩
  · intro hfound
    by_cases hpreferred : ∃ d ∈ preferred, d.key = k
    · obtain ⟨d, hd, hk⟩ := hpreferred
      exact ⟨d, Or.inl hd, hk⟩
    · obtain ⟨d, hd, hk⟩ := hfound.resolve_left hpreferred
      exact ⟨d, Or.inr ⟨hd, hk ▸ hpreferred⟩, hk⟩

/-- Of two lists that are merged, the second one counts for the keys that the first has not. -/
theorem entriesOf_mergeByKey (k : ArtifactKey) (preferred fallback : List ModelDependency) :
    entriesOf k (mergeByKey preferred fallback) =
      if k ∈ preferred.map (·.key) then entriesOf k preferred else entriesOf k fallback := by
  rw [entriesOf, mergeByKey, List.filter_append, List.filter_filter]
  split
  · rename_i hk
    have hnone : fallback.filter (fun d => d.key == k &&
        !(preferred.map (·.key)).contains d.key) = [] := by
      rw [List.filter_eq_nil_iff]
      intro d _ hboth
      rw [Bool.and_eq_true, beq_iff_eq] at hboth
      obtain ⟨hkey, hnew⟩ := hboth
      subst hkey
      simp only [Bool.not_eq_true', List.contains_eq_mem, decide_eq_false_iff_not] at hnew
      exact hnew hk
    rw [hnone, List.append_nil, entriesOf]
  · rename_i hk
    have hfallback : fallback.filter (fun d => d.key == k &&
        !(preferred.map (·.key)).contains d.key) = fallback.filter (·.key == k) := by
      apply List.filter_congr
      intro d _
      by_cases hkey : d.key = k
      · subst hkey
        simpa using hk
      · simp [hkey]
    rw [hfallback, ← entriesOf, entriesOf_eq_nil hk, List.nil_append, entriesOf]

/-- Lists that are merged one behind the other answer a key with the entries of the first that has
it. -/
theorem entriesOf_foldl_mergeByKey (k : ArtifactKey) (own : List ModelDependency)
    (others : List (List ModelDependency)) :
    entriesOf k (others.foldl mergeByKey own) = entriesOfFirst k (own :: others) := by
  induction others generalizing own with
  | nil =>
    rw [List.foldl_nil, entriesOfFirst, entriesOfFirst]
    split
    · rfl
    · rename_i hk
      exact entriesOf_eq_nil hk
  | cons next rest ih =>
    rw [List.foldl_cons, ih, entriesOfFirst, entriesOfFirst, entriesOfFirst, entriesOf_mergeByKey]
    by_cases hown : k ∈ own.map (·.key)
    · rw [if_pos hown, if_pos hown, if_pos (mem_keys_mergeByKey.2 (Or.inl hown))]
    · rw [if_neg hown, if_neg hown]
      by_cases hnext : k ∈ next.map (·.key)
      · rw [if_pos hnext, if_pos (mem_keys_mergeByKey.2 (Or.inr hnext))]
      · have hneither : k ∉ (mergeByKey own next).map (·.key) := by
          rw [mem_keys_mergeByKey]
          exact not_or.2 ⟨hown, hnext⟩
        rw [if_neg hnext, if_neg hneither]

/-! ## The run -/

/-- Imports add, one behind the other, what the models built for them manage. -/
theorem exists_models_of_gives_importBoms
    {build? : Option (Gav → Modeling (StateM σ) EffectiveModel)} {importing : List Gav}
    {importer : Gav} {managed imports management : List ModelDependency} {s t : σ}
    (h : Gives (importBoms build? importing importer managed imports).run s (.ok management) t) :
    ∃ models : List EffectiveModel,
      List.Forall₂ (fun bom model => ∃ version build u v, bom.version = some version ∧
        build? = some build ∧
        Gives (build ⟨bom.groupId, bom.artifactId, version⟩).run u (.ok model) v) imports models ∧
      management = (models.map (·.management)).foldl mergeByKey managed := by
  induction imports generalizing managed s with
  | nil =>
    obtain ⟨rfl, -⟩ := gives_importBoms_nil_iff.1 h
    exact ⟨[], .nil, rfl⟩
  | cons bom rest ih =>
    obtain ⟨version, build, model, u, hversion, -, hbuild, hmodel, hrest⟩ :=
      gives_importBoms_cons_iff.1 h
    obtain ⟨models, hmodels, hmanagement⟩ := ih hrest
    exact ⟨model :: models, .cons ⟨version, build, s, u, hversion, hbuild, hmodel⟩ hmodels,
      hmanagement⟩

section

variable {build? : Option (Gav → Modeling (StateM σ) EffectiveModel)} {importing : List Gav}

theorem isImport_eq_false_of_gives_importBoms
    (hbuild : ∀ build, build? = some build → ∀ gav s e t, Gives (build gav).run s (.ok e) t →
      ∀ d ∈ e.management, isImport d = false)
    {importer : Gav} {managed imports management : List ModelDependency} {s t : σ}
    (hmanaged : ∀ d ∈ managed, isImport d = false)
    (h : Gives (importBoms build? importing importer managed imports).run s (.ok management) t) :
    ∀ d ∈ management, isImport d = false := by
  induction imports generalizing managed s with
  | nil =>
    obtain ⟨rfl, -⟩ := gives_importBoms_nil_iff.1 h
    exact hmanaged
  | cons bom rest ih =>
    obtain ⟨version, build, model, u, -, -, hsome, hmodel, hrest⟩ := gives_importBoms_cons_iff.1 h
    refine ih ?_ hrest
    intro d hd
    rcases mem_mergeByKey.1 hd with hd | ⟨hd, -⟩
    · exact hmanaged d hd
    · exact hbuild build hsome _ _ _ _ hmodel d hd

theorem isImport_eq_false_of_gives_buildWith
    (hbuild : ∀ build, build? = some build → ∀ gav s e t, Gives (build gav).run s (.ok e) t →
      ∀ d ∈ e.management, isImport d = false)
    {fetch : Pom.Fetch (StateM σ)} {system : Bindings} {level : Strictness} {gav : Gav}
    {e : EffectiveModel} {s t : σ}
    (h : Gives (buildWith fetch system build? importing level gav).run s (.ok e) t) :
    ∀ d ∈ e.management, isImport d = false := by
  obtain ⟨lineage, u, merged, management, -, -, himports, rfl, -⟩ := gives_buildWith_iff.1 h
  refine isImport_eq_false_of_gives_importBoms hbuild ?_ himports
  intro d hd
  simpa using (List.mem_filter.1 hd).2

end

/-- No entry of a built model stands for an import: neither one of its own that is kept nor, by
induction on the room, one of an imported model. -/
theorem isImport_eq_false_of_gives_buildWithin {fetch : Pom.Fetch (StateM σ)} {system : Bindings}
    {room : Nat} {importing : List Gav} {level : Strictness} {gav : Gav} {e : EffectiveModel}
    {s t : σ} (h : Gives (buildWithin fetch system room importing level gav).run s (.ok e) t) :
    ∀ d ∈ e.management, isImport d = false := by
  induction room generalizing importing level gav e s t with
  | zero => exact isImport_eq_false_of_gives_buildWith (by simp) h
  | succ room ih =>
    refine isImport_eq_false_of_gives_buildWith ?_ h
    intro build hbuild imported s e t himported
    cases hbuild
    exact ih himported

/-- Whether `model` is what one gets, in any state, for the model of an import by asking for it
alone. -/
def StandsFor (locate : Locate (StateM σ)) (system : Bindings) (bom : ModelDependency)
    (model : EffectiveModel) : Prop :=
  ∃ version, bom.version = some version ∧ ∀ s, ∃ t,
    Gives (build locate system .minimal ⟨bom.groupId, bom.artifactId, version⟩).run s (.ok model) t

/-- What a built model holds for a key are the entries of the key in the first of these that has the
key: the expanded management of its lineage without the imports, and then the imported models one
after the other, each as one gets it alone. No import is left. -/
theorem entriesOf_management_of_gives_build {locate : Locate (StateM σ)}
    (hlocate : ∀ gav, Steady (locate gav)) {system : Bindings} {level : Strictness} {gav : Gav}
    {e : EffectiveModel} {s t : σ} (h : Gives (build locate system level gav).run s (.ok e) t) :
    ∃ lineage u merged models,
      Gives (Pom.lineage (Pom.fetch locate) gav).run s (.ok lineage) u ∧
      ofLineage system lineage = .ok merged ∧
      List.Forall₂ (StandsFor locate system) (merged.management.filter isImport) models ∧
      (∀ k, entriesOf k e.management = entriesOfFirst k
        (merged.management.filter (!isImport ·) :: models.map (·.management))) ∧
      ∀ d ∈ e.management, isImport d = false := by
  have hplain := isImport_eq_false_of_gives_buildWithin h
  rw [build, importLimit, buildWithin] at h
  obtain ⟨lineage, u, merged, management, hlineage, hmerged, himports, rfl, -⟩ :=
    gives_buildWith_iff.1 h
  obtain ⟨models, hmodels, rfl⟩ := exists_models_of_gives_importBoms himports
  refine ⟨lineage, u, merged, models, hlineage, hmerged, ?_, ?_, hplain⟩
  · refine hmodels.imp ?_
    intro bom model himported
    obtain ⟨version, build, v, w, hversion, hbuild, hmodel⟩ := himported
    cases hbuild
    -- The model was built inside this one; alone there is more room for its own imports.
    have halone : Gives (build locate system .minimal
        ⟨bom.groupId, bom.artifactId, version⟩).run v (.ok model) w :=
      gives_buildWithin_of_le (by decide) (List.nil_subset _) hmodel
    exact ⟨version, hversion, steady_build hlocate system .minimal _ _ _ _ halone⟩
  · intro k
    exact entriesOf_foldl_mergeByKey k _ _

/-! ## Two imports that share a key -/

def managedEntry (artifactId version : String) : List String :=
  ["<dependency>", "<groupId>x</groupId>", "<artifactId>", artifactId, "</artifactId>",
    "<version>", version, "</version>", "</dependency>"]

def importEntry (artifactId version : String) : List String :=
  ["<dependency>", "<groupId>g</groupId>", "<artifactId>", artifactId, "</artifactId>",
    "<version>", version, "</version>", "<type>pom</type>", "<scope>import</scope>",
    "</dependency>"]

/-- A document with nothing but a property and entries of the management. -/
def managingPieces (artifactId : String) (entries : List (List String)) : List String :=
  ["<project>", "<groupId>g</groupId>", "<artifactId>", artifactId, "</artifactId>",
    "<version>1</version>", "<properties>", "<one>1</one>", "</properties>",
    "<dependencyManagement>", "<dependencies>"] ++ entries.flatten ++
    ["</dependencies>", "</dependencyManagement>", "</project>"]

def managedRaw (artifactId version : String) : Pom.RawDependency :=
  { groupId := some "x", artifactId := some artifactId, version := some version }

def importRaw (artifactId version : String) : Pom.RawDependency :=
  { groupId := some "g", artifactId := some artifactId, version := some version
    type := some "pom", scope := some "import" }

def managingPom (artifactId : String) (entries : List Pom.RawDependency) : Pom :=
  { groupId := some "g", artifactId := some artifactId, version := some "1"
    properties := some [("one", "1")], management := some (some entries) }

/-- The POM that imports the two others. -/
def importerVolume : Volume where
  gav := ⟨"g", "c", "1"⟩
  pieces := managingPieces "c" [importEntry "b" "$\x7bone\x7d", managedEntry "a" "1",
    importEntry "d" "1"]
  pom := managingPom "c" [importRaw "b" "$\x7bone\x7d", managedRaw "a" "1", importRaw "d" "1"]
  read_eq := by
    rw [Pom.read?, Xml.readRoot?, Text.toList_ofPieces]
    decide +kernel

/-- The POM that is imported first, and imports the second one, too. -/
def firstImportVolume : Volume where
  gav := ⟨"g", "b", "1"⟩
  pieces := managingPieces "b" [managedEntry "a" "9", importEntry "d" "1", managedEntry "b" "2"]
  pom := managingPom "b" [managedRaw "a" "9", importRaw "d" "1", managedRaw "b" "2"]
  read_eq := by
    rw [Pom.read?, Xml.readRoot?, Text.toList_ofPieces]
    decide +kernel

def secondImportVolume : Volume where
  gav := ⟨"g", "d", "1"⟩
  pieces := managingPieces "d" [managedEntry "b" "3", managedEntry "c" "4"]
  pom := managingPom "d" [managedRaw "b" "3", managedRaw "c" "4"]
  read_eq := by
    rw [Pom.read?, Xml.readRoot?, Text.toList_ofPieces]
    decide +kernel

def importVolumes : List Volume := [importerVolume, firstImportVolume, secondImportVolume]

def imports : Locate (StateM Unit) := (Shelf.ofVolumes "shelf" importVolumes).locator

/-- The model of the first POM: each version is that of the first who manages the artifact. -/
def importingModel : EffectiveModel :=
  { groupId := "g", artifactId := "c", version := "1", packaging := "jar"
    properties := [("one", "1")]
    management := [{ groupId := "x", artifactId := "a", version := some "1" },
      { groupId := "x", artifactId := "b", version := some "2" },
      { groupId := "x", artifactId := "c", version := some "4" }] }

theorem steady_imports (gav : Gav) : Steady (imports gav) := steady_pure _

theorem gives_build_imports :
    Gives (build imports [] .strict ⟨"g", "c", "1"⟩).run () (.ok importingModel) () := by
  rw [build, imports, Pom.fetch_locator]
  exact gives_ok_of_toOption (by decide +kernel)

theorem entriesOf_management_imports :
    (∀ gav, Steady (imports gav)) ∧
      Gives (build imports [] .strict ⟨"g", "c", "1"⟩).run () (.ok importingModel) () ∧
      ∃ lineage u merged models,
        Gives (Pom.lineage (Pom.fetch imports) ⟨"g", "c", "1"⟩).run () (.ok lineage) u ∧
        ofLineage [] lineage = .ok merged ∧
        List.Forall₂ (StandsFor imports []) (merged.management.filter isImport) models ∧
        (∀ k, entriesOf k importingModel.management = entriesOfFirst k
          (merged.management.filter (!isImport ·) :: models.map (·.management))) ∧
        ∀ d ∈ importingModel.management, isImport d = false :=
  ⟨steady_imports, gives_build_imports,
    entriesOf_management_of_gives_build steady_imports gives_build_imports⟩

end EffectiveModel

end ArtifactGraph
