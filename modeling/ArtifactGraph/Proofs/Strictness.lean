import ArtifactGraph.Proofs.Imports
import ArtifactGraph.Proofs.Scanning

/-!
# Strict and minimal builds

The two levels of a build differ in its last step only: the imported models are built at the minimal
level in either case, so a strict build does all that a minimal one does, and then asks for more.

* The check.  `fault?_eq_none_iff` says what a checked model has, and
  `dependencyFault?_strict_eq_none_iff` what the strict level asks of a dependency beside that.
* The run.  `gives_buildWith_strict_iff`: one build succeeds strictly when it succeeds minimally
  and every dependency has a version without a mark.  `gives_build_strict_iff` is this for a whole
  build over a locator that does not change its answers, together with what every model has.
-/

namespace ArtifactGraph

variable {σ : Type}

namespace ModelDependency

/-- Whether the dependency has a group and an artifact. -/
structure IsNamed (d : ModelDependency) : Prop where
  groupId : d.groupId ≠ ""
  artifactId : d.artifactId ≠ ""

/-- Whether the dependency has a version, and no mark of an expression is left in it. -/
def IsVersioned (d : ModelDependency) : Prop :=
  ∃ version, d.version = some version ∧ ¬ Expression.opening <:+: version.toList

end ModelDependency

namespace EffectiveModel

/-! ## The check -/

/-- Whether the model has all its coordinates, its dependencies have names, and no entry of its
management stands for an import. -/
structure WellFormed (e : EffectiveModel) : Prop where
  groupId : e.groupId ≠ ""
  artifactId : e.artifactId ≠ ""
  version : e.version ≠ ""
  dependencies : ∀ d ∈ e.dependencies, d.IsNamed
  management : ∀ d ∈ e.management, isImport d = false

theorem occurs_opening_iff {s : String} :
    Text.occurs "$\x7b" s = true ↔ Expression.opening <:+: s.toList :=
  Text.occursIn_iff

theorem dependencyFault?_minimal_eq_none_iff {gav : Gav} {d : ModelDependency} :
    dependencyFault? gav .minimal d = none ↔ d.IsNamed := by
  rw [dependencyFault?]
  split
  · rename_i hempty
    rw [Bool.or_eq_true, String.isEmpty_iff, String.isEmpty_iff] at hempty
    constructor
    · intro h
      cases h
    · intro hnamed
      exact (hempty.elim hnamed.groupId hnamed.artifactId).elim
  · rename_i hnamed
    rw [Bool.or_eq_true, String.isEmpty_iff, String.isEmpty_iff, not_or] at hnamed
    constructor
    · intro _
      exact ⟨hnamed.1, hnamed.2⟩
    · intro _
      rfl

/-- The strict level asks for a version without a mark, beside the names. -/
theorem dependencyFault?_strict_eq_none_iff {gav : Gav} {d : ModelDependency} :
    dependencyFault? gav .strict d = none ↔
      dependencyFault? gav .minimal d = none ∧ d.IsVersioned := by
  rw [dependencyFault?, dependencyFault?]
  split
  · simp
  · cases hversion : d.version with
    | none => simp [ModelDependency.IsVersioned, hversion]
    | some version => simp [ModelDependency.IsVersioned, hversion, ← occurs_opening_iff]

/-- Nothing is wrong with a model that has its coordinates and nothing wrong in its dependencies. -/
theorem fault?_eq_none_iff {e : EffectiveModel} {gav : Gav} {level : Strictness} :
    e.fault? gav level = none ↔
      (e.groupId ≠ "" ∧ e.artifactId ≠ "" ∧ e.version ≠ "") ∧
        ∀ d ∈ e.dependencies, dependencyFault? gav level d = none := by
  rw [fault?]
  split
  · rename_i hempty
    simp [String.isEmpty_iff.1 hempty]
  · rename_i hgroup
    split
    · rename_i hempty
      simp [String.isEmpty_iff.1 hempty]
    · rename_i hartifact
      split
      · rename_i hempty
        simp [String.isEmpty_iff.1 hempty]
      · rename_i hversion
        rw [String.isEmpty_iff] at hgroup hartifact hversion
        rw [List.findSome?_eq_none_iff]
        simp [hgroup, hartifact, hversion]

theorem fault?_strict_eq_none_iff {e : EffectiveModel} {gav : Gav} :
    e.fault? gav .strict = none ↔
      e.fault? gav .minimal = none ∧ ∀ d ∈ e.dependencies, d.IsVersioned := by
  simp only [fault?_eq_none_iff, dependencyFault?_strict_eq_none_iff, forall_and, and_assoc]

/-- Whatever the level, the names are asked for. -/
theorem isNamed_of_dependencyFault? {gav : Gav} {level : Strictness} {d : ModelDependency}
    (h : dependencyFault? gav level d = none) : d.IsNamed := by
  cases level with
  | minimal => exact dependencyFault?_minimal_eq_none_iff.1 h
  | strict =>
    exact dependencyFault?_minimal_eq_none_iff.1 (dependencyFault?_strict_eq_none_iff.1 h).1

/-! ## The run -/

section

variable {fetch : Pom.Fetch (StateM σ)} {system : Bindings} {gav : Gav} {e : EffectiveModel}
  {s t : σ}

/-- The level counts in the check at the end only. -/
theorem gives_buildWith_strict_iff
    {build? : Option (Gav → Modeling (StateM σ) EffectiveModel)} {importing : List Gav} :
    Gives (buildWith fetch system build? importing .strict gav).run s (.ok e) t ↔
      Gives (buildWith fetch system build? importing .minimal gav).run s (.ok e) t ∧
        ∀ d ∈ e.dependencies, d.IsVersioned := by
  rw [gives_buildWith_iff, gives_buildWith_iff]
  constructor
  · intro h
    obtain ⟨lineage, u, merged, management, hlineage, hmerged, himports, he, hfault⟩ := h
    obtain ⟨hfault, hversioned⟩ := fault?_strict_eq_none_iff.1 hfault
    exact ⟨⟨lineage, u, merged, management, hlineage, hmerged, himports, he, hfault⟩, hversioned⟩
  · intro h
    obtain ⟨⟨lineage, u, merged, management, hlineage, hmerged, himports, he, hfault⟩,
      hversioned⟩ := h
    exact ⟨lineage, u, merged, management, hlineage, hmerged, himports, he,
      fault?_strict_eq_none_iff.2 ⟨hfault, hversioned⟩⟩

/-- A built model is well formed, at either level. -/
theorem wellFormed_of_gives_buildWithin {room : Nat} {importing : List Gav} {level : Strictness}
    (h : Gives (buildWithin fetch system room importing level gav).run s (.ok e) t) :
    e.WellFormed := by
  have hmanagement := isImport_eq_false_of_gives_buildWithin h
  rw [buildWithin_eq, gives_buildWith_iff] at h
  obtain ⟨lineage, u, merged, management, -, -, -, -, hfault⟩ := h
  obtain ⟨⟨hgroup, hartifact, hversion⟩, hdependencies⟩ := fault?_eq_none_iff.1 hfault
  exact ⟨hgroup, hartifact, hversion,
    fun d hd => isNamed_of_dependencyFault? (hdependencies d hd), hmanagement⟩

end

/-- Every built model is well formed. Over a locator that does not change its answers, a strict
build gives a model exactly when a minimal one, begun in whatever state, gives the same model and
each dependency of it has a version without a mark. -/
theorem gives_build_strict_iff {locate : Locate (StateM σ)} (hlocate : ∀ gav, Steady (locate gav))
    (system : Bindings) (gav : Gav) :
    (∀ level e s t, Gives (build locate system level gav).run s (.ok e) t → e.WellFormed) ∧
      ∀ e s s', (∃ t, Gives (build locate system .strict gav).run s (.ok e) t) ↔
        (∃ t, Gives (build locate system .minimal gav).run s' (.ok e) t) ∧
          ∀ d ∈ e.dependencies, d.IsVersioned := by
  have hsame (e : EffectiveModel) (s t : σ) :
      Gives (build locate system .strict gav).run s (.ok e) t ↔
        Gives (build locate system .minimal gav).run s (.ok e) t ∧
          ∀ d ∈ e.dependencies, d.IsVersioned := by
    rw [build, buildWithin_eq, build, buildWithin_eq]
    exact gives_buildWith_strict_iff
  refine ⟨fun level e s t h => wellFormed_of_gives_buildWithin h, ?_⟩
  intro e s s'
  constructor
  · intro hstrict
    obtain ⟨t, hstrict⟩ := hstrict
    obtain ⟨hminimal, hversioned⟩ := (hsame e s t).1 hstrict
    exact ⟨steady_build hlocate system .minimal gav s _ t hminimal s', hversioned⟩
  · intro hboth
    obtain ⟨⟨t', hminimal⟩, hversioned⟩ := hboth
    obtain ⟨t, hminimal⟩ := steady_build hlocate system .minimal gav s' _ t' hminimal s
    exact ⟨t, (hsame e s t).2 ⟨hminimal, hversioned⟩⟩

/-! ## A version that is left open -/

def dependingEntry (artifactId : String) (version : List String) : List String :=
  ["<dependency>", "<groupId>x</groupId>", "<artifactId>", artifactId, "</artifactId>"] ++
    version ++ ["</dependency>"]

/-- A document that imports `g:b:1` and has dependencies. -/
def dependingPieces (artifactId : String) (entries : List (List String)) : List String :=
  ["<project>", "<groupId>g</groupId>", "<artifactId>", artifactId, "</artifactId>",
    "<version>1</version>", "<dependencyManagement>", "<dependencies>"] ++ importEntry "b" "1" ++
    ["</dependencies>", "</dependencyManagement>", "<dependencies>"] ++ entries.flatten ++
    ["</dependencies>", "</project>"]

def dependingPom (artifactId : String) (dependencies : List Pom.RawDependency) : Pom :=
  { groupId := some "g", artifactId := some artifactId, version := some "1"
    dependencies := some dependencies, management := some (some [importRaw "b" "1"]) }

def importedVolume : Volume where
  gav := ⟨"g", "b", "1"⟩
  pieces := managingPieces "b" [managedEntry "a" "9"]
  pom := managingPom "b" [managedRaw "a" "9"]
  read_eq := by
    rw [Pom.read?, Xml.readRoot?, Text.toList_ofPieces]
    decide +kernel

/-- A POM that leaves a version to the import. -/
def settledVolume : Volume where
  gav := ⟨"g", "c", "1"⟩
  pieces := dependingPieces "c" [dependingEntry "a" []]
  pom := dependingPom "c" [{ groupId := some "x", artifactId := some "a" }]
  read_eq := by
    rw [Pom.read?, Xml.readRoot?, Text.toList_ofPieces]
    decide +kernel

/-- A POM that has, beside such a dependency, one whose version is an expression without a value. -/
def openVolume : Volume where
  gav := ⟨"g", "d", "1"⟩
  pieces := dependingPieces "d"
    [dependingEntry "a" [], dependingEntry "b" ["<version>", "$\x7bgone\x7d", "</version>"]]
  pom := dependingPom "d" [{ groupId := some "x", artifactId := some "a" },
    { groupId := some "x", artifactId := some "b", version := some "$\x7bgone\x7d" }]
  read_eq := by
    rw [Pom.read?, Xml.readRoot?, Text.toList_ofPieces]
    decide +kernel

def openVolumes : List Volume := [importedVolume, settledVolume, openVolume]

def openShelf : Locate (StateM Unit) := (Shelf.ofVolumes "shelf" openVolumes).locator

def settledModel : EffectiveModel :=
  { groupId := "g", artifactId := "c", version := "1", packaging := "jar"
    dependencies := [{ groupId := "x", artifactId := "a", version := some "9" }]
    management := [{ groupId := "x", artifactId := "a", version := some "9" }] }

def openModel : EffectiveModel :=
  { groupId := "g", artifactId := "d", version := "1", packaging := "jar"
    dependencies := [{ groupId := "x", artifactId := "a", version := some "9" },
      { groupId := "x", artifactId := "b", version := some "$\x7bgone\x7d" }]
    management := [{ groupId := "x", artifactId := "a", version := some "9" }] }

theorem steady_openShelf (gav : Gav) : Steady (openShelf gav) := steady_pure _

theorem gives_build_settledModel :
    Gives (build openShelf [] .minimal ⟨"g", "c", "1"⟩).run () (.ok settledModel) () := by
  rw [build, openShelf, Pom.fetch_locator]
  exact gives_ok_of_toOption (by decide +kernel)

theorem gives_build_openModel :
    Gives (build openShelf [] .minimal ⟨"g", "d", "1"⟩).run () (.ok openModel) () := by
  rw [build, openShelf, Pom.fetch_locator]
  exact gives_ok_of_toOption (by decide +kernel)

/-- Both models can be built minimally, and only the one without an expression strictly. -/
theorem gives_build_strict_settled :
    (∀ gav, Steady (openShelf gav)) ∧
      Gives (build openShelf [] .minimal ⟨"g", "d", "1"⟩).run () (.ok openModel) () ∧
      openModel.WellFormed ∧
      (∃ t, Gives (build openShelf [] .strict ⟨"g", "c", "1"⟩).run () (.ok settledModel) t) ∧
      ¬ ∃ t, Gives (build openShelf [] .strict ⟨"g", "d", "1"⟩).run () (.ok openModel) t := by
  obtain ⟨-, hsettled⟩ := gives_build_strict_iff steady_openShelf [] ⟨"g", "c", "1"⟩
  obtain ⟨hwell, hopen⟩ := gives_build_strict_iff steady_openShelf [] ⟨"g", "d", "1"⟩
  refine ⟨steady_openShelf, gives_build_openModel, hwell _ _ _ _ gives_build_openModel, ?_, ?_⟩
  · refine (hsettled settledModel () ()).2 ⟨⟨(), gives_build_settledModel⟩, ?_⟩
    intro d hd
    rw [List.mem_singleton.1 hd]
    exact ⟨"9", rfl, by decide⟩
  · intro hstrict
    obtain ⟨-, hversioned⟩ := (hopen openModel () ()).1 hstrict
    obtain ⟨version, hversion, hmark⟩ := hversioned _ (.tail _ (.head _))
    cases hversion
    exact hmark (by decide)

end EffectiveModel

end ArtifactGraph
