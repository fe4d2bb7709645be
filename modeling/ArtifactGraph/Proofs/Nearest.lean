import ArtifactGraph.Proofs.Management
import ArtifactGraph.Proofs.Shelves
import Mathlib.Tactic.ByContra

/-!
# How far the nearest generation wins

A lineage is merged by keys as they are written, and its entries are used by keys as they are
expanded.  Two generations that write one key in two ways are therefore both heard.

* Dependencies.  `farther_dependency_absent_iff`: of two generations that declare dependencies of
  one expanded key, the farther one is left out exactly when each of its dependencies of this key
  is written with the key of a nearer one.
* Management.  `filled_from_nearest_iff`: what a dependency leaves open is filled from the nearest
  generation that manages its key exactly when that generation has an entry which is not
  overridden, and those behind it have none.

Both are followed by lineages at which the nearest generation does not win.
-/

namespace ArtifactGraph.EffectiveModel

open Expression (Layers)

variable {σ : Type}

/-! ## A key in two spellings -/

def spellingPieces : List String :=
  ["<project>", "<parent>", "<groupId>g</groupId>", "<artifactId>p</artifactId>",
    "<version>1</version>", "</parent>", "<artifactId>c</artifactId>",
    "<properties>", "<own>x</own>", "</properties>",
    "<dependencyManagement>", "<dependencies>", "<dependency>",
    "<groupId>$\x7bown\x7d</groupId>", "<artifactId>a</artifactId>", "<version>1</version>",
    "</dependency>", "</dependencies>", "</dependencyManagement>",
    "<dependencies>", "<dependency>", "<groupId>x</groupId>", "<artifactId>a</artifactId>",
    "</dependency>", "<dependency>", "<groupId>$\x7bown\x7d</groupId>",
    "<artifactId>b</artifactId>", "<version>1</version>", "</dependency>", "</dependencies>",
    "</project>"]

def spellingPom : Pom :=
  { artifactId := some "c", parent := some ⟨some "g", some "p", some "1"⟩
    properties := some [("own", "x")]
    dependencies := some [{ groupId := some "x", artifactId := some "a" },
      { groupId := some "$\x7bown\x7d", artifactId := some "b", version := some "1" }]
    management := some (some
      [{ groupId := some "$\x7bown\x7d", artifactId := some "a", version := some "1" }]) }

theorem read?_spellingPieces : Pom.read? (Text.ofPieces spellingPieces) = some spellingPom := by
  rw [Pom.read?, Xml.readRoot?, Text.toList_ofPieces]
  decide +kernel

/-- A POM that writes the group of its entries as an expression. -/
def spellingChild : Volume :=
  { gav := ⟨"g", "c", "1"⟩, pieces := spellingPieces, pom := spellingPom
    read_eq := read?_spellingPieces }

def plainPieces : List String :=
  ["<project>", "<groupId>g</groupId>", "<artifactId>p</artifactId>",
    "<version>1</version>", "<dependencyManagement>", "<dependencies>", "<dependency>",
    "<groupId>x</groupId>", "<artifactId>a</artifactId>", "<version>2</version>",
    "</dependency>", "</dependencies>", "</dependencyManagement>",
    "<dependencies>", "<dependency>", "<groupId>x</groupId>", "<artifactId>b</artifactId>",
    "<version>2</version>", "</dependency>", "</dependencies>", "</project>"]

def plainPom : Pom :=
  { groupId := some "g", artifactId := some "p", version := some "1"
    dependencies := some [{ groupId := some "x", artifactId := some "b", version := some "2" }]
    management := some (some
      [{ groupId := some "x", artifactId := some "a", version := some "2" }]) }

theorem read?_plainPieces : Pom.read? (Text.ofPieces plainPieces) = some plainPom := by
  rw [Pom.read?, Xml.readRoot?, Text.toList_ofPieces]
  decide +kernel

/-- Its parent, which writes the same group plainly. -/
def plainParent : Volume :=
  { gav := ⟨"g", "p", "1"⟩, pieces := plainPieces, pom := plainPom, read_eq := read?_plainPieces }

/-- The locator that finds the two. -/
def spellings : Locate (StateM Unit) :=
  (Shelf.ofVolumes "shelf" [spellingChild, plainParent]).locator

/-- The lineage of the child. -/
def spelledLineage : List Pom := [spellingChild.pom, plainParent.pom]

/-- The layers with which its entries are expanded. -/
def spelledLayers : Layers :=
  [projectValues (inherit spelledLineage) spellingChild.pom.parent, [("own", "x")], []]

/-- The model of the child: its dependency on `a` has the version that the parent manages, and it
depends on `b` in the parent's version, too. -/
def spelledModel : EffectiveModel :=
  { groupId := "g", artifactId := "c", version := "1", packaging := "jar"
    properties := [("own", "x")]
    dependencies := [{ groupId := "x", artifactId := "a", version := some "2" },
      { groupId := "x", artifactId := "b", version := some "1" },
      { groupId := "x", artifactId := "b", version := some "2" }]
    management := [{ groupId := "x", artifactId := "a", version := some "1" },
      { groupId := "x", artifactId := "a", version := some "2" }] }

theorem gives_lineage_spellings :
    Gives (Pom.lineage (Pom.fetch spellings) ⟨"g", "c", "1"⟩).run () (.ok spelledLineage) () := by
  rw [spellings, Pom.fetch_locator]
  exact gives_ok_of_toOption (by decide +kernel)

theorem gives_build_spellings :
    Gives (build spellings [] .minimal ⟨"g", "c", "1"⟩).run () (.ok spelledModel) () := by
  rw [build, spellings, Pom.fetch_locator]
  exact gives_ok_of_toOption (by decide +kernel)

theorem expressionLayers_spelledLineage :
    expressionLayers [] spelledLineage = .ok spelledLayers :=
  eq_ok_of_toOption (by decide +kernel)

/-! ## Where the entries of a model come from -/

/-- The expanded entries among `entries` that stand for no import. -/
def ownManagement (layers : Layers) (entries : List (Nat × ModelDependency)) :
    List ModelDependency :=
  (entries.map fun x => expandWith layers x.2).filter (!isImport ·)

/-- The dependencies of a built model are the surviving ones of its lineage, expanded and filled,
and its management begins with the surviving entries that are no imports. -/
theorem exists_survivors_of_gives_build {locate : Locate (StateM σ)} {system : Bindings}
    {level : Strictness} {gav : Gav} {e : EffectiveModel} {s t : σ}
    (h : Gives (build locate system level gav).run s (.ok e) t) :
    ∃ lineage u layers others,
      Gives (Pom.lineage (Pom.fetch locate) gav).run s (.ok lineage) u ∧
      expressionLayers system lineage = .ok layers ∧
      (∀ x ∈ survivors Pom.modelDependencies lineage ++ survivors Pom.managedDependencies lineage,
        interpolateDependency layers x.2 = .ok (expandWith layers x.2)) ∧
      e.dependencies = (survivors Pom.modelDependencies lineage).map
        (fun x => fill e.management (expandWith layers x.2)) ∧
      e.management = ownManagement layers (survivors Pom.managedDependencies lineage) ++ others ∧
      ∀ d ∈ others, d.key ∉
        (ownManagement layers (survivors Pom.managedDependencies lineage)).map (·.key) := by
  obtain ⟨lineage, u, merged, others, hlineage, hmerged, hmanagement, hothers, hdependencies⟩ :=
    exists_of_gives_build h
  obtain ⟨layers, hlayers, hds, hms⟩ := exists_of_ofLineage_eq_ok hmerged
  rw [dependencies_inherit] at hds
  rw [management_inherit] at hms
  obtain ⟨hds, hdsok⟩ := eq_map_of_interpolateDependencies hds
  obtain ⟨hms, hmsok⟩ := eq_map_of_interpolateDependencies hms
  rw [List.map_map] at hds hms
  rw [hms] at hmanagement hothers
  refine ⟨lineage, u, layers, others, hlineage, hlayers, ?_, ?_, hmanagement, hothers⟩
  · intro x hx
    rcases List.mem_append.1 hx with hx | hx
    · exact hdsok _ (List.mem_map_of_mem hx)
    · exact hmsok _ (List.mem_map_of_mem hx)
  · rw [hdependencies, hds, List.map_map]
    rfl

/-! ## Dependencies -/

/-- Whether a generation declares a dependency whose key, once expanded, is `k`. -/
def Declares (layers : Layers) (lineage : List Pom) (i : Nat) (k : ArtifactKey) : Prop :=
  ∃ d, (i, d) ∈ generations Pom.modelDependencies lineage ∧ expandKey layers d.key = .ok k

/-- The dependencies of a built model are those that survive in its lineage. The nearest generation
that declares a key is there with all that it declares for it. A generation behind another one
that declares the key is left out exactly when each of its dependencies of the key is written
with the key of a nearer one. -/
theorem farther_dependency_absent_iff {locate : Locate (StateM σ)} {system : Bindings}
    {level : Strictness} {gav : Gav} {e : EffectiveModel} {s t : σ}
    (h : Gives (build locate system level gav).run s (.ok e) t) :
    ∃ lineage u layers,
      Gives (Pom.lineage (Pom.fetch locate) gav).run s (.ok lineage) u ∧
      expressionLayers system lineage = .ok layers ∧
      (∀ x ∈ survivors Pom.modelDependencies lineage,
        interpolateDependency layers x.2 = .ok (expandWith layers x.2)) ∧
      e.dependencies = (survivors Pom.modelDependencies lineage).map
        (fun x => fill e.management (expandWith layers x.2)) ∧
      ∀ i k, Declares layers lineage i k →
        ((∀ j, j < i → ¬ Declares layers lineage j k) →
          ∀ d, (i, d) ∈ generations Pom.modelDependencies lineage →
            expandKey layers d.key = .ok k → (i, d) ∈ survivors Pom.modelDependencies lineage) ∧
        ∀ j, i < j → Declares layers lineage j k →
          ((∀ d, (j, d) ∈ survivors Pom.modelDependencies lineage →
              (fill e.management (expandWith layers d)).key ≠ k) ↔
            ∀ d, (j, d) ∈ generations Pom.modelDependencies lineage →
              expandKey layers d.key = .ok k → Overridden Pom.modelDependencies lineage j d) := by
  obtain ⟨lineage, u, layers, others, hlineage, hlayers, hexpand, hdependencies, -, -⟩ :=
    exists_survivors_of_gives_build h
  have hsurvivors : ∀ x ∈ survivors Pom.modelDependencies lineage,
      interpolateDependency layers x.2 = .ok (expandWith layers x.2) :=
    fun x hx => hexpand x (List.mem_append_left _ hx)
  refine ⟨lineage, u, layers, hlineage, hlayers, hsurvivors, hdependencies, ?_⟩
  intro i k _
  constructor
  · intro hnearest d hd hk
    refine mem_survivors_of_nearest (p := fun l => expandKey layers l = .ok k) hd hk ?_
    intro j d' hd' hk'
    exact Nat.le_of_not_lt fun hj => hnearest j hj ⟨d', hd', hk'⟩
  · intro j _ _
    constructor
    · intro habsent d hd hk
      by_contra hover
      have hsurvives := mem_survivors.2 ⟨hd, hover⟩
      have hkey := expandKey_of_interpolateDependency (hsurvivors _ hsurvives)
      rw [hk] at hkey
      have hne := habsent d hsurvives
      rw [key_fill] at hne
      exact hne (Except.ok.inj hkey).symm
    · intro hover d hd hk
      obtain ⟨hmem, hnot⟩ := mem_survivors.1 hd
      have hkey := expandKey_of_interpolateDependency (hsurvivors _ hd)
      rw [key_fill] at hk
      rw [hk] at hkey
      exact hnot (hover d hmem hkey)

theorem farther_dependency_absent_spellings :
    Gives (build spellings [] .minimal ⟨"g", "c", "1"⟩).run () (.ok spelledModel) () ∧
      ∃ lineage u layers,
        Gives (Pom.lineage (Pom.fetch spellings) ⟨"g", "c", "1"⟩).run () (.ok lineage) u ∧
        expressionLayers [] lineage = .ok layers ∧
        ∀ i j k, i < j → Declares layers lineage i k → Declares layers lineage j k →
          ((∀ d, (j, d) ∈ survivors Pom.modelDependencies lineage →
              (fill spelledModel.management (expandWith layers d)).key ≠ k) ↔
            ∀ d, (j, d) ∈ generations Pom.modelDependencies lineage →
              expandKey layers d.key = .ok k → Overridden Pom.modelDependencies lineage j d) := by
  refine ⟨gives_build_spellings, ?_⟩
  obtain ⟨lineage, u, layers, hlineage, hlayers, -, -, hlaw⟩ :=
    farther_dependency_absent_iff gives_build_spellings
  exact ⟨lineage, u, layers, hlineage, hlayers,
    fun i j k hij hi hj => (hlaw i k hi).2 j hij hj⟩

/-- The child and its parent declare the same dependency, and the model has that of the parent,
too. -/
theorem farther_dependency_present :
    Gives (build spellings [] .minimal ⟨"g", "c", "1"⟩).run () (.ok spelledModel) () ∧
      Gives (Pom.lineage (Pom.fetch spellings) ⟨"g", "c", "1"⟩).run () (.ok spelledLineage) () ∧
      expressionLayers [] spelledLineage = .ok spelledLayers ∧
      ∃ k, Declares spelledLayers spelledLineage 0 k ∧ Declares spelledLayers spelledLineage 1 k ∧
        ∃ d, (1, d) ∈ survivors Pom.modelDependencies spelledLineage ∧
          fill spelledModel.management (expandWith spelledLayers d) ∈ spelledModel.dependencies ∧
          (fill spelledModel.management (expandWith spelledLayers d)).key = k := by
  refine ⟨gives_build_spellings, gives_lineage_spellings, expressionLayers_spelledLineage,
    ⟨"x", "b", "", "jar"⟩, ?_, ?_, ?_⟩
  · exact ⟨{ groupId := "$\x7bown\x7d", artifactId := "b", version := some "1" }, by decide +kernel,
      eq_ok_of_toOption (by decide +kernel)⟩
  · exact ⟨{ groupId := "x", artifactId := "b", version := some "2" }, by decide +kernel,
      eq_ok_of_toOption (by decide +kernel)⟩
  · exact ⟨{ groupId := "x", artifactId := "b", version := some "2" }, by decide +kernel,
      by decide +kernel, by decide +kernel⟩

/-! ## Management -/

/-- Whether an entry as it is written, once expanded, manages `k` and stands for no import. -/
def Manages (layers : Layers) (k : ArtifactKey) (d : ModelDependency) : Prop :=
  expandKey layers d.key = .ok k ∧ ¬ ImportsWhenExpanded layers d

/-- Whether `i` is the nearest generation that manages `k`. -/
def NearestToManage (layers : Layers) (lineage : List Pom) (k : ArtifactKey) (i : Nat) : Prop :=
  (∃ d, (i, d) ∈ generations Pom.managedDependencies lineage ∧ Manages layers k d) ∧
    ∀ j d, (j, d) ∈ generations Pom.managedDependencies lineage → Manages layers k d → i ≤ j

/-- Whether `d`, of the generation `j`, is the last of the surviving entries that manage `k`. -/
def LastToManage (layers : Layers) (lineage : List Pom) (k : ArtifactKey) (j : Nat)
    (d : ModelDependency) : Prop :=
  Manages layers k d ∧ ∃ before after,
    survivors Pom.managedDependencies lineage = before ++ (j, d) :: after ∧
      ∀ x ∈ after, ¬ Manages layers k x.2

theorem manages_iff_of_interpolateDependency {layers : Layers} {k : ArtifactKey}
    {d d' : ModelDependency} (h : interpolateDependency layers d = .ok d') :
    Manages layers k d ↔ isImport d' = false ∧ d'.key = k := by
  rw [Manages, expandKey_of_interpolateDependency h, ← isImport_iff_of_interpolateDependency h,
    Bool.not_eq_true, Except.ok.injEq, and_comm]

/-- Where some member of a list meets a condition, there is a last one that does. -/
theorem exists_last_of_mem {α : Type} {p : α → Prop} {l : List α} (h : ∃ x ∈ l, p x) :
    ∃ before x after, l = before ++ x :: after ∧ p x ∧ ∀ y ∈ after, ¬ p y := by
  induction l with
  | nil => simp at h
  | cons a rest ih =>
    by_cases hrest : ∃ x ∈ rest, p x
    · obtain ⟨before, x, after, rfl, hx, hafter⟩ := ih hrest
      exact ⟨a :: before, x, after, rfl, hx, hafter⟩
    · obtain ⟨x, hmem, hx⟩ := h
      rcases List.mem_cons.1 hmem with rfl | hmem
      · exact ⟨[], x, rest, rfl, hx, fun y hy hpy => hrest ⟨y, hy, hpy⟩⟩
      · exact absurd ⟨x, hmem, hx⟩ hrest

/-- The last to manage a key is the entry that counts for it. -/
theorem managed?_of_lastToManage {layers : Layers} {lineage : List Pom} {k : ArtifactKey} {j : Nat}
    {d : ModelDependency} (hlast : LastToManage layers lineage k j d)
    (hexpand : ∀ x ∈ survivors Pom.managedDependencies lineage,
      interpolateDependency layers x.2 = .ok (expandWith layers x.2)) :
    managed? (ownManagement layers (survivors Pom.managedDependencies lineage)) k =
      some (expandWith layers d) := by
  obtain ⟨hmanages, before, after, hsplit, hafter⟩ := hlast
  rw [hsplit] at hexpand
  have hd := hexpand (j, d) (by simp)
  obtain ⟨hplain, hkey⟩ := (manages_iff_of_interpolateDependency hd).1 hmanages
  refine managed?_eq_some_iff.2
    ⟨hkey, ownManagement layers before, ownManagement layers after, ?_, ?_⟩
  · unfold ownManagement
    rw [hsplit, List.map_append, List.map_cons, List.filter_append,
      List.filter_cons_of_pos (by simpa using hplain)]
  · intro y hy hykey
    obtain ⟨hy, hyplain⟩ := List.mem_filter.1 hy
    obtain ⟨x, hx, rfl⟩ := List.mem_map.1 hy
    have hxok := hexpand x (by simp [hx])
    exact hafter x hx ((manages_iff_of_interpolateDependency hxok).2
      ⟨by simpa using hyplain, hykey⟩)

/-- The last to manage a key is of the nearest generation that manages it exactly when this one has
an entry for the key that is not overridden, and all those behind it are overridden. -/
theorem exists_lastToManage_iff {layers : Layers} {lineage : List Pom} {k : ArtifactKey} {i : Nat}
    (hnearest : NearestToManage layers lineage k i) :
    (∃ d, LastToManage layers lineage k i d) ↔
      (∃ d, (i, d) ∈ generations Pom.managedDependencies lineage ∧ Manages layers k d ∧
        ¬ Overridden Pom.managedDependencies lineage i d) ∧
      ∀ j d, i < j → (j, d) ∈ generations Pom.managedDependencies lineage →
        Manages layers k d → Overridden Pom.managedDependencies lineage j d := by
  constructor
  · intro hlast
    obtain ⟨d, hd, before, after, hsplit, hafter⟩ := hlast
    have hmem : (i, d) ∈ survivors Pom.managedDependencies lineage := by simp [hsplit]
    obtain ⟨hgeneration, hnot⟩ := mem_survivors.1 hmem
    refine ⟨⟨d, hgeneration, hd, hnot⟩, ?_⟩
    intro j d' hj hgeneration' hd'
    by_contra hover
    -- An entry behind that survives stands after `d`, for the survivors come nearest first.
    have hmem' := mem_survivors.2 ⟨hgeneration', hover⟩
    have hpairwise : (survivors Pom.managedDependencies lineage).Pairwise fun x y => x.1 ≤ y.1 :=
      pairwise_survivors lineage
    rw [hsplit] at hmem' hpairwise
    rcases List.mem_append.1 hmem' with hbefore | hrest
    · have hle := (List.pairwise_append.1 hpairwise).2.2 _ hbefore (i, d) (by simp)
      simp only at hle
      omega
    · rcases List.mem_cons.1 hrest with heq | hbehind
      · have hji := congrArg Prod.fst heq
        simp only at hji
        omega
      · exact hafter _ hbehind hd'
  · intro hnot
    obtain ⟨⟨d, hgeneration, hd, hnot⟩, hbehind⟩ := hnot
    obtain ⟨before, ⟨j, d'⟩, after, hsplit, hd', hafter⟩ :=
      exists_last_of_mem (p := fun x => Manages layers k x.2)
        ⟨(i, d), mem_survivors.2 ⟨hgeneration, hnot⟩, hd⟩
    have hmem' : (j, d') ∈ survivors Pom.managedDependencies lineage := by simp [hsplit]
    obtain ⟨hgeneration', hnot'⟩ := mem_survivors.1 hmem'
    have hle := hnearest.2 j d' hgeneration' hd'
    have heq : j = i := by
      by_contra hne
      exact hnot' (hbehind j d' (by omega) hgeneration' hd')
    subst heq
    exact ⟨d', hd', before, after, hsplit, hafter⟩

/-- What a dependency of a built model leaves open is filled from the last entry that manages its
key in the lineage, which is never nearer than the nearest generation that manages the key. It is
of this generation exactly when one of its entries for the key is not overridden and all those of
the generations behind it are. -/
theorem filled_from_nearest_iff {locate : Locate (StateM σ)} {system : Bindings}
    {level : Strictness} {gav : Gav} {e : EffectiveModel} {s t : σ}
    (h : Gives (build locate system level gav).run s (.ok e) t) :
    ∃ lineage u layers,
      Gives (Pom.lineage (Pom.fetch locate) gav).run s (.ok lineage) u ∧
      expressionLayers system lineage = .ok layers ∧
      (∀ x ∈ survivors Pom.modelDependencies lineage,
        interpolateDependency layers x.2 = .ok (expandWith layers x.2)) ∧
      e.dependencies = (survivors Pom.modelDependencies lineage).map
        (fun x => fill e.management (expandWith layers x.2)) ∧
      ∀ x ∈ survivors Pom.modelDependencies lineage, ∀ d, d = expandWith layers x.2 →
        ∀ i, NearestToManage layers lineage d.key i →
          (∀ j entry, LastToManage layers lineage d.key j entry →
            i ≤ j ∧ interpolateDependency layers entry = .ok (expandWith layers entry) ∧
              fill e.management d = d.filledFrom (expandWith layers entry)) ∧
          ((∃ entry, LastToManage layers lineage d.key i entry) ↔
            (∃ entry, (i, entry) ∈ generations Pom.managedDependencies lineage ∧
              Manages layers d.key entry ∧
              ¬ Overridden Pom.managedDependencies lineage i entry) ∧
            ∀ j entry, i < j → (j, entry) ∈ generations Pom.managedDependencies lineage →
              Manages layers d.key entry →
                Overridden Pom.managedDependencies lineage j entry) := by
  obtain ⟨lineage, u, layers, others, hlineage, hlayers, hexpand, hdependencies, hmanagement,
    hothers⟩ := exists_survivors_of_gives_build h
  have hmanaged : ∀ x ∈ survivors Pom.managedDependencies lineage,
      interpolateDependency layers x.2 = .ok (expandWith layers x.2) :=
    fun x hx => hexpand x (List.mem_append_right _ hx)
  refine ⟨lineage, u, layers, hlineage, hlayers,
    fun x hx => hexpand x (List.mem_append_left _ hx), hdependencies, ?_⟩
  intro x _ d _ i hnearest
  refine ⟨?_, exists_lastToManage_iff hnearest⟩
  intro j entry hlast
  have hown := managed?_of_lastToManage hlast hmanaged
  obtain ⟨hmanages, before, after, hsplit, -⟩ := hlast
  have hmem : (j, entry) ∈ survivors Pom.managedDependencies lineage := by simp [hsplit]
  refine ⟨hnearest.2 j entry (mem_survivors.1 hmem).1 hmanages, hmanaged _ hmem, ?_⟩
  have hkey : d.key ∈
      (ownManagement layers (survivors Pom.managedDependencies lineage)).map (·.key) := by
    obtain ⟨hkey, before', after', hsplit', -⟩ := managed?_eq_some_iff.1 hown
    rw [hsplit', ← hkey]
    simp
  refine fill_of_managed?_eq_some ?_
  rw [hmanagement, managed?_append_of_mem hkey hothers]
  exact hown

theorem filled_from_nearest_spellings :
    Gives (build spellings [] .minimal ⟨"g", "c", "1"⟩).run () (.ok spelledModel) () ∧
      ∃ lineage u layers,
        Gives (Pom.lineage (Pom.fetch spellings) ⟨"g", "c", "1"⟩).run () (.ok lineage) u ∧
        expressionLayers [] lineage = .ok layers ∧
        ∀ x ∈ survivors Pom.modelDependencies lineage, ∀ d, d = expandWith layers x.2 →
          ∀ i, NearestToManage layers lineage d.key i →
            ∀ j entry, LastToManage layers lineage d.key j entry →
              i ≤ j ∧ fill spelledModel.management d = d.filledFrom (expandWith layers entry) := by
  refine ⟨gives_build_spellings, ?_⟩
  obtain ⟨lineage, u, layers, hlineage, hlayers, -, -, hlaw⟩ :=
    filled_from_nearest_iff gives_build_spellings
  refine ⟨lineage, u, layers, hlineage, hlayers, ?_⟩
  intro x hx d hd i hnearest j entry hlast
  obtain ⟨hle, -, hfill⟩ := (hlaw x hx d hd i hnearest).1 j entry hlast
  exact ⟨hle, hfill⟩

/-- The child manages a key in version 1 and its parent does so in version 2, and a dependency of
the child that leaves its version open has version 2. -/
theorem filled_from_farther :
    Gives (build spellings [] .minimal ⟨"g", "c", "1"⟩).run () (.ok spelledModel) () ∧
      Gives (Pom.lineage (Pom.fetch spellings) ⟨"g", "c", "1"⟩).run () (.ok spelledLineage) () ∧
      expressionLayers [] spelledLineage = .ok spelledLayers ∧
      ∃ x ∈ survivors Pom.modelDependencies spelledLineage,
        x.2.version = none ∧
        NearestToManage spelledLayers spelledLineage (expandWith spelledLayers x.2).key 0 ∧
        (∀ d, (0, d) ∈ generations Pom.managedDependencies spelledLineage →
          (expandWith spelledLayers d).version = some "1") ∧
        fill spelledModel.management (expandWith spelledLayers x.2) ∈ spelledModel.dependencies ∧
        (fill spelledModel.management (expandWith spelledLayers x.2)).version = some "2" := by
  refine ⟨gives_build_spellings, gives_lineage_spellings, expressionLayers_spelledLineage,
    (0, { groupId := "x", artifactId := "a" }), by decide +kernel, rfl, ⟨?_, ?_⟩, ?_,
    by decide +kernel, by decide +kernel⟩
  · refine ⟨{ groupId := "$\x7bown\x7d", artifactId := "a", version := some "1" },
      by decide +kernel, eq_ok_of_toOption (by decide +kernel), ?_⟩
    intro himports
    obtain ⟨hscope, -⟩ := himports
    cases hscope
  · intro j d _ _
    exact Nat.zero_le j
  · intro d hd
    obtain ⟨pom, hpom, hmem⟩ := mem_generations.1 hd
    cases hpom
    rw [List.mem_singleton.1 hmem]
    decide +kernel

end ArtifactGraph.EffectiveModel
