import ArtifactGraph.Proofs.Nearest
import ArtifactGraph.Proofs.Rescanning

/-!
# The coordinates of a model, and their names

Inside a model its coordinates have names, `project.version` and the like.  They reach the model
that is built on two ways.  As fields of the model they are what the nearest generation says, and
nothing is expanded in them.  Under their names they are expanded as every other text is.

* `isExpressionOf_name`: a name in `${` and `}` is the expression of this name.
* `get?_projectValues`: nothing hides the names of the coordinates.
* `coordinates_of_gives_build`: the built model has the coordinates of the inherited one.
* `own_expression_iff`: the two ways agree exactly where a coordinate is its own expansion.
-/

namespace ArtifactGraph

namespace Expression

/-! ## Expressions of names -/

/-- A name without a closing brace and without blanks around it, in `${` and `}`, is its own
expression. -/
theorem isExpressionOf_name {name : String} (hbrace : '\x7d' ∉ name.toList)
    (htrim : Text.trim name = name) : IsExpressionOf name ("$\x7b" ++ name ++ "\x7d") := by
  have hinside : ¬ closing <:+: name.toList := by
    intro hmem
    exact hbrace (hmem.subset (by simp [closing]))
  have hvalue : "$\x7b" ++ name ++ "\x7d" =
      String.ofList (opening ++ name.toList ++ closing ++ []) := by
    rw [← String.toList_inj, String.toList_ofList]
    simp [opening, closing]
  refine ⟨name.toList, ?_, by rw [String.ofList_toList, htrim]⟩
  rw [hvalue]
  exact pieces_expression_append hinside (unmarked_of_not_mem List.not_mem_nil)

end Expression

namespace EffectiveModel

open Expression (Layers IsExpressionOf Mentions pieces)

variable {σ : Type}

/-! ## The names of a model -/

/-- The names of the coordinates of a model, with these. -/
def coordinates (e : EffectiveModel) : List (String × String) :=
  ownValues "project" e ++ ownValues "pom" e

/-- These names. -/
def ownNames : List String :=
  ["project.groupId", "project.artifactId", "project.version", "project.packaging",
    "pom.groupId", "pom.artifactId", "pom.version", "pom.packaging"]

/-- The names of the reference to the parent. -/
def parentNames : List String :=
  ["project.parent.groupId", "project.parent.artifactId", "project.parent.version"]

theorem names_coordinates (e : EffectiveModel) : (coordinates e).map Prod.fst = ownNames := rfl

theorem mem_ownNames {e : EffectiveModel} {name coordinate : String}
    (h : (name, coordinate) ∈ coordinates e) : name ∈ ownNames :=
  names_coordinates e ▸ List.mem_map_of_mem h

theorem mem_parentNames {parent : Pom.Parent} {p : String × String}
    (h : p ∈ parentValues parent) : p.1 ∈ parentNames := by
  rw [parentValues, List.mem_filterMap] at h
  obtain ⟨⟨name, text⟩, hmem, htrimmed⟩ := h
  obtain ⟨value, -, rfl⟩ := Option.map_eq_some_iff.1 htrimmed
  exact List.mem_map_of_mem (f := Prod.fst) hmem

theorem isExpressionOf_of_mem_ownNames {name : String} (h : name ∈ ownNames) :
    IsExpressionOf name ("$\x7b" ++ name ++ "\x7d") := by
  have hplain : ∀ n ∈ ownNames, '\x7d' ∉ n.toList ∧ Text.trim n = n := by decide
  exact Expression.isExpressionOf_name (hplain name h).1 (hplain name h).2

/-- Nothing hides the names of the coordinates. -/
theorem get?_projectValues {e : EffectiveModel} {name coordinate : String}
    (h : (name, coordinate) ∈ coordinates e) (parent : Option Pom.Parent) :
    NameMap.get? (projectValues e parent) name = some coordinate := by
  have hown : (coordinates e).reverse.lookup name = some coordinate := by
    refine (NameMap.lookup_eq_some_iff ?_).2 (List.mem_reverse.2 h)
    rw [List.map_reverse, List.nodup_reverse, names_coordinates]
    decide
  have hparent (p : Pom.Parent) : (parentValues p).reverse.lookup name = none := by
    rw [List.lookup_eq_none_iff]
    intro q hq
    have hapart : ∀ n ∈ ownNames, ∀ m ∈ parentNames, n ≠ m := by decide
    exact bne_iff_ne.2 (hapart name (mem_ownNames h) q.1 (mem_parentNames (List.mem_reverse.1 hq)))
  unfold projectValues
  rw [← coordinates, NameMap.ofList, NameMap.get?_extend, NameMap.get?_nil, Option.or_none,
    List.reverse_append, List.lookup_append]
  cases parent with
  | none => exact hown
  | some p =>
    simp only [hparent p]
    exact hown

/-- The built model has the coordinates of the inherited one. -/
theorem coordinates_of_gives_build {locate : Locate (StateM σ)} {system : Bindings}
    {level : Strictness} {gav : Gav} {e : EffectiveModel} {lineage : List Pom} {s t u : σ}
    (h : Gives (build locate system level gav).run s (.ok e) t)
    (hlineage : Gives (Pom.lineage (Pom.fetch locate) gav).run s (.ok lineage) u) :
    coordinates e = coordinates (inherit lineage) := by
  rw [build, importLimit, buildWithin] at h
  obtain ⟨lineage', u', merged, management, hlineage', hmerged, -, rfl, -⟩ :=
    gives_buildWith_iff.1 h
  cases (hlineage.unique hlineage').1
  simp only [ofLineage, interpolate, bind_eq_ok_iff] at hmerged
  obtain ⟨_, -, _, -, _, -, hmerged⟩ := hmerged
  cases hmerged
  rfl

/-- A field that is there stays as it is when the others are filled. -/
theorem field_fill {management : List ModelDependency} {d : ModelDependency}
    {field : ModelDependency → Option String} (hfield : field ∈ ModelDependency.fields)
    {text : String} (h : field d = some text) : field (fill management d) = some text := by
  have hkept {a b : Option String} (ha : a = some text) : a.or b = some text := by
    rw [ha]
    rfl
  rw [fill]
  split
  · exact h
  · simp only [ModelDependency.fields, List.mem_cons, List.not_mem_nil, or_false] at hfield
    rcases hfield with rfl | rfl | rfl | rfl | rfl | rfl | rfl
    · exact h
    · exact h
    · exact hkept h
    · exact h
    · exact h
    · exact hkept h
    · exact hkept h

/-! ## The fields of the entries -/

/-- Whether a field is written as the name of a coordinate of the model. -/
def NamesOwn (e : EffectiveModel) (written : Option String) (coordinate : String) : Prop :=
  ∃ name, (name, coordinate) ∈ coordinates e ∧ written = some ("$\x7b" ++ name ++ "\x7d")

/-- Whether in the second entry each field that the first one writes as the name of a coordinate is
the expansion of this. It is the coordinate itself exactly where the coordinate expands to itself,
as one does whose expressions have no value. -/
def SaysOwn (layers : Layers) (e : EffectiveModel) (d d' : ModelDependency) : Prop :=
  ∀ field ∈ ModelDependency.fields, ∀ coordinate, NamesOwn e (field d) coordinate →
    (∃ text, Expression.interpolate layers coordinate = .ok text ∧ field d' = some text) ∧
    (field d' = some coordinate ↔ Expression.interpolate layers coordinate = .ok coordinate) ∧
    ((∀ name, ¬ Mentions layers (pieces coordinate) name) → field d' = some coordinate)

theorem saysOwn_of_interpolateDependency {layers : Layers} {e : EffectiveModel}
    {d d' : ModelDependency}
    (hvalues : ∀ name coordinate, (name, coordinate) ∈ coordinates e →
      layers.get? name = some coordinate)
    (h : interpolateDependency layers d = .ok d') : SaysOwn layers e d d' := by
  intro field hfield coordinate hnames
  obtain ⟨name, hmem, hwritten⟩ := hnames
  have hexpanded := interpolateDependency_eq_ok_iff.1 h field hfield
  rw [hwritten] at hexpanded
  obtain ⟨text, htext, hfield'⟩ := interpolateOptional_some_eq_ok_iff.1 hexpanded
  have hcoordinate : Expression.interpolate layers coordinate = .ok text :=
    (isExpressionOf_of_mem_ownNames (mem_ownNames hmem)).interpolate_eq_ok
      (hvalues name coordinate hmem) htext
  refine ⟨⟨text, hcoordinate, hfield'⟩, ?_, ?_⟩
  · rw [hfield', hcoordinate, Option.some.injEq, Except.ok.injEq]
  · intro hnone
    rw [hfield', Expression.eq_self_of_not_mentions hcoordinate hnone]

theorem SaysOwn.fill {layers : Layers} {e : EffectiveModel} {d d' : ModelDependency}
    (h : SaysOwn layers e d d') (management : List ModelDependency) :
    SaysOwn layers e d (EffectiveModel.fill management d') := by
  intro field hfield coordinate hnames
  obtain ⟨⟨text, hcoordinate, hfield'⟩, hown, hnone⟩ := h field hfield coordinate hnames
  rw [hfield'] at hown hnone
  rw [field_fill hfield hfield']
  exact ⟨⟨text, hcoordinate, rfl⟩, hown, hnone⟩

/-! ## Built models -/

/-- Under its name each coordinate of a built model comes out expanded: in the dependencies of the
model, which are the surviving ones of its lineage, and in its own management. It agrees with the
field of the model exactly where the coordinate, whichever generation it is from, is its own
expansion. -/
theorem own_expression_iff {locate : Locate (StateM σ)} {system : Bindings} {level : Strictness}
    {gav : Gav} {e : EffectiveModel} {s t : σ}
    (h : Gives (build locate system level gav).run s (.ok e) t) :
    ∃ lineage u layers others,
      Gives (Pom.lineage (Pom.fetch locate) gav).run s (.ok lineage) u ∧
      expressionLayers system lineage = .ok layers ∧
      e.dependencies = (survivors Pom.modelDependencies lineage).map
        (fun x => EffectiveModel.fill e.management (expandWith layers x.2)) ∧
      e.management = ownManagement layers (survivors Pom.managedDependencies lineage) ++ others ∧
      (∀ x ∈ survivors Pom.modelDependencies lineage,
        SaysOwn layers e x.2 (EffectiveModel.fill e.management (expandWith layers x.2))) ∧
      ∀ x ∈ survivors Pom.managedDependencies lineage,
        SaysOwn layers e x.2 (expandWith layers x.2) := by
  obtain ⟨lineage, u, layers, others, hlineage, hlayers, hexpand, hdependencies, hmanagement, -⟩ :=
    exists_survivors_of_gives_build h
  have hvalues : ∀ name coordinate, (name, coordinate) ∈ coordinates e →
      layers.get? name = some coordinate := by
    intro name coordinate hmem
    rw [coordinates_of_gives_build h hlineage] at hmem
    simp only [expressionLayers, bind_eq_ok_iff] at hlayers
    obtain ⟨properties, -, hlayers⟩ := hlayers
    cases hlayers
    rw [Layers.get?, List.findSome?_cons, get?_projectValues hmem]
  have hentries : ∀ x ∈ survivors Pom.modelDependencies lineage ++
      survivors Pom.managedDependencies lineage, SaysOwn layers e x.2 (expandWith layers x.2) :=
    fun x hx => saysOwn_of_interpolateDependency hvalues (hexpand x hx)
  refine ⟨lineage, u, layers, others, hlineage, hlayers, hdependencies, hmanagement, ?_, ?_⟩
  · intro x hx
    exact (hentries x (List.mem_append_left _ hx)).fill e.management
  · intro x hx
    exact hentries x (List.mem_append_right _ hx)

def revisedPieces : List String :=
  ["<project>", "<groupId>g</groupId>", "<artifactId>c</artifactId>",
    "<version>$\x7brev\x7d</version>", "<properties>", "<rev>1</rev>", "</properties>",
    "<dependencies>", "<dependency>", "<groupId>$\x7bpom.groupId\x7d</groupId>",
    "<artifactId>a</artifactId>", "<version>$\x7bproject.version\x7d</version>",
    "</dependency>", "</dependencies>", "</project>"]

def revisedPom : Pom :=
  { groupId := some "g", artifactId := some "c", version := some "$\x7brev\x7d"
    properties := some [("rev", "1")]
    dependencies := some [{ groupId := some "$\x7bpom.groupId\x7d", artifactId := some "a",
                            version := some "$\x7bproject.version\x7d" }] }

/-- A POM whose version is an expression, with a dependency in its own group and version. -/
def revisedVolume : Volume where
  gav := ⟨"g", "c", "1"⟩
  pieces := revisedPieces
  pom := revisedPom
  read_eq := by
    rw [Pom.read?, Xml.readRoot?, Text.toList_ofPieces]
    decide +kernel

def revisions : Locate (StateM Unit) := (Shelf.ofVolumes "shelf" [revisedVolume]).locator

/-- Its model: the version is written as it was, and the dependency has what it stands for. -/
def revisedModel : EffectiveModel :=
  { groupId := "g", artifactId := "c", version := "$\x7brev\x7d", packaging := "jar"
    properties := [("rev", "1")]
    dependencies := [{ groupId := "g", artifactId := "a", version := some "1" }] }

/-- The dependency as it is written. -/
def revisedDependency : ModelDependency :=
  { groupId := "$\x7bpom.groupId\x7d", artifactId := "a"
    version := some "$\x7bproject.version\x7d" }

theorem gives_build_revisions :
    Gives (build revisions [] .minimal ⟨"g", "c", "1"⟩).run () (.ok revisedModel) () := by
  rw [build, revisions, Pom.fetch_locator]
  exact gives_ok_of_toOption (by decide +kernel)

theorem gives_lineage_revisions :
    Gives (Pom.lineage (Pom.fetch revisions) ⟨"g", "c", "1"⟩).run () (.ok [revisedPom]) () := by
  rw [revisions, Pom.fetch_locator]
  exact gives_ok_of_toOption (by decide +kernel)

/-- The layers with which the dependency is expanded. -/
def revisedLayers : Layers := [projectValues (inherit [revisedPom]) none, [("rev", "1")], []]

theorem expressionLayers_revised : expressionLayers [] [revisedPom] = .ok revisedLayers :=
  eq_ok_of_toOption (by decide +kernel)

/-- The group has no expression, so the dependency is in the group of the model. -/
theorem own_expression_revisions :
    Gives (build revisions [] .minimal ⟨"g", "c", "1"⟩).run () (.ok revisedModel) () ∧
      ∃ d ∈ revisedModel.dependencies, SaysOwn revisedLayers revisedModel revisedDependency d ∧
        d.groupId = revisedModel.groupId := by
  refine ⟨gives_build_revisions, ?_⟩
  obtain ⟨lineage, u, layers, others, hlineage, hlayers, hdependencies, -, hentries, -⟩ :=
    own_expression_iff gives_build_revisions
  cases (hlineage.unique gives_lineage_revisions).1
  cases hlayers.symm.trans expressionLayers_revised
  have hmem : (0, revisedDependency) ∈ survivors Pom.modelDependencies [revisedPom] := by
    decide +kernel
  have hgroup : NamesOwn revisedModel (some revisedDependency.groupId) "g" :=
    ⟨"pom.groupId", by decide, rfl⟩
  refine ⟨_, hdependencies ▸ List.mem_map_of_mem hmem, hentries _ hmem, ?_⟩
  refine Option.some.inj ((hentries _ hmem (fun d => some d.groupId) (.head _) "g" hgroup).2.2 ?_)
  intro name hmentions
  obtain ⟨inside, raw, hinside, -⟩ := hmentions
  cases List.mem_singleton.1 hinside

/-- The version has one, and the dependency does not have the version of the model. -/
theorem own_version_differs :
    Gives (build revisions [] .minimal ⟨"g", "c", "1"⟩).run () (.ok revisedModel) () ∧
      Gives (Pom.lineage (Pom.fetch revisions) ⟨"g", "c", "1"⟩).run () (.ok [revisedPom]) () ∧
      expressionLayers [] [revisedPom] = .ok revisedLayers ∧
      ∃ x ∈ survivors Pom.modelDependencies [revisedPom],
        x.2.version = some "$\x7bproject.version\x7d" ∧
          ∃ d ∈ revisedModel.dependencies,
            d = EffectiveModel.fill revisedModel.management (expandWith revisedLayers x.2) ∧
              d.version ≠ some revisedModel.version := by
  refine ⟨gives_build_revisions, gives_lineage_revisions, expressionLayers_revised,
    (0, revisedDependency), by decide +kernel, rfl,
    { groupId := "g", artifactId := "a", version := some "1" }, .head _, by decide +kernel, ?_⟩
  decide

end EffectiveModel

end ArtifactGraph
