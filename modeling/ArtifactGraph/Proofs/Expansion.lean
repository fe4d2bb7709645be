import ArtifactGraph.Proofs.Inheritance
import ArtifactGraph.Proofs.Runs

/-!
# Expanded entries

The entries of an inherited model are expanded with one and the same layers, `expressionLayers`,
and each of them field by field (`interpolateDependency_eq_ok_iff`).  What becomes of the key of an
entry is therefore a matter of the key alone: `expandKey` expands it without the rest of the entry,
and `expandKey_of_interpolateDependency` says that the two agree.

* `eq_map_of_interpolateDependencies` reads the expansion of a list entry by entry.
* `exists_of_ofLineage_eq_ok` says what a lineage comes to when nothing goes wrong.
-/

namespace ArtifactGraph

namespace Expression

/-- A text without a mark stays as it is. -/
theorem interpolate_of_pieces {layers : Layers} {value : String}
    (h : pieces value = [.text value.toList]) : interpolate layers value = .ok value := by
  simp [interpolate, expand, h, expandPieces, Except.map]

end Expression

/-- The fields of a dependency. The group and the artifact are always there. -/
def ModelDependency.fields : List (ModelDependency → Option String) :=
  [fun d => some d.groupId, fun d => some d.artifactId, (·.version), (·.classifier), (·.type),
    (·.scope), (·.optional)]

namespace EffectiveModel

open Expression (interpolateOptional Layers)

/-! ## Fields -/

/-- A field that is there is expanded when its text is. -/
theorem interpolateOptional_some_eq_ok_iff {layers : Layers} {value : String}
    {expanded : Option String} :
    interpolateOptional layers (some value) = .ok expanded ↔
      ∃ text, Expression.interpolate layers value = .ok text ∧ expanded = some text := by
  rw [interpolateOptional]
  cases Expression.interpolate layers value with
  | error e => simp [Except.map]
  | ok text => simp [Except.map, eq_comm]

/-- An entry is expanded field by field. -/
theorem interpolateDependency_eq_ok_iff {layers : Layers} {d d' : ModelDependency} :
    interpolateDependency layers d = .ok d' ↔
      ∀ field ∈ ModelDependency.fields, interpolateOptional layers (field d) = .ok (field d') := by
  simp only [ModelDependency.fields, List.forall_mem_cons, interpolateOptional_some_eq_ok_iff,
    interpolateDependency, bind_eq_ok_iff]
  constructor
  · intro h
    obtain ⟨groupId, hgroup, artifactId, hartifact, version, hversion, classifier, hclassifier,
      type, htype, scope, hscope, optional, hoptional, hd⟩ := h
    cases hd
    exact ⟨⟨groupId, hgroup, rfl⟩, ⟨artifactId, hartifact, rfl⟩, hversion, hclassifier, htype,
      hscope, hoptional, by simp⟩
  · intro h
    obtain ⟨⟨groupId, hgroup, heq⟩, ⟨artifactId, hartifact, heq'⟩, hversion, hclassifier, htype,
      hscope, hoptional, -⟩ := h
    cases heq
    cases heq'
    exact ⟨_, hgroup, _, hartifact, _, hversion, _, hclassifier, _, htype, _, hscope, _, hoptional,
      rfl⟩

/-! ## Keys -/

/-- Expands the parts of a key. -/
def expandKey (layers : Layers) (k : ArtifactKey) : Except Expression.Fault ArtifactKey := do
  let groupId ← Expression.interpolate layers k.groupId
  let artifactId ← Expression.interpolate layers k.artifactId
  let classifier ← Expression.interpolate layers k.classifier
  let type ← Expression.interpolate layers k.type
  return ⟨groupId, artifactId, classifier, type⟩

/-- A default that is no expression may be put in before or after the expansion. -/
theorem interpolate_getD {layers : Layers} {text expanded : Option String} {default : String}
    (hdefault : Expression.interpolate layers default = .ok default)
    (h : interpolateOptional layers text = .ok expanded) :
    Expression.interpolate layers (text.getD default) = .ok (expanded.getD default) := by
  cases text with
  | none =>
    cases h
    exact hdefault
  | some value =>
    simp only [interpolateOptional] at h
    cases hvalue : Expression.interpolate layers value with
    | error e =>
      rw [hvalue] at h
      cases h
    | ok result =>
      rw [hvalue] at h
      cases h
      exact hvalue

/-- The key of an expanded entry is the expanded key of the entry. -/
theorem expandKey_of_interpolateDependency {layers : Layers} {d d' : ModelDependency}
    (h : interpolateDependency layers d = .ok d') : expandKey layers d.key = .ok d'.key := by
  simp only [interpolateDependency, bind_eq_ok_iff] at h
  obtain ⟨groupId, hgroup, artifactId, hartifact, version, -, classifier, hclassifier, type, htype,
    scope, -, optional, -, hd⟩ := h
  cases hd
  have hempty : Expression.interpolate layers defaultClassifier = .ok defaultClassifier :=
    Expression.interpolate_of_pieces rfl
  have hjar : Expression.interpolate layers defaultType = .ok defaultType :=
    Expression.interpolate_of_pieces rfl
  simp only [expandKey, bind_eq_ok_iff]
  exact ⟨groupId, hgroup, artifactId, hartifact, _, interpolate_getD hempty hclassifier, _,
    interpolate_getD hjar htype, rfl⟩

/-! ## Imports -/

/-- Whether an entry as it is written, once expanded, stands for the management of another
model. -/
def ImportsWhenExpanded (layers : Layers) (d : ModelDependency) : Prop :=
  interpolateOptional layers d.scope = .ok (some "import") ∧
    interpolateOptional layers d.type = .ok (some "pom")

theorem isImport_iff_of_interpolateDependency {layers : Layers} {d d' : ModelDependency}
    (h : interpolateDependency layers d = .ok d') :
    isImport d' = true ↔ ImportsWhenExpanded layers d := by
  simp only [interpolateDependency, bind_eq_ok_iff] at h
  obtain ⟨groupId, -, artifactId, -, version, -, classifier, -, type, htype, scope, hscope,
    optional, -, hd⟩ := h
  cases hd
  simp [isImport, ImportsWhenExpanded, htype, hscope]

/-! ## Lists of entries -/

/-- An entry with its expressions expanded; one for which that fails is left as it is. -/
def expandWith (layers : Layers) (d : ModelDependency) : ModelDependency :=
  (interpolateDependency layers d).toOption.getD d

/-- Entries that are expanded without a fault are expanded one by one. -/
theorem eq_map_of_interpolateDependencies {layers : Layers} {ds ds' : List ModelDependency}
    (h : interpolateDependencies layers ds = .ok ds') :
    ds' = ds.map (expandWith layers) ∧
      ∀ d ∈ ds, interpolateDependency layers d = .ok (expandWith layers d) := by
  induction ds generalizing ds' with
  | nil =>
    cases h
    exact ⟨rfl, by simp⟩
  | cons d rest ih =>
    simp only [interpolateDependencies, bind_eq_ok_iff] at h
    obtain ⟨d', hd, others, hrest, heq⟩ := h
    obtain ⟨hothers, hall⟩ := ih hrest
    have hd' : expandWith layers d = d' := by rw [expandWith, hd]; rfl
    cases heq
    rw [List.map_cons, ← hothers, hd']
    refine ⟨rfl, ?_⟩
    intro x hx
    rcases List.mem_cons.1 hx with rfl | hx
    · rw [hd, hd']
    · exact hall x hx

/-! ## Lineages -/

/-- The layers with which the dependencies of a lineage are expanded: the names of the model, its
expanded properties, and those of the surroundings. -/
def expressionLayers (system : Bindings) (lineage : List Pom) :
    Except Expression.Fault Layers := do
  let values := projectValues (inherit lineage) (lineage.head?.bind (·.parent))
  let properties := (inherit lineage).properties
  return [values, ← interpolateProperties [values, properties, system] properties, system]

/-- What a lineage comes to: its inherited model, with the dependencies and the management expanded
entry by entry. -/
theorem exists_of_ofLineage_eq_ok {system : Bindings} {lineage : List Pom} {e : EffectiveModel}
    (h : ofLineage system lineage = .ok e) :
    ∃ layers, expressionLayers system lineage = .ok layers ∧
      interpolateDependencies layers (inherit lineage).dependencies = .ok e.dependencies ∧
      interpolateDependencies layers (inherit lineage).management = .ok e.management := by
  simp only [ofLineage, EffectiveModel.interpolate, bind_eq_ok_iff] at h
  obtain ⟨properties, hproperties, dependencies, hdependencies, management, hmanagement, he⟩ := h
  cases he
  refine ⟨_, ?_, hdependencies, hmanagement⟩
  simp only [expressionLayers, bind_eq_ok_iff]
  exact ⟨properties, hproperties, rfl⟩

end EffectiveModel

end ArtifactGraph
