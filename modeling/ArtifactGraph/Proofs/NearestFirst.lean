import ArtifactGraph.EffectiveModel

/-!
# Inheritance from the near end

`inherit` starts at the root of a lineage and lets each POM change what it inherits: a coordinate
is replaced if the POM has one, the artifact and the packaging are set anew, properties are bound
over those that are there, and entries are merged by their keys.  Read from the near end, these
rules are one: the nearest POM that says something counts.

* Coordinates.  `firstNonBlank` of the `coordinateTexts` of a lineage, in which the own text of a
  POM stands before that of its reference to the parent.
* Properties.  `get?_properties_inherit`: the nearest POM that has a name gives its text.
* Entries.  `nearestFirst` puts together what each POM declares and no nearer one does;
  `nearestFirst_cons`: a merge by keys puts one more POM in front.

`inherit_eq_nearest_first` is the whole reading.  Keys are compared as they are written.
-/

namespace ArtifactGraph.EffectiveModel

/-! ## Coordinates -/

/-- The first text that is not blank, trimmed. -/
def firstNonBlank (texts : List (Option String)) : Option String := texts.findSome? Pom.trimmed

theorem firstNonBlank_cons (text : Option String) (texts : List (Option String)) :
    firstNonBlank (text :: texts) = (Pom.trimmed text).or (firstNonBlank texts) := by
  rw [firstNonBlank, List.findSome?_cons, firstNonBlank]
  cases Pom.trimmed text <;> rfl

/-- A coordinate of the POMs of a lineage, nearest first: of each its own one, and behind it the one
in its reference to the parent. -/
def coordinateTexts (own : Pom → Option String) (inParent : Pom.Parent → Option String)
    (lineage : List Pom) : List (Option String) :=
  lineage.flatMap fun pom => [own pom, pom.parent.bind inParent]

/-- With one more POM in front, its own text comes first, then that of its reference to the parent,
and then what there was. -/
theorem firstNonBlank_coordinateTexts_cons (own : Pom → Option String)
    (inParent : Pom.Parent → Option String) (pom : Pom) (ancestors : List Pom) :
    firstNonBlank (coordinateTexts own inParent (pom :: ancestors)) =
      ((Pom.trimmed (own pom)).or (pom.parent.bind fun p => Pom.trimmed (inParent p))).or
        (firstNonBlank (coordinateTexts own inParent ancestors)) := by
  have hparent : (pom.parent.bind fun p => Pom.trimmed (inParent p)) =
      Pom.trimmed (pom.parent.bind inParent) := by
    cases pom.parent <;> rfl
  have hsplit : coordinateTexts own inParent (pom :: ancestors) =
      own pom :: pom.parent.bind inParent :: coordinateTexts own inParent ancestors := rfl
  rw [hsplit, firstNonBlank_cons, firstNonBlank_cons, hparent, Option.or_assoc]

theorem groupId_inherit (lineage : List Pom) :
    (inherit lineage).groupId =
      (firstNonBlank (coordinateTexts Pom.groupId Pom.Parent.groupId lineage)).getD "" := by
  induction lineage with
  | nil => rfl
  | cons pom ancestors ih =>
    rw [firstNonBlank_coordinateTexts_cons, Option.getD_or, ← ih]
    rfl

theorem version_inherit (lineage : List Pom) :
    (inherit lineage).version =
      (firstNonBlank (coordinateTexts Pom.version Pom.Parent.version lineage)).getD "" := by
  induction lineage with
  | nil => rfl
  | cons pom ancestors ih =>
    rw [firstNonBlank_coordinateTexts_cons, Option.getD_or, ← ih]
    rfl

/-! ## Properties -/

/-- The text that a POM gives to a name. -/
def propertyText? (name : String) (pom : Pom) : Option String :=
  NameMap.get? (NameMap.ofList pom.propertyMap) name

/-- A name has the text of the nearest POM that defines it. -/
theorem get?_properties_inherit (lineage : List Pom) (name : String) :
    NameMap.get? (inherit lineage).properties name = lineage.findSome? (propertyText? name) := by
  induction lineage with
  | nil => rfl
  | cons pom ancestors ih =>
    have hextend : (inherit (pom :: ancestors)).properties =
        NameMap.extend (inherit ancestors).properties pom.propertyMap := rfl
    have hown : propertyText? name pom = pom.propertyMap.reverse.lookup name := by
      rw [propertyText?, NameMap.ofList, NameMap.get?_extend, NameMap.get?_nil, Option.or_none]
    rw [hextend, NameMap.get?_extend, ih, List.findSome?_cons, hown]
    cases pom.propertyMap.reverse.lookup name <;> rfl

/-! ## Entries -/

section

variable (entries : Pom → List ModelDependency)

/-- The entries of a POM whose key none of the nearer POMs declares. -/
def undeclared (nearer : List Pom) (pom : Pom) : List ModelDependency :=
  (entries pom).filter fun d => !(nearer.flatMap entries).any (·.key == d.key)

/-- What each POM declares and no nearer one does, one POM after the other. -/
def nearestFirst (lineage : List Pom) : List ModelDependency :=
  (lineage.mapIdx fun i pom => undeclared entries (lineage.take i) pom).flatten

theorem undeclared_nil (pom : Pom) : undeclared entries [] pom = entries pom := by
  simp [undeclared]

/-- What a POM declares and neither the nearest one nor those between do. -/
theorem undeclared_cons (nearest : Pom) (between : List Pom) (pom : Pom) :
    undeclared entries (nearest :: between) pom =
      (undeclared entries between pom).filter fun d =>
        !((entries nearest).map (·.key)).contains d.key := by
  rw [undeclared, undeclared, List.filter_filter]
  refine List.filter_congr fun d _ => ?_
  rw [Bool.eq_iff_iff]
  simp

/-- A merge by keys puts one more POM in front of those that were read. -/
theorem nearestFirst_cons (pom : Pom) (ancestors : List Pom) :
    nearestFirst entries (pom :: ancestors) =
      mergeByKey (entries pom) (nearestFirst entries ancestors) := by
  have hancestors : (ancestors.mapIdx fun i p => undeclared entries (pom :: ancestors.take i) p) =
      (ancestors.mapIdx fun i p => undeclared entries (ancestors.take i) p).map
        (·.filter fun d => !((entries pom).map (·.key)).contains d.key) := by
    refine List.ext_getElem (by simp) fun i _ _ => ?_
    simp only [List.getElem_map, List.getElem_mapIdx, undeclared_cons]
  rw [nearestFirst, List.mapIdx_cons, List.flatten_cons, List.take_zero, undeclared_nil]
  simp only [List.take_succ_cons]
  rw [hancestors, ← List.filter_flatten, mergeByKey, nearestFirst]

end

theorem dependencies_inherit_eq_nearestFirst (lineage : List Pom) :
    (inherit lineage).dependencies = nearestFirst Pom.modelDependencies lineage := by
  induction lineage with
  | nil => rfl
  | cons pom ancestors ih =>
    rw [nearestFirst_cons, ← ih]
    rfl

theorem management_inherit_eq_nearestFirst (lineage : List Pom) :
    (inherit lineage).management = nearestFirst Pom.managedDependencies lineage := by
  induction lineage with
  | nil => rfl
  | cons pom ancestors ih =>
    rw [nearestFirst_cons, ← ih]
    rfl

/-! ## The whole -/

/-- A lineage is merged from its root on. -/
theorem inherit_eq_foldl (lineage : List Pom) :
    inherit lineage = lineage.reverse.foldl inheritFrom {} := by
  rw [List.foldl_reverse]
  induction lineage with
  | nil => rfl
  | cons pom ancestors ih => rw [List.foldr_cons, ← ih, inherit]

/-- The model of a lineage, merged from the root on, is what the lineage says when it is read from
the near end: the artifact and the packaging of the nearest POM, the first coordinates that are not
blank, the nearest text of every property, and the entries whose keys no nearer POM declares. -/
theorem inherit_eq_nearest_first (pom : Pom) (ancestors : List Pom) :
    let lineage := pom :: ancestors
    let model := lineage.reverse.foldl inheritFrom {}
    inherit lineage = model ∧
    model.groupId =
      (firstNonBlank (coordinateTexts Pom.groupId Pom.Parent.groupId lineage)).getD "" ∧
    model.version =
      (firstNonBlank (coordinateTexts Pom.version Pom.Parent.version lineage)).getD "" ∧
    model.artifactId = (Pom.trimmed pom.artifactId).getD "" ∧
    model.packaging = (Pom.trimmed pom.packaging).getD defaultPackaging ∧
    (∀ name, NameMap.get? model.properties name = lineage.findSome? (propertyText? name)) ∧
    model.dependencies = nearestFirst Pom.modelDependencies lineage ∧
    model.management = nearestFirst Pom.managedDependencies lineage := by
  intro lineage model
  have hmodel : model = inherit lineage := (inherit_eq_foldl lineage).symm
  rw [hmodel]
  exact ⟨rfl, groupId_inherit lineage, version_inherit lineage, rfl, rfl,
    get?_properties_inherit lineage, dependencies_inherit_eq_nearestFirst lineage,
    management_inherit_eq_nearestFirst lineage⟩

-- A blank version does not count, and that of the reference comes before that of the parent itself.
example : (inherit [{ version := some " ", parent := some ⟨some "g", some "p", some "2"⟩ },
    { version := some "3" }]).version = "2" := by decide

end ArtifactGraph.EffectiveModel
