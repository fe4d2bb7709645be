import ArtifactGraph.Proofs.Expansion
import ArtifactGraph.Proofs.Rescanning

/-!
# Two passes of expansion

The properties of a model are expanded first, and its entries with the expanded properties.  The
text of a property is therefore scanned twice, and what the first pass put together at a seam may be
an expression for the second one.

* Layers that are ahead.  `Anticipates` says that some names, the properties, stand for the
  expansions of their texts already.  A property is `Settled` when its expansion, scanned once more,
  stays as it is.
* Texts.  `interpolate_of_anticipates`: a text comes to the same with the texts of the properties as
  with their expansions if each property that it comes upon is settled.
* Models.  `one_pass_of_interpolateWith` is this for the entries of a model.  It says also that for
  a field which is the expression of a property nothing less will do, and that a property is
  settled where no text that it leads to has room for a seam.
-/

namespace ArtifactGraph

namespace Expression

/-! ## Layers that are ahead -/

/-- Whether in the layers `after` the properties stand for the expansions of their texts in
`before`, and all else stands for the same texts. -/
structure Anticipates (IsProperty : String → Prop) (before after : Layers) : Prop where
  property : ∀ name, IsProperty name → ∃ raw expansion, before.get? name = some raw ∧
    after.get? name = some expansion ∧ interpolate before raw = .ok expansion
  other : ∀ name, ¬ IsProperty name → after.get? name = before.get? name

/-- Whether the text of a name, scanned once more, stays as it is. -/
def Settled (layers : Layers) (name : String) : Prop :=
  ∀ expansion text, layers.get? name = some expansion →
    interpolate layers expansion = .ok text → text = expansion

/-- Whether the expressions of a text lead to a property, and to no other one on the way. -/
def ComesUpon (IsProperty : String → Prop) (layers : Layers) (value name : String) : Prop :=
  IsProperty name ∧ ∃ first, Mentions layers (pieces value) first ∧
    Relation.ReflTransGen (fun n m => ¬ IsProperty n ∧ Refers layers n m) first name

section

variable {IsProperty : String → Prop} {before after : Layers}

/-- The same names have a text. -/
theorem Anticipates.get?_eq_none_iff (h : Anticipates IsProperty before after) {name : String} :
    before.get? name = none ↔ after.get? name = none := by
  by_cases hproperty : IsProperty name
  · obtain ⟨raw, expansion, hbefore, hafter, -⟩ := h.property name hproperty
    simp [hbefore, hafter]
  · rw [h.other name hproperty]

/-- A name without a text comes to the same. -/
theorem Anticipates.substituteName_of_none (h : Anticipates IsProperty before after)
    {inProgress inProgress' : List String} {name : String} {found : Option String}
    (hnone : after.get? name = none) (hname : substituteName after inProgress name = .ok found) :
    substituteName before inProgress' name = .ok found := by
  rw [Expression.substituteName_of_none hnone] at hname
  rw [Expression.substituteName_of_none (h.get?_eq_none_iff.2 hnone)]
  exact hname

/-! ## Texts -/

/-- A name comes to the same. At a property the expansion is there already; elsewhere the text is
the same, and by induction the names in it come to the same. -/
theorem substituteName_of_anticipates (h : Anticipates IsProperty before after)
    {inProgress : List String} {name : String} {found : Option String}
    (hname : substituteName after inProgress name = .ok found)
    (hsettled : ∀ m, Relation.ReflTransGen (fun n m => ¬ IsProperty n ∧ Refers after n m) name m →
      IsProperty m → Settled after m) :
    substituteName before [] name = .ok found := by
  induction inProgress, name using substituteName.induct after generalizing found with
  | case1 inProgress name hget => exact h.substituteName_of_none hget hname
  | case2 inProgress name raw hget hin =>
    rw [substituteName_of_mem hget hin] at hname
    cases hname
  | case3 inProgress name raw hget hnew ih =>
    by_cases hproperty : IsProperty name
    · obtain ⟨text, rfl, hrescan⟩ := exists_interpolate_of_substituteName hget hname
      obtain ⟨raw', expansion, hbefore, hafter, hexpansion⟩ := h.property name hproperty
      obtain rfl := Option.some.inj (hafter.symm.trans hget)
      rw [hsettled name .refl hproperty expansion text hget hrescan]
      exact substituteName_of_interpolate hbefore hexpansion
    · have hbefore : before.get? name = some raw := (h.other name hproperty).symm.trans hget
      obtain ⟨-, text, rfl, hraw⟩ := exists_of_substituteName_eq_ok hget hname
      refine substituteName_of_interpolate hbefore ?_
      rw [interpolate_eq_of_agrees, substitute]
      refine substitutePieces_of_resolve hraw ?_
      intro inside found hmem hfound
      cases hdefined : after.get? (Text.trim (String.ofList inside)) with
      | none => exact h.substituteName_of_none hdefined hfound
      | some raw' =>
        have hrefers : Refers after name (Text.trim (String.ofList inside)) :=
          ⟨raw, hget, inside, raw', hmem, rfl, hdefined⟩
        exact ih _ hfound fun m hleads hm => hsettled m (.head ⟨hproperty, hrefers⟩ hleads) hm

/-- A text comes to the same if each property that it comes upon is settled. -/
theorem interpolate_of_anticipates (h : Anticipates IsProperty before after) {value text : String}
    (hvalue : interpolate after value = .ok text)
    (hsettled : ∀ name, ComesUpon IsProperty after value name → Settled after name) :
    interpolate before value = .ok text := by
  rw [interpolate_eq_of_agrees] at hvalue ⊢
  refine substitutePieces_of_resolve hvalue ?_
  intro inside found hmem hfound
  cases hdefined : after.get? (Text.trim (String.ofList inside)) with
  | none => exact h.substituteName_of_none hdefined hfound
  | some raw =>
    refine substituteName_of_anticipates h hfound ?_
    intro m hleads hm
    exact hsettled m ⟨hm, _, ⟨inside, raw, hmem, rfl, hdefined⟩, hleads⟩

/-- The expression of a property comes to the same exactly when the property is settled. -/
theorem interpolate_expression_iff_settled (h : Anticipates IsProperty before after)
    {name value text : String} (hproperty : IsProperty name) (hvalue : IsExpressionOf name value)
    (htext : interpolate after value = .ok text) :
    interpolate before value = .ok text ↔ Settled after name := by
  obtain ⟨raw, expansion, hbefore, hafter, hexpansion⟩ := h.property name hproperty
  have hrescan := hvalue.interpolate_eq_ok hafter htext
  constructor
  · intro hsame
    have heq := hvalue.interpolate_eq_ok hbefore hsame
    rw [hexpansion] at heq
    cases heq
    intro expansion' text' hget htext'
    obtain rfl := Option.some.inj (hafter.symm.trans hget)
    rw [hrescan] at htext'
    exact (Except.ok.inj htext').symm
  · intro hsettled
    refine interpolate_of_anticipates h htext ?_
    intro m hcomes
    obtain ⟨hm, first, hfirst, hleads⟩ := hcomes
    rw [hvalue.eq_of_mentions hfirst] at hleads
    -- The path ends where it begins, for it may not go on at a property.
    rcases Relation.ReflTransGen.cases_head hleads with rfl | ⟨next, hstep, -⟩
    · exact hsettled
    · exact absurd hproperty hstep.1

/-- A property is settled if the texts that it leads to are sealed. -/
theorem settled_of_isSealed (h : Anticipates IsProperty before after) {name : String}
    (hproperty : IsProperty name)
    (hsealed : ∀ m raw, LeadsTo before name m → before.get? m = some raw → IsSealed raw) :
    Settled after name := by
  obtain ⟨raw, expansion, hbefore, hafter, hexpansion⟩ := h.property name hproperty
  have hinert := inert_of_substituteName (substituteName_of_interpolate hbefore hexpansion) hsealed
  intro expansion' text hget htext
  obtain rfl := Option.some.inj (hafter.symm.trans hget)
  refine eq_self_of_not_mentions htext ?_
  intro m hmentions
  obtain ⟨inside, raw', hmem, rfl, hdefined⟩ := hmentions
  cases hbefore' : before.get? (Text.trim (String.ofList inside)) with
  | none =>
    rw [h.get?_eq_none_iff.1 hbefore'] at hdefined
    cases hdefined
  | some raw'' => exact hinert.not_mentions _ ⟨inside, raw'', hmem, rfl, hbefore'⟩

end

end Expression

namespace EffectiveModel

open Expression (interpolateOptional Layers Anticipates ComesUpon Settled IsExpressionOf IsSealed
  LeadsTo)

/-! ## Models -/

/-- Whether a name stands for a property: no value of the model itself hides it. -/
def IsProperty (values properties : Bindings) (name : String) : Prop :=
  NameMap.get? values name = none ∧ ∃ text, NameMap.get? properties name = some text

/-- The layers of a model, when the names of the model itself have the given values. -/
def layersOf (values system : Bindings) (e : EffectiveModel) : Layers :=
  [values, e.properties, system]

/-- Expands a model when the names of the model itself have the given values: its properties, and
then with their help its entries. -/
def interpolateWith (values system : Bindings) (e : EffectiveModel) :
    Except Expression.Fault EffectiveModel := do
  let properties ← interpolateProperties (layersOf values system e) e.properties
  let layers := layersOf values system { e with properties }
  let dependencies ← interpolateDependencies layers e.dependencies
  let management ← interpolateDependencies layers e.management
  return { e with properties, dependencies, management }

theorem interpolate_eq_interpolateWith (system : Bindings) (parent : Option Pom.Parent)
    (e : EffectiveModel) :
    interpolate system parent e = interpolateWith (projectValues e parent) system e := rfl

/-- A property has an expansion exactly when it has a text. -/
theorem get?_interpolateProperties {layers : Layers} {properties expanded : Bindings}
    (h : interpolateProperties layers properties = .ok expanded) (name : String) :
    NameMap.get? properties name = none ∧ NameMap.get? expanded name = none ∨
      ∃ raw expansion, NameMap.get? properties name = some raw ∧
        NameMap.get? expanded name = some expansion ∧
        Expression.interpolate layers raw = .ok expansion := by
  induction properties generalizing expanded with
  | nil =>
    cases h
    exact Or.inl ⟨rfl, rfl⟩
  | cons p rest ih =>
    obtain ⟨n, value⟩ := p
    simp only [interpolateProperties, bind_eq_ok_iff] at h
    obtain ⟨expansion, hexpansion, others, hothers, heq⟩ := h
    cases heq
    rw [NameMap.get?_cons, NameMap.get?_cons]
    split
    · exact Or.inr ⟨value, expansion, rfl, rfl, hexpansion⟩
    · exact ih hothers

theorem anticipates_of_interpolateProperties {values system : Bindings} {e f : EffectiveModel}
    (h : interpolateProperties (layersOf values system e) e.properties = .ok f.properties) :
    Anticipates (IsProperty values e.properties) (layersOf values system e)
      (layersOf values system f) := by
  constructor
  · intro name hproperty
    obtain ⟨hvalue, text, htext⟩ := hproperty
    rcases get?_interpolateProperties h name with ⟨hnone, -⟩ | ⟨raw, expansion, hraw, hget, hok⟩
    · rw [hnone] at htext
      cases htext
    · exact ⟨raw, expansion, by simp [layersOf, Layers.get?, hvalue, hraw],
        by simp [layersOf, Layers.get?, hvalue, hget], hok⟩
  · intro name hproperty
    cases hvalue : NameMap.get? values name with
    | some value => simp [layersOf, Layers.get?, hvalue]
    | none =>
      rcases get?_interpolateProperties h name with ⟨hnone, hnone'⟩ | ⟨raw, expansion, hraw, -, -⟩
      · simp [layersOf, Layers.get?, hvalue, hnone, hnone']
      · exact absurd ⟨hvalue, raw, hraw⟩ hproperty

/-- Whether one pass makes the second entry of the first, as far as the properties are settled that
the fields come upon. -/
def OnePass (values system : Bindings) (e e' : EffectiveModel) (d d' : ModelDependency) : Prop :=
  ∀ field ∈ ModelDependency.fields,
    (∀ value, field d = some value → ∀ name,
      ComesUpon (IsProperty values e.properties) (layersOf values system e') value name →
        Settled (layersOf values system e') name) →
      interpolateOptional (layersOf values system e) (field d) = .ok (field d')

theorem forall₂_onePass {values system : Bindings} {e e' : EffectiveModel}
    (h : Anticipates (IsProperty values e.properties) (layersOf values system e)
      (layersOf values system e')) {ds ds' : List ModelDependency}
    (hds : interpolateDependencies (layersOf values system e') ds = .ok ds') :
    List.Forall₂ (OnePass values system e e') ds ds' := by
  obtain ⟨rfl, hall⟩ := eq_map_of_interpolateDependencies hds
  rw [List.forall₂_map_right_iff, List.forall₂_same]
  intro d hd field hfield hsettled
  have hexpanded := interpolateDependency_eq_ok_iff.1 (hall d hd) field hfield
  cases hvalue : field d with
  | none =>
    rw [hvalue] at hexpanded
    exact hexpanded
  | some value =>
    rw [hvalue] at hexpanded
    obtain ⟨text, htext, heq⟩ := interpolateOptional_some_eq_ok_iff.1 hexpanded
    rw [heq]
    exact interpolateOptional_some_eq_ok_iff.2
      ⟨text, Expression.interpolate_of_anticipates h htext (hsettled value hvalue), rfl⟩

/-- Each field of the entries of a model comes to what one pass makes of it, with the texts of the
properties as they are, if each property that it comes upon is settled. For the expression of a
property nothing less will do. A property is settled if in each text that it leads to no mark
begins between the expressions. -/
theorem one_pass_of_interpolateWith {values system : Bindings} {e e' : EffectiveModel}
    (h : interpolateWith values system e = .ok e') :
    List.Forall₂ (OnePass values system e e') (e.dependencies ++ e.management)
        (e'.dependencies ++ e'.management) ∧
      ∀ name, IsProperty values e.properties name →
        (∀ value text, IsExpressionOf name value →
          Expression.interpolate (layersOf values system e') value = .ok text →
            (Expression.interpolate (layersOf values system e) value = .ok text ↔
              Settled (layersOf values system e') name)) ∧
        ((∀ m raw, LeadsTo (layersOf values system e) name m →
            (layersOf values system e).get? m = some raw → IsSealed raw) →
          Settled (layersOf values system e') name) := by
  simp only [interpolateWith, bind_eq_ok_iff] at h
  obtain ⟨properties, hproperties, dependencies, hdependencies, management, hmanagement, he⟩ := h
  cases he
  have hanticipates := anticipates_of_interpolateProperties
    (f := { e with properties, dependencies, management }) hproperties
  refine ⟨?_, ?_⟩
  · exact List.rel_append (forall₂_onePass hanticipates hdependencies)
      (forall₂_onePass hanticipates hmanagement)
  · intro name hproperty
    refine ⟨?_, Expression.settled_of_isSealed hanticipates hproperty⟩
    intro value text hvalue htext
    exact Expression.interpolate_expression_iff_settled hanticipates hproperty hvalue htext

/-- A model with a property that makes an expression at a seam, and one that does not. -/
def seamModel : EffectiveModel :=
  { groupId := "g", artifactId := "c", version := "1", packaging := "jar"
    properties := [("mark", "$"), ("one", "1"), ("plain", "v${one}"),
      ("seam", "${mark}\x7bone\x7d")]
    dependencies := [{ groupId := "x", artifactId := "a", version := some "${seam}" },
      { groupId := "x", artifactId := "b", version := some "${plain}.${gone}" }] }

/-- The same, expanded: the expression that stands in the property is gone from the dependency. -/
def seamExpanded : EffectiveModel :=
  { groupId := "g", artifactId := "c", version := "1", packaging := "jar"
    properties := [("mark", "$"), ("one", "1"), ("plain", "v1"), ("seam", "${one}")]
    dependencies := [{ groupId := "x", artifactId := "a", version := some "1" },
      { groupId := "x", artifactId := "b", version := some "v1.${gone}" }] }

/-- The layers with the texts of the properties as they are. -/
def seamLayers : Layers := layersOf (projectValues seamModel none) [] seamModel

theorem interpolate_seamModel : interpolate [] none seamModel = .ok seamExpanded :=
  eq_ok_of_toOption (by decide +kernel)

theorem interpolate_seam : Expression.interpolate seamLayers "${seam}" = .ok "${one}" :=
  eq_ok_of_toOption (by decide +kernel)

theorem isExpressionOf_seam : IsExpressionOf "seam" "${seam}" :=
  ⟨['s', 'e', 'a', 'm'], rfl, rfl⟩

theorem pieces_plain :
    Expression.pieces "v${one}" = [.text ['v'], .reference ['o', 'n', 'e'], .text []] := rfl

theorem eq_of_leadsTo_plain {m : String} (h : LeadsTo seamLayers "plain" m) :
    m = "plain" ∨ m = "one" := by
  induction h with
  | refl => exact Or.inl rfl
  | tail _ hstep ih =>
    obtain ⟨text, htext, inside, _, hmem, rfl, -⟩ := hstep
    rcases ih with rfl | rfl
    · cases htext
      simp only [pieces_plain, List.mem_cons, Expression.Piece.reference.injEq, reduceCtorEq,
        List.not_mem_nil, or_false, false_or] at hmem
      subst hmem
      exact Or.inr rfl
    · cases htext
      cases hmem with
      | tail _ hmem => cases hmem

/-- What "plain" leads to is sealed. -/
theorem isSealed_of_leadsTo_plain {m raw : String} (h : LeadsTo seamLayers "plain" m)
    (hget : seamLayers.get? m = some raw) : IsSealed raw := by
  rcases eq_of_leadsTo_plain h with rfl | rfl
  · cases hget
    intro chars hmem
    simp only [pieces_plain, List.mem_cons, Expression.Piece.text.injEq, reduceCtorEq,
      List.not_mem_nil, or_false, false_or] at hmem
    rcases hmem with rfl | rfl <;> exact Expression.unmarked_of_not_mem (by decide)
  · cases hget
    intro chars hmem
    cases List.mem_singleton.1 hmem
    exact Expression.unmarked_of_not_mem (by decide)

/-- The expansion of a property without a seam stays as it is, and so one pass makes of a field with
it what two do. The expression at the seam is read in the second pass only. -/
theorem one_pass_seamModel :
    interpolateWith (projectValues seamModel none) [] seamModel = .ok seamExpanded ∧
      interpolateOptional seamLayers (some "${plain}.${gone}") = .ok (some "v1.${gone}") ∧
      ¬ Settled (layersOf (projectValues seamModel none) [] seamExpanded) "seam" := by
  obtain ⟨hentries, hproperties⟩ := one_pass_of_interpolateWith
    ((interpolate_eq_interpolateWith [] none seamModel).symm.trans interpolate_seamModel)
  refine ⟨interpolate_seamModel, ?_, ?_⟩
  · have hplain := (hproperties "plain" ⟨rfl, "v${one}", rfl⟩).2 fun m raw =>
      isSealed_of_leadsTo_plain
    obtain ⟨-, hrest⟩ := List.forall₂_cons.1 hentries
    obtain ⟨hsecond, -⟩ := List.forall₂_cons.1 hrest
    refine hsecond (·.version) (.tail _ (.tail _ (.head _))) ?_
    intro value hvalue name hcomes
    cases hvalue
    obtain ⟨hname, first, ⟨inside, raw, hmem, rfl, hget⟩, hleads⟩ := hcomes
    have hpieces : Expression.pieces "${plain}.${gone}" =
        [.text [], .reference ['p', 'l', 'a', 'i', 'n'], .text ['.'],
          .reference ['g', 'o', 'n', 'e'], .text []] := rfl
    simp only [hpieces, List.mem_cons, Expression.Piece.reference.injEq, reduceCtorEq,
      List.not_mem_nil, or_false, false_or] at hmem
    rcases hmem with rfl | rfl
    · -- The path from "plain", which is a property, goes no further.
      rcases Relation.ReflTransGen.cases_head hleads with rfl | ⟨next, hstep, -⟩
      · exact hplain
      · exact absurd ⟨rfl, "v${one}", rfl⟩ hstep.1
    · cases hget
  · intro hsettled
    have hone : Expression.interpolate seamLayers "${seam}" = .ok "1" :=
      ((hproperties "seam" ⟨rfl, "${mark}\x7bone\x7d", rfl⟩).1 "${seam}" "1" isExpressionOf_seam
        (eq_ok_of_toOption (by decide +kernel))).2 hsettled
    exact absurd (interpolate_seam.symm.trans hone) (by decide)

/-- In two passes the field comes to another text than in one. -/
theorem field_differs_at_seam :
    interpolate [] none seamModel = .ok seamExpanded ∧
      ∃ d d', (d, d') ∈ seamModel.dependencies.zip seamExpanded.dependencies ∧
        ∃ field ∈ ModelDependency.fields,
          interpolateOptional seamLayers (field d) ≠ .ok (field d') := by
  refine ⟨interpolate_seamModel, { groupId := "x", artifactId := "a", version := some "${seam}" },
    { groupId := "x", artifactId := "a", version := some "1" }, .head _, (·.version),
    .tail _ (.tail _ (.head _)), ?_⟩
  have hone : interpolateOptional seamLayers (some "${seam}") = .ok (some "${one}") :=
    interpolateOptional_some_eq_ok_iff.2 ⟨_, interpolate_seam, rfl⟩
  rw [hone]
  decide

end EffectiveModel

end ArtifactGraph
