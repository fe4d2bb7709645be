import ArtifactGraph.Proofs.Management
import Mathlib.Data.List.Forall2

/-!
# What management changes

Management fills what a dependency leaves open and has no other effect.  The rules for this are
stated without the function that fills: `Completes` is the rule for one text, and `Fills` has a rule
for a dependency whose key is managed and one for a dependency whose key is not.

* `fills_iff`: the rules leave no choice, and `fill` is what they say.
* `fill_fill`: what is filled is not filled again, since its key and thus its entry stay the same.
* `applyManagement_fills` is about whole models.
-/

namespace ArtifactGraph

/-! ## Texts -/

/-- A text that is there stays, and one that is left open is taken as it is given. -/
def Completes (own given completed : Option String) : Prop :=
  (∀ text, own = some text → completed = some text) ∧ (own = none → completed = given)

theorem completes_iff {own given completed : Option String} :
    Completes own given completed ↔ completed = own.or given := by
  cases own with
  | none => simp [Completes]
  | some text => simp [Completes]

theorem ModelDependency.filledFrom_filledFrom (d entry : ModelDependency) :
    (d.filledFrom entry).filledFrom entry = d.filledFrom entry := by
  simp only [filledFrom, Option.or_assoc, Option.or_self]

namespace EffectiveModel

/-! ## Dependencies -/

/-- What a dependency becomes under a management. If its key is managed, all that it leaves open is
taken from one entry, the last one with the key. Otherwise it stays as it is. -/
inductive Fills (management : List ModelDependency) (d : ModelDependency) :
    ModelDependency → Prop
  | unmanaged (h : ∀ entry ∈ management, entry.key ≠ d.key) : Fills management d d
  | managed {before after : List ModelDependency} {entry : ModelDependency}
      {version scope optional : Option String}
      (hmanagement : management = before ++ entry :: after) (hkey : entry.key = d.key)
      (hlast : ∀ x ∈ after, x.key ≠ d.key) (hversion : Completes d.version entry.version version)
      (hscope : Completes d.scope entry.scope scope)
      (hoptional : Completes d.optional entry.optional optional) :
    Fills management d { d with version, scope, optional }

theorem fills_iff {management : List ModelDependency} {d filled : ModelDependency} :
    Fills management d filled ↔ fill management d = filled := by
  constructor
  · intro h
    cases h with
    | unmanaged h => exact fill_of_managed?_eq_none (managed?_eq_none_iff.2 h)
    | managed hmanagement hkey hlast hversion hscope hoptional =>
      rw [completes_iff] at hversion hscope hoptional
      subst hversion hscope hoptional
      exact fill_of_managed?_eq_some (managed?_eq_some_iff.2 ⟨hkey, _, _, hmanagement, hlast⟩)
  · intro h
    subst h
    cases hentry : managed? management d.key with
    | none =>
      rw [fill_of_managed?_eq_none hentry]
      exact .unmanaged (managed?_eq_none_iff.1 hentry)
    | some entry =>
      obtain ⟨hkey, before, after, hmanagement, hlast⟩ := managed?_eq_some_iff.1 hentry
      rw [fill_of_managed?_eq_some hentry]
      exact .managed hmanagement hkey hlast (completes_iff.2 rfl) (completes_iff.2 rfl)
        (completes_iff.2 rfl)

theorem fill_fill (management : List ModelDependency) (d : ModelDependency) :
    fill management (fill management d) = fill management d := by
  cases hentry : managed? management d.key with
  | none => rw [fill_of_managed?_eq_none hentry, fill_of_managed?_eq_none hentry]
  | some entry =>
    have hagain : managed? management (fill management d).key = some entry := by
      rw [key_fill, hentry]
    rw [fill_of_managed?_eq_some hagain, fill_of_managed?_eq_some hentry,
      ModelDependency.filledFrom_filledFrom]

/-! ## Models -/

theorem forall₂_fills_iff {management ds filled : List ModelDependency} :
    List.Forall₂ (Fills management) ds filled ↔ ds.map (fill management) = filled := by
  have hfills : Fills management = fun d filled => fill management d = filled :=
    funext₂ fun _ _ => propext fills_iff
  rw [hfills, ← List.forall₂_map_left_iff, List.forall₂_eq_eq_eq]

/-- Management changes nothing of a model but its dependencies, and of each of these nothing but
what it leaves open, in its place and as one entry of the management says. To apply it again
changes nothing. -/
theorem applyManagement_fills (e : EffectiveModel) :
    e.applyManagement.management = e.management ∧
    e.applyManagement = { e with dependencies := e.applyManagement.dependencies } ∧
    (∀ ds, e.applyManagement.dependencies = ds ↔
      List.Forall₂ (Fills e.management) e.dependencies ds) ∧
    e.applyManagement.applyManagement = e.applyManagement := by
  refine ⟨rfl, rfl, fun ds => forall₂_fills_iff.symm, ?_⟩
  have hagain : (e.dependencies.map (fill e.management)).map (fill e.management) =
      e.dependencies.map (fill e.management) := by
    rw [List.map_map]
    exact List.map_congr_left fun d _ => fill_fill e.management d
  simp only [applyManagement, hagain]

-- The last entry of the key has no version, so none is taken from the other one.
example : fill [{ groupId := "g", artifactId := "a", version := some "1", type := some "jar" },
      { groupId := "g", artifactId := "a", scope := some "test", classifier := some "" }]
    { groupId := "g", artifactId := "a", optional := some "true" } =
      { groupId := "g", artifactId := "a", scope := some "test", optional := some "true" } := by
  decide

end EffectiveModel

end ArtifactGraph
