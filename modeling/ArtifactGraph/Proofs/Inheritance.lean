import ArtifactGraph.EffectiveModel

/-!
# What survives the inheritance

A POM is of generation 0 in its own lineage, its parent of generation 1, and so on.  `generations`
lists the entries of a lineage with the generation that declares them, and `survivors` are those
of them that are not `Overridden`: no nearer generation writes an entry with the same key.

* `dependencies_inherit` and `management_inherit`: the entries of an inherited model are the
  survivors, in this order.
* `pairwise_survivors`: the survivors come nearest first.

Keys are compared as they are written, so nothing here knows of expressions.
-/

namespace ArtifactGraph.EffectiveModel

variable (entries : Pom → List ModelDependency)

/-! ## Generations -/

/-- The entries of a lineage with their generations, nearest first. -/
def generations : List Pom → List (Nat × ModelDependency)
  | [] => []
  | pom :: ancestors =>
    (entries pom).map (0, ·) ++ (generations ancestors).map fun x => (x.1 + 1, x.2)

/-- Whether a nearer generation has an entry with the key of `d`, as it is written. -/
def Overridden (lineage : List Pom) (i : Nat) (d : ModelDependency) : Prop :=
  ∃ j d', j < i ∧ (j, d') ∈ generations entries lineage ∧ d'.key = d.key

/-- The entries that no nearer generation overrides, nearest first. -/
def survivors (lineage : List Pom) : List (Nat × ModelDependency) :=
  (generations entries lineage).filter fun x =>
    !(generations entries lineage).any fun y => decide (y.1 < x.1) && y.2.key == x.2.key

variable {entries}

theorem mem_generations {lineage : List Pom} {i : Nat} {d : ModelDependency} :
    (i, d) ∈ generations entries lineage ↔ ∃ pom, lineage[i]? = some pom ∧ d ∈ entries pom := by
  induction lineage generalizing i with
  | nil => simp [generations]
  | cons pom ancestors ih =>
    cases i with
    | zero => simp [generations]
    | succ i => simp [generations, ih]

theorem mem_survivors {lineage : List Pom} {i : Nat} {d : ModelDependency} :
    (i, d) ∈ survivors entries lineage ↔
      (i, d) ∈ generations entries lineage ∧ ¬ Overridden entries lineage i d := by
  have hany : ((generations entries lineage).any fun y =>
      decide (y.1 < i) && y.2.key == d.key) = true ↔ Overridden entries lineage i d := by
    simp only [List.any_eq_true, Bool.and_eq_true, decide_eq_true_eq, beq_iff_eq, Overridden]
    constructor
    · intro hfound
      obtain ⟨⟨j, d'⟩, hmem, hj, hkey⟩ := hfound
      exact ⟨j, d', hj, hmem, hkey⟩
    · intro hover
      obtain ⟨j, d', hj, hmem, hkey⟩ := hover
      exact ⟨(j, d'), hmem, hj, hkey⟩
  rw [survivors, List.mem_filter, ← hany]
  simp

theorem pairwise_generations (lineage : List Pom) :
    (generations entries lineage).Pairwise fun x y => x.1 ≤ y.1 := by
  induction lineage with
  | nil => exact List.Pairwise.nil
  | cons pom ancestors ih =>
    rw [generations, List.pairwise_append]
    refine ⟨?_, ?_, ?_⟩
    · rw [List.pairwise_map]
      exact List.pairwise_of_forall fun _ _ => Nat.le_refl 0
    · rw [List.pairwise_map]
      exact ih.imp fun h => Nat.succ_le_succ h
    · intro x hx y _
      obtain ⟨d, _, rfl⟩ := List.mem_map.1 hx
      exact Nat.zero_le _

/-- What survives comes nearest first. -/
theorem pairwise_survivors (lineage : List Pom) :
    (survivors entries lineage).Pairwise fun x y => x.1 ≤ y.1 :=
  (pairwise_generations lineage).sublist List.filter_sublist

/-! ## The inherited entries -/

/-- An ancestor's entry survives in the lineage of a child when it survives in that of the parent
and the child has no entry of its key. -/
theorem survivors_cons (pom : Pom) (ancestors : List Pom) :
    survivors entries (pom :: ancestors) =
      (entries pom).map (0, ·) ++
        ((survivors entries ancestors).filter fun x =>
          !((entries pom).map (·.key)).contains x.2.key).map fun x => (x.1 + 1, x.2) := by
  rw [survivors, generations, List.filter_append]
  congr 1
  · rw [List.filter_eq_self]
    intro x hx
    obtain ⟨d, _, rfl⟩ := List.mem_map.1 hx
    simp
  · rw [List.filter_map, survivors, List.filter_filter]
    congr 1
    refine List.filter_congr fun x _ => ?_
    rw [Bool.eq_iff_iff]
    simp only [Function.comp_apply, List.any_append, List.any_map, Bool.not_eq_true',
      Bool.and_eq_true, Bool.or_eq_false_iff]
    simp [Function.comp_def]

/-- Merging the entries of a lineage from its far end keeps what survives. -/
theorem mergeByKey_survivors (pom : Pom) (ancestors : List Pom) :
    mergeByKey (entries pom) ((survivors entries ancestors).map (·.2)) =
      (survivors entries (pom :: ancestors)).map (·.2) := by
  rw [survivors_cons, List.map_append, List.map_map, List.map_map, mergeByKey, List.filter_map]
  simp [Function.comp_def]

theorem dependencies_inherit (lineage : List Pom) :
    (inherit lineage).dependencies = (survivors Pom.modelDependencies lineage).map (·.2) := by
  induction lineage with
  | nil => rfl
  | cons pom ancestors ih =>
    rw [← mergeByKey_survivors, ← ih]
    rfl

theorem management_inherit (lineage : List Pom) :
    (inherit lineage).management = (survivors Pom.managedDependencies lineage).map (·.2) := by
  induction lineage with
  | nil => rfl
  | cons pom ancestors ih =>
    rw [← mergeByKey_survivors, ← ih]
    rfl

/-- Of the entries whose keys meet a condition, those of the nearest generation survive. -/
theorem mem_survivors_of_nearest {lineage : List Pom} {i : Nat} {d : ModelDependency}
    {p : ArtifactKey → Prop} (hmem : (i, d) ∈ generations entries lineage) (hp : p d.key)
    (hnearest : ∀ j d', (j, d') ∈ generations entries lineage → p d'.key → i ≤ j) :
    (i, d) ∈ survivors entries lineage := by
  refine mem_survivors.2 ⟨hmem, ?_⟩
  intro hover
  obtain ⟨j, d', hj, hmem', hkey⟩ := hover
  have hle := hnearest j d' hmem' (hkey ▸ hp)
  omega

end ArtifactGraph.EffectiveModel
