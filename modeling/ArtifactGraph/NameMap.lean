/-!
# Maps from names

`NameMap α` is a finite map from names to values, kept as a list of pairs in the order of the
names, each name once.  The order is visible: configurations and properties are walked in it, so
of several faults the one at the first name is reported.

* `get?_insert` says what a binding does to the view `get?`.
* `get?_extend` says that of several bindings of a name the last one counts.
* `lookup_eq_some_iff` is for pairs with distinct names, in any order.
-/

namespace ArtifactGraph

/-- Names with their values, in the order of the names. -/
abbrev NameMap (α : Type) := List (String × α)

/-- Names with their texts. -/
abbrev Bindings := NameMap String

namespace NameMap

variable {α : Type}

/-- The value bound to a name. -/
def get? (m : NameMap α) (name : String) : Option α := List.lookup name m

/-- Binds a name, in place of the value it had before. -/
def insert (name : String) (value : α) : NameMap α → NameMap α
  | [] => [(name, value)]
  | (n, v) :: rest =>
    if name == n then (name, value) :: rest
    else if name < n then (name, value) :: (n, v) :: rest
    else (n, v) :: insert name value rest

/-- Binds the names of a list in its order, so that the last value of a name counts. -/
def extend (m : NameMap α) (pairs : List (String × α)) : NameMap α :=
  pairs.foldl (fun acc p => insert p.1 p.2 acc) m

/-- The map of a list of pairs in any order. -/
def ofList (pairs : List (String × α)) : NameMap α := extend [] pairs

@[simp] theorem get?_nil (name : String) : get? ([] : NameMap α) name = none := rfl

theorem get?_cons (n : String) (v : α) (m : NameMap α) (name : String) :
    get? ((n, v) :: m) name = if name == n then some v else get? m name := by
  simp only [get?, List.lookup_cons]
  cases name == n <;> rfl

/-- A bound name has the new value, and every other name what it had. -/
theorem get?_insert (name : String) (value : α) (m : NameMap α) (other : String) :
    get? (insert name value m) other = if other == name then some value else get? m other := by
  induction m with
  | nil => simp [insert, get?_cons]
  | cons p rest ih =>
    obtain ⟨n, v⟩ := p
    by_cases hn : name = n
    · subst hn
      simp only [insert, beq_self_eq_true, if_true, get?_cons]
      cases other == name <;> rfl
    · by_cases hlt : name < n
      · simp [insert, hn, hlt, get?_cons]
      · simp only [insert, beq_iff_eq, hn, hlt, if_false, get?_cons, ih]
        by_cases ho : other = n
        · subst ho
          simp [Ne.symm hn]
        · simp [ho]

/-- After an extension a name has the last value the list gives it, else what it had. -/
theorem get?_extend (m : NameMap α) (pairs : List (String × α)) (name : String) :
    get? (extend m pairs) name = (List.lookup name pairs.reverse).or (get? m name) := by
  induction pairs generalizing m with
  | nil => simp [extend]
  | cons p rest ih =>
    obtain ⟨n, v⟩ := p
    have step : extend m ((n, v) :: rest) = extend (insert n v m) rest := rfl
    rw [step, ih, get?_insert, List.reverse_cons, List.lookup_append, Option.or_assoc]
    congr 1
    cases h : name == n <;> simp [List.lookup_cons, h]

/-- Of pairs with distinct names, the names have what they are paired with. -/
theorem lookup_eq_some_iff {l : List (String × α)} (h : (l.map Prod.fst).Nodup)
    {name : String} {b : α} : l.lookup name = some b ↔ (name, b) ∈ l := by
  induction l with
  | nil => simp
  | cons p rest ih =>
    obtain ⟨other, c⟩ := p
    rw [List.map_cons, List.nodup_cons] at h
    rw [List.lookup_cons, List.mem_cons]
    by_cases hname : name = other
    · subst hname
      have hlater : (name, b) ∉ rest := fun hmem => h.1 (List.mem_map.2 ⟨_, hmem, rfl⟩)
      simp [hlater, eq_comm]
    · rw [beq_eq_false_iff_ne.2 hname]
      simp [hname, ih h.2]

end NameMap

end ArtifactGraph
