import ArtifactGraph.EffectiveModel.Lineage

/-!
# Runs over a state

A locator may remember what it was asked, and its surroundings may change while it is asked.  Both
are covered by work in `StateM σ`, with any type of states: `Gives x s a t` says that the work
`x`, begun in the state `s`, gives `a` and leaves the state `t`.

* A run gives one answer (`Gives.unique`).
* `gives_bind_iff` takes a sequence of steps apart, `gives_ok_bind_iff` one that may stop with a
  fault and did not, and `gives_error_bind_iff` one that did.
* `Gives.run_bind` and `Gives.run_liftM` put steps together.
* `bind_eq_ok_iff` and `bind_eq_error_iff` are the same for steps without a state.
* `Steady` work gives the same answer in every state; a sequence of such steps is steady, too.
-/

namespace ArtifactGraph

variable {σ ε α β : Type}

/-- The work `x`, begun in the state `s`, gives `a` and leaves the state `t`. -/
def Gives (x : StateM σ α) (s : σ) (a : α) (t : σ) : Prop := x.run s = (a, t)

/-! ## Plain work -/

theorem Gives.unique {x : StateM σ α} {s t u : σ} {a b : α} (ha : Gives x s a t)
    (hb : Gives x s b u) : a = b ∧ t = u :=
  Prod.mk.inj (ha.symm.trans hb)

@[simp] theorem gives_pure_iff {s t : σ} {a b : α} :
    Gives (pure a : StateM σ α) s b t ↔ b = a ∧ t = s := by
  constructor
  · intro h
    obtain ⟨hb, ht⟩ := Prod.mk.inj h
    exact ⟨hb.symm, ht.symm⟩
  · intro heq
    obtain ⟨rfl, rfl⟩ := heq
    rfl

/-- A sequence of two steps goes through the answer and the state of the first. -/
theorem gives_bind_iff {x : StateM σ α} {f : α → StateM σ β} {s t : σ} {b : β} :
    Gives (x >>= f) s b t ↔ ∃ a u, Gives x s a u ∧ Gives (f a) u b t := by
  constructor
  · intro h
    exact ⟨_, _, rfl, h⟩
  · intro hsteps
    obtain ⟨a, u, hx, hf⟩ := hsteps
    show (f (x.run s).1).run (x.run s).2 = (b, t)
    rw [hx]
    exact hf

/-! ## Work that may stop with a fault -/

/-- After a step that does not stop a sequence goes on with the answer. -/
theorem Gives.run_bind {x : ExceptT ε (StateM σ) α} {f : α → ExceptT ε (StateM σ) β} {s t u : σ}
    {a : α} {r : Except ε β} (hx : Gives x.run s (.ok a) u) (hf : Gives (f a).run u r t) :
    Gives (x >>= f).run s r t := by
  rw [ExceptT.run_bind, gives_bind_iff]
  exact ⟨.ok a, u, hx, hf⟩

/-- A sequence of two steps that does not stop goes through the answer of the first. -/
theorem gives_ok_bind_iff {x : ExceptT ε (StateM σ) α} {f : α → ExceptT ε (StateM σ) β} {s t : σ}
    {b : β} :
    Gives (x >>= f).run s (.ok b) t ↔
      ∃ a u, Gives x.run s (.ok a) u ∧ Gives (f a).run u (.ok b) t := by
  constructor
  · intro h
    rw [ExceptT.run_bind, gives_bind_iff] at h
    obtain ⟨answer, u, hx, hf⟩ := h
    cases answer with
    | ok a => exact ⟨a, u, hx, hf⟩
    | error e => simp at hf
  · intro hsteps
    obtain ⟨a, u, hx, hf⟩ := hsteps
    exact hx.run_bind hf

/-- A sequence of two steps that stops does so in the first one or in the second. -/
theorem gives_error_bind_iff {x : ExceptT ε (StateM σ) α} {f : α → ExceptT ε (StateM σ) β}
    {s t : σ} {e : ε} :
    Gives (x >>= f).run s (.error e) t ↔
      Gives x.run s (.error e) t ∨
        ∃ a u, Gives x.run s (.ok a) u ∧ Gives (f a).run u (.error e) t := by
  rw [ExceptT.run_bind, gives_bind_iff]
  constructor
  · intro hsteps
    obtain ⟨answer, u, hx, hf⟩ := hsteps
    cases answer with
    | ok a => exact Or.inr ⟨a, u, hx, hf⟩
    | error e' =>
      obtain ⟨he, rfl⟩ := gives_pure_iff.1 hf
      cases he
      exact Or.inl hx
  · intro hsteps
    rcases hsteps with hx | ⟨a, u, hx, hf⟩
    · exact ⟨.error e, t, hx, gives_pure_iff.2 ⟨rfl, rfl⟩⟩
    · exact ⟨.ok a, u, hx, hf⟩

/-- Work that cannot stop with a fault does not. -/
theorem Gives.run_liftM {x : StateM σ α} {s t : σ} {a : α} (h : Gives x s a t) :
    Gives (liftM x : ExceptT ε (StateM σ) α).run s (.ok a) t := by
  have hrun : (liftM x : ExceptT ε (StateM σ) α).run = x >>= fun a => pure (.ok a) := rfl
  rw [hrun, gives_bind_iff]
  exact ⟨a, t, h, gives_pure_iff.2 ⟨rfl, rfl⟩⟩

theorem gives_throw_iff {s t : σ} {e : ε} {r : Except ε α} :
    Gives (throw e : ExceptT ε (StateM σ) α).run s r t ↔ r = .error e ∧ t = s := by
  rw [ExceptT.run_throw, gives_pure_iff]

theorem not_gives_ok_throw {s t : σ} {e : ε} {a : α} :
    ¬ Gives (throw e : ExceptT ε (StateM σ) α).run s (.ok a) t := by
  rw [ExceptT.run_throw]
  simp

/-- Steps without a state that do not stop go through the answer of the first. -/
theorem bind_eq_ok_iff {x : Except ε α} {f : α → Except ε β} {b : β} :
    (x >>= f) = .ok b ↔ ∃ a, x = .ok a ∧ f a = .ok b := by
  constructor
  · intro h
    cases x with
    | ok a => exact ⟨a, rfl, h⟩
    | error e => cases h
  · intro hsteps
    obtain ⟨a, rfl, hf⟩ := hsteps
    exact hf

/-- Steps without a state that stop do so at the first or behind its answer. -/
theorem bind_eq_error_iff {x : Except ε α} {f : α → Except ε β} {e : ε} :
    (x >>= f) = .error e ↔ x = .error e ∨ ∃ a, x = .ok a ∧ f a = .error e := by
  cases x with
  | ok a =>
    constructor
    · intro h
      exact .inr ⟨a, rfl, h⟩
    · intro h
      rcases h with h | ⟨_, ha, hf⟩
      · cases h
      · cases ha
        exact hf
  | error e' =>
    constructor
    · intro h
      cases h
      exact .inl rfl
    · intro h
      rcases h with h | ⟨_, ha, -⟩
      · cases h
        rfl
      · cases ha

/-! ## Work with the same answer in every state -/

/-- Whether what the work gives in one state it gives in every state. -/
def Steady (x : StateM σ α) : Prop := ∀ s a t, Gives x s a t → ∀ s', ∃ t', Gives x s' a t'

/-- Steady work has one answer, in whatever states it is begun. -/
theorem Steady.unique {x : StateM σ α} (hx : Steady x) {s s' t t' : σ} {a b : α}
    (ha : Gives x s a t) (hb : Gives x s' b t') : a = b := by
  obtain ⟨u, ha'⟩ := hx s a t ha s'
  exact (ha'.unique hb).1

theorem steady_pure (a : α) : Steady (pure a : StateM σ α) := by
  intro s b t h s'
  obtain ⟨rfl, -⟩ := gives_pure_iff.1 h
  exact ⟨s', gives_pure_iff.2 ⟨rfl, rfl⟩⟩

theorem Steady.bind {x : StateM σ α} {f : α → StateM σ β} (hx : Steady x)
    (hf : ∀ a, Steady (f a)) : Steady (x >>= f) := by
  intro s b t h s'
  obtain ⟨a, u, hxa, hfa⟩ := gives_bind_iff.1 h
  obtain ⟨u', hxa'⟩ := hx s a u hxa s'
  obtain ⟨t', hfa'⟩ := hf a u b t hfa u'
  exact ⟨t', gives_bind_iff.2 ⟨a, u', hxa', hfa'⟩⟩

theorem steady_throw (e : ε) : Steady (throw e : ExceptT ε (StateM σ) α).run := by
  rw [ExceptT.run_throw]
  exact steady_pure _

theorem Steady.run_bind {x : ExceptT ε (StateM σ) α} {f : α → ExceptT ε (StateM σ) β}
    (hx : Steady x.run) (hf : ∀ a, Steady (f a).run) : Steady (x >>= f).run := by
  rw [ExceptT.run_bind]
  refine hx.bind fun answer => ?_
  cases answer with
  | ok a => exact hf a
  | error e => exact steady_pure _

/-! ## Evaluation -/

theorem eq_ok_of_toOption {x : Except ε α} {a : α} (h : x.toOption = some a) : x = .ok a := by
  cases x with
  | ok b => exact congrArg Except.ok (Option.some.inj h)
  | error e => cases h

/-- Work without a state is run by evaluating it. -/
theorem gives_of_eq {x : StateM Unit α} {a : α} (h : (x.run ()).1 = a) : Gives x () a () :=
  Prod.ext h rfl

theorem gives_ok_of_toOption {x : StateM Unit (Except ε α)} {a : α}
    (h : (x.run ()).1.toOption = some a) : Gives x () (.ok a) () :=
  gives_of_eq (eq_ok_of_toOption h)

end ArtifactGraph
