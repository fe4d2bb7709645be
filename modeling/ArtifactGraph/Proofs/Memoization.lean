import ArtifactGraph.Proofs.Origins

/-!
# What a session remembers

A session may be used in any order: it is told to look at components, also for keys that it knows
and also after a look that failed; it takes the turns of artifacts; and it is asked what it holds.
None of this makes it forget or repeat anything.

* The tables.  `declaredTable` and `unresolvedTable` are the two parts of a session.
  `tablesApart_of_nodup`: while no key has two findings, no key is in both of them.
* The uses.  `Call.runEach` makes one call after the other and writes down an `Exchange` for
  each.
* The log.  `Exchange.asked?` is the module whose POM a call asks for.  `Asked` says of a list of
  modules that asking for them, one after the other, is all that happens outside the session.
* One call.  `Happens` is all that a call does, with one rule for a call that changes nothing and
  one for a look that finds something.  `happens_of_gives_run` is the only lemma that looks into
  the calls.
* The history.  `History` is a sequence of calls, each on the session that the one before it left.
  What one call keeps, the sequence keeps by induction.
* `remembers_of_gives_runEach` puts these together.  A look at a project may fail; then nothing is
  remembered, and a later look at a module for the same key asks (`asked_after_failed`).
-/

namespace ArtifactGraph

namespace Session

/-! ## The tables -/

/-- The keys whose declarations are known, with these. -/
def declaredTable (session : Session) : List (ArtifactKey × List DeclaredDependency) :=
  session.filterMap fun entry => entry.2.dependencies?.map (entry.1, ·)

/-- The keys of the modules whose POM has no effective model. -/
def unresolvedTable (session : Session) : List ArtifactKey :=
  (session.filter (·.2.dependencies?.isNone)).map (·.1)

theorem mem_declaredTable {session : Session} {k : ArtifactKey} {l : List DeclaredDependency} :
    (k, l) ∈ session.declaredTable ↔ (k, Finding.declared l) ∈ session := by
  rw [declaredTable, List.mem_filterMap]
  constructor
  · intro hfound
    obtain ⟨⟨k', f⟩, hmem, hentry⟩ := hfound
    cases f with
    | declared l' =>
      cases hentry
      exact hmem
    | unresolved => cases hentry
  · intro hmem
    exact ⟨_, hmem, rfl⟩

theorem mem_unresolvedTable {session : Session} {k : ArtifactKey} :
    k ∈ session.unresolvedTable ↔ (k, Finding.unresolved) ∈ session := by
  rw [unresolvedTable, List.mem_map]
  constructor
  · intro hfound
    obtain ⟨⟨k', f⟩, hmem, rfl⟩ := hfound
    obtain ⟨hmem, hnone⟩ := List.mem_filter.1 hmem
    cases f with
    | declared l => cases hnone
    | unresolved => exact hmem
  · intro hmem
    exact ⟨_, List.mem_filter.2 ⟨hmem, rfl⟩, rfl⟩

/-- The keys that were looked at are those of the two tables. -/
theorem mem_keys_iff {session : Session} {k : ArtifactKey} :
    k ∈ session.keys ↔
      k ∈ session.declaredTable.map Prod.fst ∨ k ∈ session.unresolvedTable := by
  constructor
  · intro hk
    obtain ⟨⟨k', f⟩, hmem, rfl⟩ := List.mem_map.1 hk
    cases f with
    | declared l => exact Or.inl (List.mem_map.2 ⟨_, mem_declaredTable.2 hmem, rfl⟩)
    | unresolved => exact Or.inr (mem_unresolvedTable.2 hmem)
  · intro hk
    rcases hk with hk | hk
    · obtain ⟨⟨k', l⟩, hmem, rfl⟩ := List.mem_map.1 hk
      exact List.mem_map.2 ⟨_, mem_declaredTable.1 hmem, rfl⟩
    · exact List.mem_map.2 ⟨_, mem_unresolvedTable.1 hk, rfl⟩

/-- Whether each table has a key at most once, and no key is in both. -/
structure TablesApart (session : Session) : Prop where
  declared : (session.declaredTable.map Prod.fst).Nodup
  unresolved : session.unresolvedTable.Nodup
  disjoint : ∀ k ∈ session.declaredTable.map Prod.fst, k ∉ session.unresolvedTable

theorem tablesApart_of_nodup {session : Session} (h : session.keys.Nodup) :
    session.TablesApart := by
  induction session with
  | nil => exact ⟨List.nodup_nil, List.nodup_nil, by simp [declaredTable]⟩
  | cons entry rest ih =>
    obtain ⟨k, f⟩ := entry
    obtain ⟨hnew, hrest⟩ := List.nodup_cons.1 h
    obtain ⟨hdeclared, hunresolved, hdisjoint⟩ := ih hrest
    have hboth := hnew
    rw [← keys, mem_keys_iff, not_or] at hboth
    obtain ⟨hnotdeclared, hnotunresolved⟩ := hboth
    cases f with
    | declared l =>
      refine ⟨List.nodup_cons.2 ⟨hnotdeclared, hdeclared⟩, hunresolved, ?_⟩
      intro k' hk'
      rcases List.mem_cons.1 hk' with rfl | hk'
      · exact hnotunresolved
      · exact hdisjoint k' hk'
    | unresolved =>
      refine ⟨hdeclared, List.nodup_cons.2 ⟨hnotunresolved, hunresolved⟩, ?_⟩
      intro k' hk' hmem
      rcases List.mem_cons.1 hmem with rfl | hmem
      · exact hnotdeclared hk'
      · exact hdisjoint k' hk' hmem

/-- Whether a later session still has every entry of both tables. -/
structure KeptIn (session later : Session) : Prop where
  declared : session.declaredTable ⊆ later.declaredTable
  unresolved : session.unresolvedTable ⊆ later.unresolvedTable

theorem keptIn_of_suffix {session later : Session} (h : session <:+ later) :
    session.KeptIn later := by
  constructor
  · intro entry hentry
    exact mem_declaredTable.2 (h.subset (mem_declaredTable.1 hentry))
  · intro k hk
    exact mem_unresolvedTable.2 (h.subset (mem_unresolvedTable.1 hk))

theorem keys_subset_of_suffix {session later : Session} (h : session <:+ later) :
    session.keys ⊆ later.keys := by
  intro k hk
  obtain ⟨entry, hentry, rfl⟩ := List.mem_map.1 hk
  exact List.mem_map_of_mem (h.subset hentry)

/-! ## The uses -/

/-- A session in use, with the application model that its turns change. -/
structure Workbench where
  session : Session := []
  model : ApplicationModel
  deriving DecidableEq, Repr

/-- What a session is used for. -/
inductive Call where
  /-- Look at a component for a key. -/
  | collect (component : Component) (key : ArtifactKey)
  /-- Take the turn of a key. -/
  | reconcile (key : ArtifactKey)
  /-- Ask for the declarations of a key. -/
  | get (key : ArtifactKey)
  deriving DecidableEq, Repr

/-- What a call answers. -/
inductive Answer where
  | looked
  | failed (e : Failure)
  | reconciled (changed : Bool)
  | declarations (known : Option (List DeclaredDependency))
  deriving DecidableEq, Repr

/-- One call, with the session that it found and the one that it left. -/
structure Exchange where
  call : Call
  found : Session
  answer : Answer
  left : Session
  deriving DecidableEq, Repr

section

variable {m : Type → Type} [Monad m]

/-- Makes a call. -/
def Call.run (env : Surroundings m) (c : Circumstances) (w : Workbench) :
    Call → m (Answer × Workbench)
  | .collect component key => do
    match ← w.session.collect env c component key with
    | .error e => return (.failed e, w)
    | .ok session => return (.looked, { w with session })
  | .reconcile key =>
    match w.session.reconcileOne c.mode w.model key with
    | none => return (.reconciled false, w)
    | some model => return (.reconciled true, { w with model })
  | .get key => return (.declarations (w.session.declared? key), w)

/-- Makes one call after the other. -/
def Call.runEach (env : Surroundings m) (c : Circumstances) :
    List Call → Workbench → m (List Exchange × Workbench)
  | [], w => return ([], w)
  | call :: rest, w => do
    let (answer, w') ← call.run env c w
    let (exchanges, final) ← runEach env c rest w'
    return (⟨call, w.session, answer, w'.session⟩ :: exchanges, final)

end

/-! ## The log -/

/-- The module whose POM a call asks for, with the key it does so for. A key that is in a table is
not asked for again. -/
def Exchange.asked? (exchange : Exchange) : Option (ArtifactKey × Gav) :=
  match exchange.call with
  | .collect (.module gav) key =>
    if key ∈ exchange.found.declaredTable.map Prod.fst ∨ key ∈ exchange.found.unresolvedTable
    then none
    else some (key, gav)
  | _ => none

variable {σ : Type} {env : Surroundings (StateM σ)} {c : Circumstances}

/-- Whether the way from one state to another is that of asking for the POMs of some modules, one
after the other. -/
inductive Asked (env : Surroundings (StateM σ)) (c : Circumstances) :
    List (ArtifactKey × Gav) → σ → σ → Prop
  | nil {s : σ} : Asked env c [] s s
  | cons {key : ArtifactKey} {gav : Gav} {rest : List (ArtifactKey × Gav)} {f : Finding}
      {s u t : σ} (hfirst : Gives (examine env c (.module gav)) s (.ok f) u)
      (hrest : Asked env c rest u t) : Asked env c ((key, gav) :: rest) s t

theorem Exchange.asked?_eq_some_iff {exchange : Exchange} {key : ArtifactKey} {gav : Gav} :
    exchange.asked? = some (key, gav) ↔
      exchange.call = .collect (.module gav) key ∧ key ∉ exchange.found.keys := by
  rw [mem_keys_iff]
  unfold asked?
  split
  · rename_i gav' key' hcall
    rw [hcall]
    split
    · rename_i hknown
      constructor
      · intro hsome
        cases hsome
      · intro hboth
        obtain ⟨heq, hnew⟩ := hboth
        cases heq
        exact absurd hknown hnew
    · rename_i hnew
      constructor
      · intro hsome
        cases hsome
        exact ⟨rfl, hnew⟩
      · intro hboth
        obtain ⟨heq, -⟩ := hboth
        cases heq
        rfl
  · rename_i hother
    constructor
    · intro hsome
      cases hsome
    · intro hboth
      exact absurd hboth.1 (hother gav key)

/-- Only a look at a module for a new key asks for a POM. -/
theorem Exchange.asked?_eq_none {exchange : Exchange}
    (h : ∀ gav key, exchange.call = .collect (.module gav) key → key ∈ exchange.found.keys) :
    exchange.asked? = none := by
  cases hasked : exchange.asked? with
  | none => rfl
  | some entry =>
    obtain ⟨key, gav⟩ := entry
    obtain ⟨hcall, hnew⟩ := asked?_eq_some_iff.1 hasked
    exact absurd (h gav key hcall) hnew

/-! ## One call -/

/-- What a call does to the session, and how the state outside of it changes. -/
inductive Happens (env : Surroundings (StateM σ)) (c : Circumstances) (exchange : Exchange) :
    σ → σ → Prop
  /-- The call changes nothing. If it is a look, it failed or the key is known. -/
  | quiet {s : σ} (hleft : exchange.left = exchange.found) (hasked : exchange.asked? = none)
      (hlook : ∀ component key, exchange.call = .collect component key →
        (∃ e, exchange.answer = .failed e) ∨ key ∈ exchange.found.keys) : Happens env c exchange s s
  /-- The call is a look that finds something for a new key. -/
  | finds {component : Component} {key : ArtifactKey} {f : Finding} {s t : σ}
      (hcall : exchange.call = .collect component key) (hanswer : exchange.answer = .looked)
      (hnew : key ∉ exchange.found.keys) (hexamine : Gives (examine env c component) s (.ok f) t)
      (hleft : exchange.left = (key, f) :: exchange.found) : Happens env c exchange s t

/-- A look that fails is one at a project, and nothing happens in it. -/
theorem exists_project_of_gives_examine {component : Component} {e : Failure} {s t : σ}
    (h : Gives (examine env c component) s (.error e) t) :
    (∃ p, component = .project p) ∧ t = s := by
  cases component with
  | project p => exact ⟨⟨p, rfl⟩, (gives_pure_iff.1 h).2⟩
  | module gav =>
    obtain ⟨answer, u, -, h⟩ := gives_bind_iff.1 h
    cases answer with
    | error fault =>
      obtain ⟨_, _, -, h⟩ := gives_bind_iff.1 h
      cases (gives_pure_iff.1 h).1
    | ok l => cases (gives_pure_iff.1 h).1

theorem happens_of_gives_collect {component : Component} {key : ArtifactKey} {session : Session}
    {r : Except Failure Session} {s t : σ}
    (h : Gives (session.collect env c component key) s r t) :
    Happens env c (match r with
      | .error e => ⟨.collect component key, session, .failed e, session⟩
      | .ok next => ⟨.collect component key, session, .looked, next⟩) s t := by
  rcases gives_collect_cases h with
    ⟨hknown, rfl, rfl⟩ | ⟨hnew, ⟨e, hexamine, rfl⟩ | ⟨f, hexamine, rfl⟩⟩
  · have hkey : key ∈ session.keys := isCollected_iff.1 hknown
    refine .quiet rfl (Exchange.asked?_eq_none ?_) ?_
    · intro gav key' hcall
      cases hcall
      exact hkey
    · intro component' key' hcall
      cases hcall
      exact Or.inr hkey
  · obtain ⟨⟨p, rfl⟩, rfl⟩ := exists_project_of_gives_examine hexamine
    exact .quiet rfl rfl fun _ _ _ => Or.inl ⟨e, rfl⟩
  · have hkey : key ∉ session.keys := by
      rw [← isCollected_iff, hnew]
      exact Bool.false_ne_true
    exact .finds rfl rfl hkey hexamine rfl

theorem happens_of_gives_run {call : Call} {w w' : Workbench} {answer : Answer} {s t : σ}
    (h : Gives (call.run env c w) s (answer, w') t) :
    Happens env c ⟨call, w.session, answer, w'.session⟩ s t := by
  cases call with
  | collect component key =>
    obtain ⟨r, u, hr, h⟩ := gives_bind_iff.1 h
    have hhappens := happens_of_gives_collect hr
    cases r with
    | error e =>
      obtain ⟨hend, rfl⟩ := gives_pure_iff.1 h
      cases hend
      exact hhappens
    | ok next =>
      obtain ⟨hend, rfl⟩ := gives_pure_iff.1 h
      cases hend
      exact hhappens
  | reconcile key =>
    have hsession : w'.session = w.session ∧ t = s := by
      rw [Call.run] at h
      split at h
      · obtain ⟨hend, hstate⟩ := gives_pure_iff.1 h
        cases hend
        exact ⟨rfl, hstate⟩
      · obtain ⟨hend, hstate⟩ := gives_pure_iff.1 h
        cases hend
        exact ⟨rfl, hstate⟩
    obtain ⟨hsession, rfl⟩ := hsession
    exact .quiet hsession rfl fun _ _ hcall => nomatch hcall
  | get key =>
    obtain ⟨hend, rfl⟩ := gives_pure_iff.1 h
    cases hend
    exact .quiet rfl rfl fun _ _ hcall => nomatch hcall

namespace Happens

variable {exchange : Exchange} {s t : σ}

theorem suffix (h : Happens env c exchange s t) : exchange.found <:+ exchange.left := by
  cases h with
  | quiet hleft => exact hleft ▸ List.suffix_rfl
  | finds _ _ _ _ hleft =>
    rw [hleft]
    exact List.suffix_cons _ _

/-- A session grows by new keys only. -/
theorem nodup_keys (h : Happens env c exchange s t) (hnodup : exchange.found.keys.Nodup) :
    exchange.left.keys.Nodup := by
  cases h with
  | quiet hleft =>
    rw [hleft]
    exact hnodup
  | finds _ _ hnew _ hleft =>
    rw [hleft]
    exact List.nodup_cons.2 ⟨hnew, hnodup⟩

/-- Only a look that does not fail changes a session. -/
theorem left_eq_found (h : Happens env c exchange s t)
    (hidle : (∃ e, exchange.answer = .failed e) ∨
      ∀ component key, exchange.call ≠ .collect component key) :
    exchange.left = exchange.found := by
  cases h with
  | quiet hleft => exact hleft
  | finds hcall hanswer =>
    rcases hidle with ⟨e, hfailed⟩ | hother
    · cases hanswer.symm.trans hfailed
    · exact absurd hcall (hother _ _)

/-- After a look that does not fail, its key is known. -/
theorem failed_or_mem_keys (h : Happens env c exchange s t) {component : Component}
    {key : ArtifactKey} (hcall : exchange.call = .collect component key) :
    (∃ e, exchange.answer = .failed e) ∨ key ∈ exchange.left.keys := by
  cases h with
  | quiet hleft _ hlook =>
    rw [hleft]
    exact hlook component key hcall
  | finds hcall' _ _ _ hleft =>
    cases hcall'.symm.trans hcall
    rw [hleft]
    exact Or.inr List.mem_cons_self

/-- A call asks for the POM of one module, or nothing happens outside the session. -/
theorem asked_cases (h : Happens env c exchange s t) :
    (exchange.asked? = none ∧ t = s) ∨
      ∃ key gav f, exchange.asked? = some (key, gav) ∧ key ∈ exchange.left.keys ∧
        Gives (examine env c (.module gav)) s (.ok f) t := by
  cases h with
  | quiet _ hasked => exact Or.inl ⟨hasked, rfl⟩
  | @finds component key f _ _ hcall _ hnew hexamine hleft =>
    cases component with
    | project p =>
      -- The workspace is known, so a look at a project has no need of the world.
      refine Or.inl ⟨Exchange.asked?_eq_none ?_, (gives_pure_iff.1 hexamine).2⟩
      intro gav key' hcall'
      cases hcall.symm.trans hcall'
    | module gav =>
      refine Or.inr ⟨key, gav, f, Exchange.asked?_eq_some_iff.2 ⟨hcall, hnew⟩, ?_, hexamine⟩
      rw [hleft]
      exact List.mem_cons_self

end Happens

/-! ## The history -/

/-- What several calls do to a session, each to the one that the call before it left. -/
inductive History (env : Surroundings (StateM σ)) (c : Circumstances) :
    Session → σ → List Exchange → Session → σ → Prop
  | nil {session : Session} {s : σ} : History env c session s [] session s
  | cons {exchange : Exchange} {rest : List Exchange} {final : Session} {s u t : σ}
      (hfirst : Happens env c exchange s u) (hrest : History env c exchange.left u rest final t) :
      History env c exchange.found s (exchange :: rest) final t

/-- Calls make a history. -/
theorem history_of_gives_runEach {calls : List Call} {w w' : Workbench} {exchanges : List Exchange}
    {s t : σ} (h : Gives (Call.runEach env c calls w) s (exchanges, w') t) :
    exchanges.map (·.call) = calls ∧ History env c w.session s exchanges w'.session t := by
  induction calls generalizing w exchanges s with
  | nil =>
    obtain ⟨heq, rfl⟩ := gives_pure_iff.1 h
    cases heq
    exact ⟨rfl, .nil⟩
  | cons call rest ih =>
    obtain ⟨⟨answer, next⟩, u, hcall, h⟩ := gives_bind_iff.1 h
    obtain ⟨⟨later, final⟩, v, hlater, h⟩ := gives_bind_iff.1 h
    obtain ⟨heq, rfl⟩ := gives_pure_iff.1 h
    cases heq
    obtain ⟨hcalls, hhistory⟩ := ih hlater
    exact ⟨by rw [List.map_cons, hcalls], .cons (happens_of_gives_run hcall) hhistory⟩

namespace History

variable {session final : Session} {exchanges : List Exchange} {s t : σ}

theorem exists_happens_of_mem (h : History env c session s exchanges final t) {exchange : Exchange}
    (hexchange : exchange ∈ exchanges) : ∃ u v, Happens env c exchange u v := by
  induction h with
  | nil => cases hexchange
  | cons hfirst _ ih =>
    rcases List.mem_cons.1 hexchange with rfl | hexchange
    · exact ⟨_, _, hfirst⟩
    · exact ih hexchange

theorem suffix (h : History env c session s exchanges final t) : session <:+ final := by
  induction h with
  | nil => exact List.suffix_rfl
  | cons hfirst _ ih => exact hfirst.suffix.trans ih

theorem nodup_keys (h : History env c session s exchanges final t) (hnodup : session.keys.Nodup) :
    final.keys.Nodup := by
  induction h with
  | nil => exact hnodup
  | cons hfirst _ ih => exact ih (hfirst.nodup_keys hnodup)

/-- Every call finds and leaves a stage of the growth. -/
theorem suffix_of_mem (h : History env c session s exchanges final t) {exchange : Exchange}
    (hexchange : exchange ∈ exchanges) : session <:+ exchange.found ∧ exchange.left <:+ final := by
  induction h with
  | nil => cases hexchange
  | cons hfirst hrest ih =>
    rcases List.mem_cons.1 hexchange with rfl | hexchange
    · exact ⟨List.suffix_rfl, hrest.suffix⟩
    · obtain ⟨hfound, hleft⟩ := ih hexchange
      exact ⟨hfirst.suffix.trans hfound, hleft⟩

/-- What a call leaves is there when a later one comes. -/
theorem pairwise_suffix (h : History env c session s exchanges final t) :
    exchanges.Pairwise fun earlier later => earlier.left <:+ later.found := by
  induction h with
  | nil => exact List.Pairwise.nil
  | cons _ hrest ih =>
    exact List.pairwise_cons.2 ⟨fun _ hlater => (hrest.suffix_of_mem hlater).1, ih⟩

/-- All that happens outside the session is that the modules are asked for. -/
theorem asked (h : History env c session s exchanges final t) :
    Asked env c (exchanges.filterMap Exchange.asked?) s t := by
  induction h with
  | nil => exact .nil
  | cons hfirst _ ih =>
    rcases hfirst.asked_cases with ⟨hnone, rfl⟩ | ⟨key, gav, f, hsome, -, hexamine⟩
    · rw [List.filterMap_cons_none hnone]
      exact ih
    · rw [List.filterMap_cons_some hsome]
      exact .cons hexamine ih

/-- A call that asks for the POM of a module comes after no look for the same key that did not
fail. -/
theorem pairwise_failed (h : History env c session s exchanges final t) :
    exchanges.Pairwise fun earlier later => ∀ component key gav,
      earlier.call = .collect component key → later.asked? = some (key, gav) →
        ∃ e, earlier.answer = .failed e := by
  refine h.pairwise_suffix.imp_of_mem ?_
  intro earlier later hearlier _ hgrown component key gav hcall hasked
  obtain ⟨u, v, hhappens⟩ := h.exists_happens_of_mem hearlier
  rcases hhappens.failed_or_mem_keys hcall with hfailed | hknown
  · exact hfailed
  · have hnew := (Exchange.asked?_eq_some_iff.1 hasked).2
    exact absurd (keys_subset_of_suffix hgrown hknown) hnew

/-- A key that is asked for is known from then on. -/
theorem nodup_asked (h : History env c session s exchanges final t) :
    ((exchanges.filterMap Exchange.asked?).map Prod.fst).Nodup := by
  rw [List.Nodup, List.pairwise_map, List.pairwise_filterMap]
  refine h.pairwise_suffix.imp_of_mem ?_
  intro earlier later hearlier _ hgrown first hfirst second hsecond
  obtain ⟨key, gav⟩ := first
  obtain ⟨key', gav'⟩ := second
  have hknown : key ∈ earlier.left.keys := by
    obtain ⟨u, v, hhappens⟩ := h.exists_happens_of_mem hearlier
    rcases hhappens.asked_cases with ⟨hnone, -⟩ | ⟨_, _, _, hsome, hknown, -⟩
    · cases hnone.symm.trans hfirst
    · cases hsome.symm.trans hfirst
      exact hknown
  have hnew : key' ∉ later.found.keys := (Exchange.asked?_eq_some_iff.1 hsecond).2
  intro hsame
  cases hsame
  exact hnew (keys_subset_of_suffix hgrown hknown)

end History

/-! ## Nothing is forgotten and nothing is asked twice -/

/-- What the calls of a run, made one after the other, have to do with each other. The state outside
of the session is `s` before them and `t` after them. -/
structure Memoizes (env : Surroundings (StateM σ)) (c : Circumstances) (exchanges : List Exchange)
    (final : Session) (s t : σ) : Prop where
  /-- No key is ever in both tables. -/
  apart : ∀ exchange ∈ exchanges, exchange.found.TablesApart ∧ exchange.left.TablesApart
  /-- An entry stays in its table, from call to call and to the end. -/
  kept : ∀ exchange ∈ exchanges, exchange.found.KeptIn exchange.left ∧ exchange.left.KeptIn final
  keptLater : exchanges.Pairwise fun earlier later => earlier.left.KeptIn later.found
  /-- A look that fails changes nothing, and a call that is no look does not. -/
  still : ∀ exchange ∈ exchanges, ((∃ e, exchange.answer = .failed e) ∨
    ∀ component key, exchange.call ≠ .collect component key) → exchange.left = exchange.found
  /-- The modules that were asked for are those of the looks at keys in neither table, and asking
  for them is all that happens. -/
  asked : Asked env c (exchanges.filterMap Exchange.asked?) s t
  once : ((exchanges.filterMap Exchange.asked?).map Prod.fst).Nodup
  /-- A key is asked for by the first look for it that does not fail. -/
  first : exchanges.Pairwise fun earlier later => ∀ component key gav,
    earlier.call = .collect component key → later.asked? = some (key, gav) →
      ∃ e, earlier.answer = .failed e

/-- Whatever calls are made on a new session, and in whatever order, it forgets nothing and asks for
nothing twice. -/
theorem remembers_of_gives_runEach {calls : List Call} {model : ApplicationModel}
    {exchanges : List Exchange} {final : Workbench} {s t : σ}
    (h : Gives (Call.runEach env c calls { model }) s (exchanges, final) t) :
    exchanges.map (·.call) = calls ∧ Memoizes env c exchanges final.session s t := by
  obtain ⟨hcalls, hhistory⟩ := history_of_gives_runEach h
  have hfinal : final.session.keys.Nodup := hhistory.nodup_keys List.nodup_nil
  -- What a call finds and leaves is an end of the final session, so it has no key twice either.
  have hapart {session : Session} (hsuffix : session <:+ final.session) : session.TablesApart :=
    tablesApart_of_nodup ((hsuffix.sublist.map Prod.fst).nodup hfinal)
  refine ⟨hcalls, ?_⟩
  constructor
  case apart =>
    intro exchange hexchange
    obtain ⟨u, v, hhappens⟩ := hhistory.exists_happens_of_mem hexchange
    obtain ⟨-, hleft⟩ := hhistory.suffix_of_mem hexchange
    exact ⟨hapart (hhappens.suffix.trans hleft), hapart hleft⟩
  case kept =>
    intro exchange hexchange
    obtain ⟨u, v, hhappens⟩ := hhistory.exists_happens_of_mem hexchange
    obtain ⟨-, hleft⟩ := hhistory.suffix_of_mem hexchange
    exact ⟨keptIn_of_suffix hhappens.suffix, keptIn_of_suffix hleft⟩
  case keptLater => exact hhistory.pairwise_suffix.imp keptIn_of_suffix
  case still =>
    intro exchange hexchange hidle
    obtain ⟨u, v, hhappens⟩ := hhistory.exists_happens_of_mem hexchange
    exact hhappens.left_eq_found hidle
  case asked => exact hhistory.asked
  case once => exact hhistory.nodup_asked
  case first => exact hhistory.pairwise_failed

/-- Surroundings that keep a list of the modules that were looked for, the latest first. No POM is
ever found. -/
def loggingSurroundings : Surroundings (StateM (List Gav)) :=
  { locate := fun gav => do
      modify (gav :: ·)
      return .error (.noSource gav)
    system := [], tell := fun _ => pure () }

/-- A project that the workspace does not have. -/
def missingProject : Component := .project { projectPath := ":missing" }

/-- A module that is not found. -/
def missingModule : Component := .module ⟨"g", "m", "1"⟩

/-- The key of that module. -/
def missingKey : ArtifactKey := ⟨"g", "m", "", "jar"⟩

/-- A model without nodes. -/
def loneModel : ApplicationModel :=
  { application := { coordinates := { groupId := "g", artifactId := "app", version := "1" } } }

/-- The look at the project, which fails. -/
def projectExchange : Exchange :=
  { call := .collect missingProject missingKey, found := []
    answer := .failed (.projectComponentUnresolved ":" ":missing"), left := [] }

/-- What the look at the module leaves. -/
def missingSession : Session := [(missingKey, .unresolved)]

def moduleExchange : Exchange :=
  { call := .collect missingModule missingKey, found := []
    answer := .looked, left := missingSession }

/-- Looks for one key at the project, at the module and at its next version, with other calls in
between. -/
def mixedExchanges : List Exchange :=
  [projectExchange,
    { call := .get missingKey, found := [], answer := .declarations none, left := [] },
    moduleExchange,
    { call := .reconcile missingKey, found := missingSession
      answer := .reconciled false, left := missingSession },
    { call := .collect (.module ⟨"g", "m", "2"⟩) missingKey, found := missingSession
      answer := .looked, left := missingSession }]

theorem gives_runEach_mixedExchanges :
    Gives (Call.runEach loggingSurroundings emptyCircumstances (mixedExchanges.map (·.call))
      { model := loneModel }) [] (mixedExchanges, ⟨missingSession, loneModel⟩) [⟨"g", "m", "1"⟩] :=
  rfl

theorem memoizes_mixedExchanges :
    Gives (Call.runEach loggingSurroundings emptyCircumstances (mixedExchanges.map (·.call))
        { model := loneModel }) [] (mixedExchanges, ⟨missingSession, loneModel⟩) [⟨"g", "m", "1"⟩] ∧
      Memoizes loggingSurroundings emptyCircumstances mixedExchanges missingSession []
        [⟨"g", "m", "1"⟩] :=
  ⟨gives_runEach_mixedExchanges, (remembers_of_gives_runEach gives_runEach_mixedExchanges).2⟩

/-- The look at the project finds the key in neither table, and yet it is the look at the module,
after it, that asks for the POM. -/
theorem asked_after_failed :
    missingKey ∉ projectExchange.found.declaredTable.map Prod.fst ∧
      missingKey ∉ projectExchange.found.unresolvedTable ∧
      Gives (Call.runEach loggingSurroundings emptyCircumstances
        [.collect missingProject missingKey] { model := loneModel }) []
        ([projectExchange], ⟨[], loneModel⟩) [] ∧
      Gives (Call.runEach loggingSurroundings emptyCircumstances
        [.collect missingProject missingKey, .collect missingModule missingKey]
        { model := loneModel }) []
        ([projectExchange, moduleExchange], ⟨missingSession, loneModel⟩) [⟨"g", "m", "1"⟩] :=
  ⟨by decide, by decide, rfl, rfl⟩

end Session

end ArtifactGraph
