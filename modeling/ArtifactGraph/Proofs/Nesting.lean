import ArtifactGraph.Proofs.ImportGraph

/-!
# Models inside other models

An imported model is built inside the model that imports it, and knows which triples it is inside
of.  This decides whether it can be built, and it decides nothing else: a model that can be built
inside others is the one that is built alone.

* `buildInside` is a build with triples around it.  `buildInside_eq` is its recursion: what it
  imports is built inside one triple more.
* `gives_buildWithin_of_apart`: a build that succeeds does so with any triples around it, as long as
  it leads to none of them and there is room for the longest way.
* `buildInside_independent` says when a build inside succeeds, and that it does not matter where.
-/

namespace ArtifactGraph

namespace EffectiveModel

/-! ## Builds inside others -/

section

variable {m : Type → Type} [Monad m]

/-- Builds the model of a triple inside others, the latest first. -/
def buildInside (locate : Locate m) (system : Bindings) (importing : List Gav)
    (level : Strictness) (gav : Gav) : Modeling m EffectiveModel :=
  buildWithin (Pom.fetch locate) system (importLimit - importing.length) importing level gav

theorem buildInside_nil (locate : Locate m) (system : Bindings) (level : Strictness) (gav : Gav) :
    buildInside locate system [] level gav = build locate system level gav := rfl

/-- Imports are built inside the importer, while there are not too many around it. -/
theorem buildInside_eq (locate : Locate m) (system : Bindings) (importing : List Gav)
    (level : Strictness) (gav : Gav) :
    buildInside locate system importing level gav =
      buildWith (Pom.fetch locate) system
        (if importing.length < importLimit then
          some (buildInside locate system (gav :: importing) .minimal) else none)
        importing level gav := by
  unfold buildInside
  split
  · rename_i hroom
    obtain ⟨room, hleft⟩ : ∃ room, importLimit - importing.length = room + 1 :=
      ⟨importLimit - importing.length - 1, by omega⟩
    have hinner : importLimit - (gav :: importing).length = room := by
      rw [List.length_cons]
      omega
    rw [hleft, hinner]
    rfl
  · rename_i hfull
    have hleft : importLimit - importing.length = 0 := by omega
    rw [hleft]
    rfl

end

/-! ## What is around a build -/

variable {σ : Type}

/-- A build that succeeds does so with other triples around it, too, if there is room for every way
from it and none leads to one of them. By induction on the room that there was: what is imported
must not lead to the importer either, and it does not, since it would be on a cycle. -/
theorem gives_buildWithin_of_apart {fetch : Pom.Fetch (StateM σ)}
    (hfetch : ∀ gav, Steady (fetch gav).run) {system : Bindings} {room room' : Nat}
    {importing importing' : List Gav} {level : Strictness} {gav : Gav} {e : EffectiveModel}
    {s t : σ}
    (hroom : ∀ chain, List.IsChain (Imports fetch system) (gav :: chain) → chain.length ≤ room')
    (hapart : ∀ reached, Relation.TransGen (Imports fetch system) gav reached →
      reached ∉ importing')
    (h : Gives (buildWithin fetch system room importing level gav).run s (.ok e) t) :
    Gives (buildWithin fetch system room' importing' level gav).run s (.ok e) t := by
  induction room generalizing room' importing importing' level gav e s t with
  | zero =>
    rw [buildWithin_eq fetch system room']
    refine gives_buildWith_of_covers ?_ h
    intro imported himports
    have hle := length_le_of_gives_buildWithin hfetch h
      (List.isChain_cons_cons.2 ⟨himports, List.isChain_singleton imported⟩)
    cases hle
  | succ room ih =>
    have hround : ¬ Relation.TransGen (Imports fetch system) gav gav :=
      not_transGen_of_length_le fun _ hchain => length_le_of_gives_buildWithin hfetch h hchain
    rw [buildWithin_eq fetch system room']
    refine gives_buildWith_of_covers ?_ h
    intro imported himports
    constructor
    · intro _ hmem
      rcases List.mem_cons.1 hmem with rfl | hmem
      · exact hround (.single himports)
      · exact hapart imported (.single himports) hmem
    · intro build hbuild
      cases hbuild
      have hone := hroom [imported]
        (List.isChain_cons_cons.2 ⟨himports, List.isChain_singleton imported⟩)
      rw [List.length_singleton] at hone
      obtain ⟨room', rfl⟩ : ∃ r, room' = r + 1 := ⟨room' - 1, by omega⟩
      refine ⟨_, rfl, ?_⟩
      intro s e t himported
      refine ih ?_ ?_ himported
      · intro chain hchain
        have hlonger := hroom (imported :: chain) (List.isChain_cons_cons.2 ⟨himports, hchain⟩)
        rw [List.length_cons] at hlonger
        omega
      · intro reached hreached hmem
        rcases List.mem_cons.1 hmem with rfl | hmem
        · exact hround (.head himports hreached)
        · exact hapart reached (.head himports hreached) hmem

/-- A build that succeeds leads to none of the triples around it. -/
theorem not_mem_of_gives_buildWithin {fetch : Pom.Fetch (StateM σ)}
    (hfetch : ∀ gav, Steady (fetch gav).run) {system : Bindings} {room : Nat}
    {importing : List Gav} {level : Strictness} {gav : Gav} {e : EffectiveModel} {s t : σ}
    (h : Gives (buildWithin fetch system room importing level gav).run s (.ok e) t)
    {reached : Gav} (hreached : Relation.TransGen (Imports fetch system) gav reached) :
    reached ∉ importing := by
  induction hreached using Relation.TransGen.head_induction_on
    generalizing room importing level e s t with
  | single himports =>
    rw [buildWithin_eq] at h
    obtain ⟨hnew, -⟩ := exists_built_of_gives_buildWith hfetch h himports
    exact fun hmem => hnew (List.mem_cons_of_mem _ hmem)
  | head himports _ ih =>
    rw [buildWithin_eq] at h
    obtain ⟨-, build, model, u, v, hbuild, hmodel⟩ :=
      exists_built_of_gives_buildWith hfetch h himports
    cases room with
    | zero => cases hbuild
    | succ room =>
      cases hbuild
      exact fun hmem => ih hmodel (List.mem_cons_of_mem _ hmem)

/-! ## Where it does not matter -/

section

variable {locate : Locate (StateM σ)} {system : Bindings} {importing importing' : List Gav}
  {level : Strictness} {gav : Gav} {e : EffectiveModel} {s t : σ}

/-- With fewer triples around it a model is built alike. -/
theorem gives_buildInside_of_le (hlocate : ∀ gav, Steady (locate gav))
    (hlength : importing'.length ≤ importing.length) (hsub : importing' ⊆ importing)
    (h : Gives (buildInside locate system importing level gav).run s (.ok e) t) (s' : σ) :
    ∃ t', Gives (buildInside locate system importing' level gav).run s' (.ok e) t' := by
  have hroom : importLimit - importing.length ≤ importLimit - importing'.length := by omega
  have hsteady := steady_buildWithin (Pom.steady_fetch hlocate) system
    (importLimit - importing'.length) importing' level gav
  exact hsteady _ _ _ (gives_buildWithin_of_le hroom hsub h) s'

/-- Alone a model is built alike. -/
theorem gives_build_of_gives_buildInside (hlocate : ∀ gav, Steady (locate gav))
    (h : Gives (buildInside locate system importing level gav).run s (.ok e) t) (s' : σ) :
    ∃ t', Gives (build locate system level gav).run s' (.ok e) t' := by
  rw [← buildInside_nil]
  exact gives_buildInside_of_le hlocate (Nat.zero_le _) (List.nil_subset _) h s'

end

/-- A model that was built inside others is built alike alone, and inside fewer of them; and whoever
imports it gets this model or none. It can be built exactly where it leads to none of the triples
around it and there is room for every way from it. -/
theorem buildInside_independent {locate : Locate (StateM σ)} (hlocate : ∀ gav, Steady (locate gav))
    {system : Bindings} {importing : List Gav} {level : Strictness} {gav : Gav}
    {e : EffectiveModel} {s t : σ}
    (h : Gives (buildInside locate system importing level gav).run s (.ok e) t) :
    (∀ s', ∃ t', Gives (build locate system level gav).run s' (.ok e) t') ∧
    (∀ importing', importing'.length ≤ importing.length → importing' ⊆ importing →
      ∀ s', ∃ t', Gives (buildInside locate system importing' level gav).run s' (.ok e) t') ∧
    (∀ importing' e' s' t',
      Gives (buildInside locate system importing' level gav).run s' (.ok e') t' → e' = e) ∧
    ∀ importing' s',
      (∃ t', Gives (buildInside locate system importing' level gav).run s' (.ok e) t') ↔
        (∀ reached, Relation.TransGen (Imports (Pom.fetch locate) system) gav reached →
          reached ∉ importing') ∧
        ∀ chain, List.IsChain (Imports (Pom.fetch locate) system) (gav :: chain) →
          chain.length ≤ importLimit - importing'.length := by
  have hfetch := Pom.steady_fetch hlocate
  refine ⟨gives_build_of_gives_buildInside hlocate h, ?_, ?_, ?_⟩
  · intro importing' hlength hsub
    exact gives_buildInside_of_le hlocate hlength hsub h
  · intro importing' e' s' t' h'
    obtain ⟨u, halone⟩ := gives_build_of_gives_buildInside hlocate h s
    obtain ⟨v, halone'⟩ := gives_build_of_gives_buildInside hlocate h' s
    exact Except.ok.inj (halone'.unique halone).1
  · intro importing' s'
    constructor
    · intro hbuilt
      obtain ⟨t', h'⟩ := hbuilt
      exact ⟨fun _ hreached => not_mem_of_gives_buildWithin hfetch h' hreached,
        fun _ hchain => length_le_of_gives_buildWithin hfetch h' hchain⟩
    · intro hgraph
      obtain ⟨hapart, hroom⟩ := hgraph
      exact steady_buildWithin hfetch _ _ _ _ _ _ _ _
        (gives_buildWithin_of_apart hfetch hroom hapart h) s'

/-- A model with an import that is built inside two others, and inside one of them. -/
theorem buildInside_independent_imports :
    Gives (buildInside imports [] [⟨"g", "y", "1"⟩, ⟨"g", "x", "1"⟩] .strict ⟨"g", "c", "1"⟩).run ()
        (.ok importingModel) () ∧
      [(⟨"g", "x", "1"⟩ : Gav)] ⊆ [⟨"g", "y", "1"⟩, ⟨"g", "x", "1"⟩] ∧
      Gives (buildInside imports [] [⟨"g", "x", "1"⟩] .strict ⟨"g", "c", "1"⟩).run ()
        (.ok importingModel) () := by
  have hinside : Gives (buildInside imports [] [⟨"g", "y", "1"⟩, ⟨"g", "x", "1"⟩] .strict
      ⟨"g", "c", "1"⟩).run () (.ok importingModel) () := by
    rw [buildInside, imports, Pom.fetch_locator]
    exact gives_ok_of_toOption (by decide +kernel)
  have hsub : [(⟨"g", "x", "1"⟩ : Gav)] ⊆ [⟨"g", "y", "1"⟩, ⟨"g", "x", "1"⟩] := by simp
  obtain ⟨-, hfewer, -⟩ := buildInside_independent steady_imports hinside
  obtain ⟨⟨⟩, hone⟩ := hfewer _ (by decide) hsub ()
  exact ⟨hinside, hsub, hone⟩

end EffectiveModel

end ArtifactGraph
