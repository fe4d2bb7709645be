import ArtifactGraph.Proofs.Extracting
import ArtifactGraph.Proofs.Seeding
import ArtifactGraph.Proofs.Turns
import Mathlib.Data.List.Nodup

/-!
# What a run counts

The numbers of a run come from two places: from the session, which has an entry for every key that
was looked at, and from the reconciling of the artifacts, where every turn reports whether there was
something to reconcile.  They agree because both go through the same keys, those of the model.

* Keys.  `keys_of_lookEach` says what a collection does to the keys of a session, and
  `Course.keys_complete` that a run ends with those of the model, each of them once.
* Counts.  `collectedCount_eq_countP` and `unresolvedCount_eq_countP`: while no key is repeated, a
  session counts keys.
* Reports.  `Session.reports` are the reports of the turns, one after the other; `reports_eq_map`
  says that a turn reports whether declarations are held.
* `statistics_of_gives_assemble` puts these together.
-/

namespace ArtifactGraph

/-! ## Keys -/

/-- After looks at resolved artifacts the new keys stand before the others, those of the first
artifacts last. -/
theorem Circumstances.keys_of_lookEach {c : Circumstances} {applicationKey : ArtifactKey}
    {keys keys' : List ArtifactKey} {nodes : List ResolvedNode}
    (h : c.lookEach applicationKey keys nodes = .ok keys') :
    keys' = (firstOccurrencesBut keys
      ((nodes.map (·.coordinates.key)).filter (· ≠ applicationKey))).reverse ++ keys := by
  induction nodes generalizing keys with
  | nil =>
    cases h
    rfl
  | cons n rest ih =>
    rw [lookEach] at h
    rw [List.map_cons]
    by_cases happlication : applicationKey = n.coordinates.key
    · rw [if_pos happlication] at h
      rw [List.filter_cons_of_neg (by simp [happlication]), ih h]
    · rw [if_neg happlication] at h
      rw [List.filter_cons_of_pos (by simpa using Ne.symm happlication), firstOccurrencesBut]
      by_cases hknown : n.coordinates.key ∈ keys
      · rw [look, if_pos hknown] at h
        rw [if_pos hknown, ih h]
      · rw [look, if_neg hknown] at h
        rw [if_neg hknown, List.reverse_cons, List.append_assoc]
        cases hprobe : c.probe n.component with
        | error e =>
          rw [hprobe] at h
          cases h
        | ok u =>
          rw [hprobe] at h
          exact ih h

namespace BuildModel

variable {σ : Type} {env : Surroundings (StateM σ)} {policy : ScopePolicy}
  {requested : Option LaunchMode} {doc : BuildModel} {s t : σ}

namespace Course

/-- The keys that a run looks at are those of the application and of the nodes. -/
theorem keys_complete (course : Course env policy requested doc s) :
    course.complete.keys = course.result.model.keys.reverse ++ [course.key] := by
  obtain ⟨declared, -, hopened⟩ := course.exists_opened_eq
  have hopenedkeys : course.opened.keys = [course.key] := by
    rw [hopened]
    rfl
  have hkeys : course.complete.keys = (firstOccurrencesBut course.opened.keys
      ((doc.resolved.map (·.coordinates.key)).filter (· ≠ course.key))).reverse ++
        course.opened.keys :=
    Circumstances.keys_of_lookEach (keys_of_gives_collectNodes course.gives_complete).symm
  -- That the application was looked at before makes no difference to the keys of others.
  have hseen (seen : List ArtifactKey) (h : ∀ k, k ≠ course.key → (k ∈ [] ↔ k ∈ seen)) :
      (firstOccurrences (doc.resolved.map (·.coordinates.key))).filter (· ≠ course.key) =
        firstOccurrencesBut seen
          ((doc.resolved.map (·.coordinates.key)).filter (· ≠ course.key)) :=
    filter_firstOccurrencesBut fun k hk => h k (by simpa using hk)
  rw [hkeys, hopenedkeys, course.keys_model_result, firstOccurrences,
    ← hseen [] fun _ _ => Iff.rfl, ← hseen [course.key] fun k hk => by simp [hk]]

theorem nodup_keys_complete (course : Course env policy requested doc s) :
    course.complete.keys.Nodup := by
  have hwell := course.wellKeyed_model_result
  rw [course.keys_complete, List.nodup_append]
  refine ⟨List.nodup_reverse.2 hwell.nodup, List.nodup_singleton _, ?_⟩
  intro k hk l hl hsame
  rw [List.mem_singleton.1 hl, ← course.key_application_result] at hsame
  exact hwell.apart (hsame ▸ List.mem_reverse.1 hk)

end Course

end BuildModel

namespace Session

/-! ## Counts -/

theorem finding?_of_mem {session : Session} (h : session.keys.Nodup) {entry : ArtifactKey × Finding}
    (hentry : entry ∈ session) : session.finding? entry.1 = some entry.2 := by
  induction session with
  | nil => cases hentry
  | cons first rest ih =>
    obtain ⟨hnew, hrest⟩ := List.nodup_cons.1 h
    rcases List.mem_cons.1 hentry with rfl | hentry
    · exact finding?_cons_self rest entry.1 entry.2
    · have hne : entry.1 ≠ first.1 := fun heq => hnew (heq ▸ List.mem_map_of_mem hentry)
      rw [finding?_cons_of_ne hne, ih hrest hentry]

/-- Where no key is repeated, the entries are counted by their keys. -/
theorem countP_eq_countP_keys {session : Session} (h : session.keys.Nodup)
    (P : Option (List DeclaredDependency) → Bool) :
    session.countP (fun entry => P entry.2.dependencies?) =
      session.keys.countP fun k => P (session.declared? k) := by
  rw [keys, List.countP_map]
  apply List.countP_congr
  intro entry hentry
  rw [Function.comp_apply, declared?, finding?_of_mem h hentry]
  rfl

theorem collectedCount_eq_countP {session : Session} (h : session.keys.Nodup) :
    session.collectedCount = session.keys.countP fun k => (session.declared? k).isSome :=
  countP_eq_countP_keys h Option.isSome

theorem unresolvedCount_eq_countP {session : Session} (h : session.keys.Nodup) :
    session.unresolvedCount = session.keys.countP fun k => (session.declared? k).isNone :=
  countP_eq_countP_keys h Option.isNone

/-! ## Reports -/

/-- What the turns of several keys report, one after the other: whether there was something to
reconcile. -/
def reports (session : Session) (mode : LaunchMode) :
    ApplicationModel → List ArtifactKey → List (ArtifactKey × Bool)
  | _, [] => []
  | m, k :: rest =>
    (k, (session.reconcileOne mode m k).isSome) ::
      session.reports mode (session.turn mode m k) rest

variable (session : Session) (mode : LaunchMode)

/-- The turns that are counted are those that report it. -/
theorem reconcileEach_snd (m : ApplicationModel) (keys : List ArtifactKey) :
    (session.reconcileEach mode m keys).2 = (session.reports mode m keys).countP (·.2) := by
  induction keys generalizing m with
  | nil => rfl
  | cons k rest ih =>
    rw [reconcileEach, reports, List.countP_cons, turn]
    cases session.reconcileOne mode m k with
    | none => exact ih m
    | some changed => exact congrArg (· + 1) (ih changed)

theorem isSome_artifact?_congr {m m' : ApplicationModel} (h : m.bare = m'.bare) (k : ArtifactKey) :
    (m.artifact? k).isSome = (m'.artifact? k).isSome := by
  have hbare (n : ApplicationModel) : (n.bare.artifact? k).isSome = (n.artifact? k).isSome := by
    unfold ApplicationModel.artifact?
    rw [ApplicationModel.get?_bare, apply_ite Option.isSome, apply_ite Option.isSome,
      Option.isSome_map]
    rfl
  rw [← hbare m, h, hbare m']

/-- For artifacts of the model, a turn reports whether declarations are held for the key. -/
theorem reports_eq_map {m : ApplicationModel} {keys : List ArtifactKey}
    (h : ∀ k ∈ keys, (m.artifact? k).isSome = true) :
    session.reports mode m keys = keys.map fun k => (k, (session.declared? k).isSome) := by
  induction keys generalizing m with
  | nil => rfl
  | cons k rest ih =>
    obtain ⟨hk, hrest⟩ := List.forall_mem_cons.1 h
    obtain ⟨target, htarget⟩ := Option.isSome_iff_exists.1 hk
    have hreport : (session.reconcileOne mode m k).isSome = (session.declared? k).isSome := by
      rw [reconcileOne, htarget]
      cases session.declared? k <;> rfl
    have hturn : ∀ l ∈ rest, ((session.turn mode m k).artifact? l).isSome = true := by
      intro l hl
      rw [isSome_artifact?_congr (session.bare_turn mode m k), hrest l hl]
    rw [reports, List.map_cons, hreport, ih hturn]

end Session

/-! ## The run -/

namespace BuildModel

variable {σ : Type} {env : Surroundings (StateM σ)} {policy : ScopePolicy}
  {requested : Option LaunchMode} {doc : BuildModel} {s t : σ}

namespace Course

/-- What the turns of a run report. -/
def reports (course : Course env policy requested doc s) : List (ArtifactKey × Bool) :=
  course.complete.reports (doc.launchModeOf requested) course.seeded
    (course.seeded.application.key :: course.seeded.keys)

theorem reports_eq (course : Course env policy requested doc s) :
    course.reports = (course.key :: course.result.model.keys).map fun k =>
      (k, (course.complete.declared? k).isSome) := by
  have hkeys : course.result.model.keys = course.seeded.keys := by
    rw [course.model_result]
    exact ApplicationModel.keys_mapArtifacts fun a =>
      Session.bare_settled course.complete _ course.seeded a
  rw [reports, Session.reports_eq_map, course.key_application_seeded, hkeys]
  intro k hk
  obtain ⟨a, ha, rfl⟩ : ∃ a ∈ course.seeded.artifacts, a.key = k := List.mem_map.1 hk
  have hwell : course.seeded.WellKeyed := doc.wellKeyed_seed _ _
  rw [hwell.artifact?_key ha]
  rfl

theorem mem_reports_iff (course : Course env policy requested doc s) {k : ArtifactKey}
    {reported : Bool} :
    (k, reported) ∈ course.reports ↔
      k ∈ course.key :: course.result.model.keys ∧
        (course.complete.declared? k).isSome = reported := by
  rw [course.reports_eq, List.mem_map]
  constructor
  · intro hreport
    obtain ⟨l, hl, heq⟩ := hreport
    cases heq
    exact ⟨hl, rfl⟩
  · intro hboth
    obtain ⟨hk, rfl⟩ := hboth
    exact ⟨k, hk, rfl⟩

/-- The turn of the application reports that there was something to reconcile. -/
theorem isSome_declared?_key (course : Course env policy requested doc s) :
    (course.complete.declared? course.key).isSome = true := by
  obtain ⟨declared, -, hdeclared⟩ := course.exists_declared?_key
  rw [hdeclared]
  rfl

theorem reconciled_statistics_result (course : Course env policy requested doc s) :
    course.result.statistics.reconciled = course.result.statistics.collected := by
  have hreconciled : course.result.statistics.reconciled =
      (course.complete.reconcileEach (doc.launchModeOf requested) course.seeded
        (course.seeded.application.key :: course.seeded.keys)).2 := rfl
  have hcollected : course.result.statistics.collected = course.complete.collectedCount := rfl
  rw [hreconciled, Session.reconcileEach_snd, ← Course.reports, hcollected,
    Session.collectedCount_eq_countP course.nodup_keys_complete, course.keys_complete,
    course.reports_eq, List.countP_map, List.countP_append,
    List.countP_reverse, List.countP_cons, List.countP_singleton]
  rfl

theorem unresolved_statistics_result (course : Course env policy requested doc s) :
    course.result.statistics.unresolved =
      course.result.model.keys.countP fun k => (course.complete.declared? k).isNone := by
  have hunresolved : course.result.statistics.unresolved = course.complete.unresolvedCount := rfl
  have hkey : (course.complete.declared? course.key).isNone = false := by
    rw [← Option.not_isSome, course.isSome_declared?_key, Bool.not_true]
  rw [hunresolved, Session.unresolvedCount_eq_countP course.nodup_keys_complete,
    course.keys_complete, List.countP_append, List.countP_reverse, List.countP_singleton, hkey,
    if_neg Bool.false_ne_true, Nat.add_zero]

end Course

/-- The statistics of a run account for every artifact: the application and the nodes have one turn
each, they are as many as the keys with declarations and without, those that are reconciled are
those with declarations, and those without are the nodes whose turn reports that there was nothing
to reconcile. -/
theorem statistics_of_gives_assemble {result : Assembled}
    (h : Gives (doc.assemble env policy requested) s (.ok result) t) :
    ∃ course : Course env policy requested doc s, result = course.result ∧
      course.reports.map Prod.fst = result.model.artifacts.map (·.key) ∧
      result.statistics.collected + result.statistics.unresolved = 1 + result.model.nodes.length ∧
      result.statistics.reconciled = result.statistics.collected ∧
      result.statistics.unresolved =
        result.model.nodes.countP fun n => (n.key, false) ∈ course.reports := by
  obtain ⟨course, rfl⟩ := exists_course_of_gives_assemble h
  refine ⟨course, rfl, ?_, ?_, course.reconciled_statistics_result, ?_⟩
  · rw [course.reports_eq, List.map_map, ← course.key_application_result]
    exact List.map_id _
  · have hcounts := course.complete.collectedCount_add_unresolvedCount
    rw [course.keys_complete, List.length_append, List.length_reverse, List.length_singleton,
      ApplicationModel.keys, List.length_map, Nat.add_comm _ 1] at hcounts
    exact hcounts
  · rw [course.unresolved_statistics_result, ApplicationModel.keys, List.countP_map]
    apply List.countP_congr
    intro n hn
    have hkey : n.key ∈ course.key :: course.result.model.keys :=
      List.mem_cons_of_mem _ (List.mem_map_of_mem hn)
    rw [decide_eq_true_iff, course.mem_reports_iff, and_iff_right hkey, Function.comp_apply,
      Option.isSome_eq_false_iff]

/-- In a run over repeated keys and an entry with the key of the application, two artifacts are
reconciled and the turn of one node reports nothing. -/
theorem statistics_crowded :
    Gives (crowded.assemble emptySurroundings default none) () (.ok crowdedResult) () ∧
      ∃ course : Course emptySurroundings default none crowded (),
        course.reports.map Prod.fst = crowdedResult.model.artifacts.map (·.key) ∧
        crowdedResult.statistics.collected + crowdedResult.statistics.unresolved =
          1 + crowdedResult.model.nodes.length ∧
        crowdedResult.statistics.reconciled = crowdedResult.statistics.collected ∧
        crowdedResult.statistics.unresolved =
          crowdedResult.model.nodes.countP fun n => (n.key, false) ∈ course.reports := by
  obtain ⟨course, -, hcounts⟩ := statistics_of_gives_assemble gives_assemble_crowded
  exact ⟨gives_assemble_crowded, course, hcounts⟩

end BuildModel

end ArtifactGraph
