import ArtifactGraph.Collection
import ArtifactGraph.Proofs.Declaring
import Mathlib.Logic.Relation

/-!
# Components in their own build

A component names a build by its path and a project by its path in this build.  Both paths repeat:
every build has a root project, and an included build can have the path of the root build.

* What a component names.  `Project.IsNamedIn` is the relation of a project, its build and the
  component, and `Build.Owns` says that a build has such a project.
* What counts.  The root build comes first (`exists_resolve_of_owns`), and else the first included
  build of the path is the only one that is looked into (`resolve_eq_none_iff`).
* What does not count.  `ChangesElsewhere` is a change of the workspace that leaves alone what a
  component names; `AgreeOn` is what such a change keeps, and it decides the outcome
  (`AgreeOn.resolve_eq`).
-/

namespace ArtifactGraph

/-! ## What a component names -/

/-- Whether a project is one of a build's own, where both have the paths of a component. -/
structure Project.IsNamedIn (q : Project) (b : Build) (p : ProjectComponent) : Prop where
  build : b.path = p.buildPath
  own : q ∈ b.projects
  project : q.path = p.projectPath

/-- Whether a build has the path of a component and a project of the path in it. -/
def Build.Owns (b : Build) (p : ProjectComponent) : Prop := ∃ q, Project.IsNamedIn q b p

theorem Build.not_owns_of_path_ne {b : Build} {p : ProjectComponent} (h : b.path ≠ p.buildPath) :
    ¬ b.Owns p :=
  fun ⟨_, hq⟩ => h hq.build

theorem Build.isNamedIn_of_project? {b : Build} {p : ProjectComponent} {q : Project}
    (hbuild : b.path = p.buildPath) (h : b.project? p.projectPath = some q) :
    Project.IsNamedIn q b p :=
  ⟨hbuild, List.mem_of_find?_eq_some h, by simpa using List.find?_some h⟩

/-- A build of the right path has the project unless it does not own the component. -/
theorem Build.project?_eq_none_iff_not_owns {b : Build} {p : ProjectComponent}
    (hbuild : b.path = p.buildPath) : b.project? p.projectPath = none ↔ ¬ b.Owns p := by
  rw [Build.project?_eq_none_iff]
  constructor
  · rintro h ⟨q, hq⟩
    exact h q hq.own hq.project
  · intro h q hq hpath
    exact h ⟨q, hbuild, hq, hpath⟩

namespace Workspace

/-- Whether a build is the first included one of a path. -/
def IsFirstIncluded (w : Workspace) (path : String) (b : Build) : Prop :=
  ∃ before after, w.included = before ++ b :: after ∧ b.path = path ∧ ∀ a ∈ before, a.path ≠ path

theorem IsFirstIncluded.path_eq {w : Workspace} {path : String} {b : Build}
    (h : w.IsFirstIncluded path b) : b.path = path := by
  obtain ⟨_, _, _, hpath, _⟩ := h
  exact hpath

theorem included?_eq_some_iff {w : Workspace} {path : String} {b : Build} :
    w.included? path = some b ↔ w.IsFirstIncluded path b := by
  rw [included?, List.find?_eq_some_iff_append]
  constructor
  · rintro ⟨hpath, before, after, hsplit, hbefore⟩
    exact ⟨before, after, hsplit, by simpa using hpath, fun a ha => by simpa using hbefore a ha⟩
  · rintro ⟨before, after, hsplit, hpath, hbefore⟩
    exact ⟨by simpa using hpath, before, after, hsplit, fun a ha => by simpa using hbefore a ha⟩

/-! ## What counts -/

variable {w w' : Workspace} {p : ProjectComponent}

theorem inRoot_eq_none_iff :
    (if p.buildPath == w.root.path then w.root.project? p.projectPath else none) = none ↔
      ¬ w.root.Owns p := by
  by_cases h : p.buildPath = w.root.path
  · rw [if_pos (by simpa using h), Build.project?_eq_none_iff_not_owns h.symm]
  · rw [if_neg (by simpa using h)]
    exact iff_of_true rfl (Build.not_owns_of_path_ne (Ne.symm h))

/-- Without a root build that owns the component, the first included build of its path is asked. -/
theorem resolve_of_not_owns (h : ¬ w.root.Owns p) :
    w.resolve p =
      (w.included? p.buildPath).bind fun b => (b.project? p.projectPath).map (b, ·) := by
  unfold resolve
  simp only [inRoot_eq_none_iff.2 h]
  cases w.included? p.buildPath <;> rfl

/-- A root build that owns the component is preferred. -/
theorem exists_resolve_of_owns (h : w.root.Owns p) :
    ∃ q, w.resolve p = some (w.root, q) ∧ q.IsNamedIn w.root p := by
  have ⟨_, hnamed⟩ := h
  have hsome : w.root.project? p.projectPath ≠ none :=
    mt (Build.project?_eq_none_iff_not_owns hnamed.build).1 (not_not_intro h)
  obtain ⟨q, hq⟩ := Option.ne_none_iff_exists'.1 hsome
  exact ⟨q, by simp [resolve, hnamed.build, hq], Build.isNamedIn_of_project? hnamed.build hq⟩

theorem isNamedIn_of_resolve {b : Build} {q : Project} (h : w.resolve p = some (b, q)) :
    (b = w.root ∨ w.IsFirstIncluded p.buildPath b) ∧ q.IsNamedIn b p := by
  by_cases hroot : w.root.Owns p
  · obtain ⟨q', hq', hnamed⟩ := exists_resolve_of_owns hroot
    cases hq'.symm.trans h
    exact ⟨.inl rfl, hnamed⟩
  · rw [resolve_of_not_owns hroot] at h
    obtain ⟨a, ha, hproject⟩ := Option.bind_eq_some_iff.1 h
    obtain ⟨q', hq', heq⟩ := Option.map_eq_some_iff.1 hproject
    cases heq
    have hfirst := included?_eq_some_iff.1 ha
    exact ⟨.inr hfirst, Build.isNamedIn_of_project? hfirst.path_eq hq'⟩

/-- Nothing is found if neither the root build nor the first included build of the path owns the
component; further builds of the path are not asked. -/
theorem resolve_eq_none_iff :
    w.resolve p = none ↔
      ¬ w.root.Owns p ∧ ∀ b, w.IsFirstIncluded p.buildPath b → ¬ b.Owns p := by
  by_cases hroot : w.root.Owns p
  · obtain ⟨q, hq, _⟩ := exists_resolve_of_owns hroot
    simp [hq, hroot]
  · rw [resolve_of_not_owns hroot, Option.bind_eq_none_iff]
    refine ⟨fun h => ⟨hroot, fun b hb => ?_⟩, fun h b hb => ?_⟩
    · rw [← Build.project?_eq_none_iff_not_owns hb.path_eq]
      exact Option.map_eq_none_iff.1 (h b (included?_eq_some_iff.2 hb))
    · have hfirst := included?_eq_some_iff.1 hb
      rw [Option.map_eq_none_iff, Build.project?_eq_none_iff_not_owns hfirst.path_eq]
      exact h.2 b hfirst

/-! ## What does not count -/

/-- A change of a workspace that leaves alone what a component names. -/
inductive ChangesElsewhere (p : ProjectComponent) : Workspace → Workspace → Prop
  /-- Another root build, where neither owns the component.  A build of another path owns nothing
  that the component names. -/
  | root {root root' : Build} {included : List Build} (h : ¬ root.Owns p) (h' : ¬ root'.Owns p) :
      ChangesElsewhere p ⟨root, included⟩ ⟨root', included⟩
  | add {root b : Build} {before after : List Build} (h : b.path ≠ p.buildPath) :
      ChangesElsewhere p ⟨root, before ++ after⟩ ⟨root, before ++ b :: after⟩
  | remove {root b : Build} {before after : List Build} (h : b.path ≠ p.buildPath) :
      ChangesElsewhere p ⟨root, before ++ b :: after⟩ ⟨root, before ++ after⟩
  | edit {root b b' : Build} {before after : List Build} (h : b.path ≠ p.buildPath)
      (h' : b'.path ≠ p.buildPath) :
      ChangesElsewhere p ⟨root, before ++ b :: after⟩ ⟨root, before ++ b' :: after⟩
  /-- Two included builds change places, not both of which have the path. -/
  | swap {root a b : Build} {before after : List Build}
      (h : a.path ≠ p.buildPath ∨ b.path ≠ p.buildPath) :
      ChangesElsewhere p ⟨root, before ++ a :: b :: after⟩ ⟨root, before ++ b :: a :: after⟩

/-- The included builds of the path that a component names, in their order. -/
def includedOf (p : ProjectComponent) (w : Workspace) : List Build :=
  w.included.filter (·.path == p.buildPath)

/-- What two workspaces have to share for a component to have the same outcome in both. -/
structure AgreeOn (p : ProjectComponent) (w w' : Workspace) : Prop where
  included : w.includedOf p = w'.includedOf p
  root : w.root = w'.root ∨ ¬ w.root.Owns p ∧ ¬ w'.root.Owns p

theorem AgreeOn.refl (p : ProjectComponent) (w : Workspace) : AgreeOn p w w := ⟨rfl, .inl rfl⟩

theorem AgreeOn.trans {w'' : Workspace} (h : AgreeOn p w w') (h' : AgreeOn p w' w'') :
    AgreeOn p w w'' := by
  refine ⟨h.included.trans h'.included, ?_⟩
  rcases h.root with heq | ⟨hw, hw'⟩
  · rw [heq]
    exact h'.root
  · rcases h'.root with heq' | ⟨_, hw''⟩
    · exact .inr ⟨hw, heq' ▸ hw'⟩
    · exact .inr ⟨hw, hw''⟩

theorem included?_eq_head? (w : Workspace) (p : ProjectComponent) :
    w.included? p.buildPath = (w.includedOf p).head? :=
  List.head?_filter.symm

theorem AgreeOn.resolve_eq (h : AgreeOn p w w') : w.resolve p = w'.resolve p := by
  have hincluded : w.included? p.buildPath = w'.included? p.buildPath := by
    rw [included?_eq_head?, included?_eq_head?, h.included]
  rcases h.root with hroot | ⟨hw, hw'⟩
  · unfold resolve
    rw [hroot, hincluded]
  · rw [resolve_of_not_owns hw, resolve_of_not_owns hw', hincluded]

theorem ChangesElsewhere.agreeOn (h : ChangesElsewhere p w w') : AgreeOn p w w' := by
  cases h with
  | root h h' => exact ⟨rfl, .inr ⟨h, h'⟩⟩
  | add h => exact ⟨by simp [includedOf, h], .inl rfl⟩
  | remove h => exact ⟨by simp [includedOf, h], .inl rfl⟩
  | edit h h' => exact ⟨by simp [includedOf, h, h'], .inl rfl⟩
  | swap h =>
    refine ⟨?_, .inl rfl⟩
    rcases h with h | h <;> simp [includedOf, List.filter_cons, h]

theorem agreeOn_of_changes (h : Relation.ReflTransGen (ChangesElsewhere p) w w') :
    AgreeOn p w w' := by
  induction h with
  | refl => exact AgreeOn.refl p w
  | tail _ hlast ih => exact ih.trans hlast.agreeOn

end Workspace

/-! ## The outcome -/

namespace Circumstances

theorem project_eq_ok_iff {c : Circumstances} {p : ProjectComponent} {found : Build × Project} :
    c.project p = .ok found ↔ c.workspace.resolve p = some found := by
  unfold project
  cases c.workspace.resolve p <;> simp

theorem project_eq_error_iff {c : Circumstances} {p : ProjectComponent} {e : Failure} :
    c.project p = .error e ↔
      e = .projectComponentUnresolved p.buildPath p.projectPath ∧ c.workspace.resolve p = none := by
  unfold project
  cases c.workspace.resolve p <;> simp [eq_comm]

/-- A component stands for a project of its own build: that of the root build if it owns the
component, and else that of the first included build of its path.  If neither owns it, this is said
of the component; and no change elsewhere in the workspace matters. -/
theorem project_in_own_build (c : Circumstances) (p : ProjectComponent) :
    (∀ b q, c.project p = .ok (b, q) →
        (b = c.workspace.root ∨ c.workspace.IsFirstIncluded p.buildPath b) ∧ q.IsNamedIn b p) ∧
      (c.workspace.root.Owns p → ∃ q, c.project p = .ok (c.workspace.root, q)) ∧
      (∀ e, c.project p = .error e ↔
        e = .projectComponentUnresolved p.buildPath p.projectPath ∧ ¬ c.workspace.root.Owns p ∧
          ∀ b, c.workspace.IsFirstIncluded p.buildPath b → ¬ b.Owns p) ∧
      ∀ w', Relation.ReflTransGen (Workspace.ChangesElsewhere p) c.workspace w' →
        Circumstances.project { c with workspace := w' } p = c.project p := by
  refine ⟨fun b q h => ?_, fun h => ?_, fun e => ?_, fun w' h => ?_⟩
  · exact Workspace.isNamedIn_of_resolve (project_eq_ok_iff.1 h)
  · obtain ⟨q, hq, _⟩ := Workspace.exists_resolve_of_owns h
    exact ⟨q, project_eq_ok_iff.2 hq⟩
  · rw [project_eq_error_iff, Workspace.resolve_eq_none_iff]
  · unfold project
    rw [(Workspace.agreeOn_of_changes h).resolve_eq]

/-- A project of a composite build. -/
def compositeProject (path name : String) : Project :=
  { path, group := "com.x", name, version := "1" }

/-- An included build, with a root project as every build has one. -/
def pluginsBuild : Build :=
  { path := ":plugins"
    projects := [compositeProject ":" "plugins", compositeProject ":gen" "gen"] }

/-- A root build that includes two builds of one path. -/
def composite : Circumstances :=
  { workspace :=
      { root := { projects := [compositeProject ":" "app"] }
        included :=
          [pluginsBuild, { path := ":plugins", projects := [compositeProject ":late" "late"] }] }
    policy := default
    mode := .normal }

/-- The same with another root build and with a build included in front. -/
def recomposed : Workspace :=
  { composite.workspace with
    root := { projects := [compositeProject ":" "other", compositeProject ":gen" "gen"] }
    included := { path := ":tools", projects := [compositeProject ":" "tools"] } ::
      composite.workspace.included }

theorem project_in_own_build_composite :
    composite.project ⟨":plugins", ":"⟩ = .ok (pluginsBuild, compositeProject ":" "plugins") ∧
      (compositeProject ":" "plugins").IsNamedIn pluginsBuild ⟨":plugins", ":"⟩ ∧
      composite.workspace.IsFirstIncluded ":plugins" pluginsBuild ∧
      composite.project ⟨":", ":"⟩ =
        .ok (composite.workspace.root, compositeProject ":" "app") ∧
      composite.project ⟨":plugins", ":late"⟩ =
        .error (.projectComponentUnresolved ":plugins" ":late") ∧
      (∀ b, composite.workspace.IsFirstIncluded ":plugins" b → ¬ b.Owns ⟨":plugins", ":late"⟩) ∧
      Relation.ReflTransGen (Workspace.ChangesElsewhere ⟨":plugins", ":"⟩) composite.workspace
        recomposed ∧
      Circumstances.project { composite with workspace := recomposed } ⟨":plugins", ":"⟩ =
        composite.project ⟨":plugins", ":"⟩ := by
  have hfound : composite.project ⟨":plugins", ":"⟩ =
      .ok (pluginsBuild, compositeProject ":" "plugins") := rfl
  have hlate : composite.project ⟨":plugins", ":late"⟩ =
      .error (.projectComponentUnresolved ":plugins" ":late") := rfl
  have hroots : Workspace.ChangesElsewhere ⟨":plugins", ":"⟩ composite.workspace
      { composite.workspace with root := recomposed.root } :=
    .root (Build.not_owns_of_path_ne (by decide)) (Build.not_owns_of_path_ne (by decide))
  have hadded : Workspace.ChangesElsewhere ⟨":plugins", ":"⟩
      { composite.workspace with root := recomposed.root } recomposed :=
    @Workspace.ChangesElsewhere.add _ _ _ [] _ (show (":tools" : String) ≠ ":plugins" by decide)
  have hchanges := (Relation.ReflTransGen.single hroots).tail hadded
  obtain ⟨hown, _, _, helsewhere⟩ := project_in_own_build composite ⟨":plugins", ":"⟩
  obtain ⟨hfirst, hnamed⟩ := hown _ _ hfound
  obtain ⟨_, _, hfails, _⟩ := project_in_own_build composite ⟨":plugins", ":late"⟩
  exact ⟨hfound, hnamed, hfirst.resolve_left (by decide), rfl, hlate, ((hfails _).1 hlate).2.2,
    hchanges, helsewhere recomposed hchanges⟩

end Circumstances

end ArtifactGraph
