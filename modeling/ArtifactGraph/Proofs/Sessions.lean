import ArtifactGraph.Assembly
import ArtifactGraph.Proofs.Shelves
import Mathlib.Tactic.ByContra

/-!
# What a session holds

A session is filled by looking at one component after the other.  `gives_collect_cases` says all
that one look can do, and `collectEach` is a sequence of looks in which those that fail are passed
over.

* `KnownOf` is what one look at a component can tell, and `RowsOf` the declarations it stands for.
* `finding?_of_gives_collectEach`: a finding stays.
* `exists_call_of_finding?`: a finding was made by the first look for its key that did not fail.
* `nodup_declared?_iff`: what a session holds for a key are the declarations of the component that
  was looked at, each of them once for a project.  Those of a module are held as its effective
  model has them, so they are distinct exactly when the model has no two that come to the same.
-/

namespace ArtifactGraph

variable {σ : Type}

/-! ## First occurrences -/

theorem firstOccurrencesBut_eq_self {α : Type} [DecidableEq α] {seen l : List α} (hnodup : l.Nodup)
    (hseen : ∀ a ∈ l, a ∉ seen) : firstOccurrencesBut seen l = l := by
  induction l generalizing seen with
  | nil => rfl
  | cons a rest ih =>
    obtain ⟨ha, hrest⟩ := List.nodup_cons.1 hnodup
    rw [firstOccurrencesBut, if_neg (hseen a List.mem_cons_self), ih hrest]
    intro b hb hmem
    rcases List.mem_cons.1 hmem with rfl | hmem
    · exact ha hb
    · exact hseen b (List.mem_cons_of_mem a hb) hmem

/-- The distinct members of a list are the whole list exactly when none is repeated. -/
theorem firstOccurrences_eq_self_iff {α : Type} [DecidableEq α] {l : List α} :
    firstOccurrences l = l ↔ l.Nodup := by
  constructor
  · intro h
    rw [← h]
    exact nodup_firstOccurrences l
  · intro h
    exact firstOccurrencesBut_eq_self h (by simp)

/-! ## Looking at a component -/

/-- What is known of the declarations of a component that is looked at in the state `s`. Nothing is
known of a module whose POM has no effective model. -/
inductive KnownOf (env : Surroundings (StateM σ)) (c : Circumstances) :
    Component → σ → Option (List DeclaredDependency) → Prop
  | project {p : ProjectComponent} {l : List DeclaredDependency} {s : σ}
      (hdeclared : c.declaredByProject p = .ok l) : KnownOf env c (.project p) s (some l)
  | module {gav : Gav} {l : List DeclaredDependency} {s t : σ}
      (hdeclared : Gives (declaredByModule env gav).run s (.ok l) t) :
      KnownOf env c (.module gav) s (some l)
  | unresolved {gav : Gav} {fault : ModelFault} {s t : σ}
      (hfault : Gives (declaredByModule env gav).run s (.error fault) t) :
      KnownOf env c (.module gav) s none

theorem KnownOf.eq_none_iff {env : Surroundings (StateM σ)} {c : Circumstances}
    {component : Component} {s : σ} {known : Option (List DeclaredDependency)}
    (h : KnownOf env c component s known) :
    known = none ↔ ∃ gav fault t, component = .module gav ∧
      Gives (declaredByModule env gav).run s (.error fault) t := by
  constructor
  · intro heq
    subst heq
    cases h with
    | unresolved hfault => exact ⟨_, _, _, rfl, hfault⟩
  · intro hunresolved
    obtain ⟨gav, fault, t, rfl, hfault⟩ := hunresolved
    cases h with
    | module hdeclared => cases (hdeclared.unique hfault).1
    | unresolved _ => rfl

theorem knownOf_of_gives_examine {env : Surroundings (StateM σ)} {c : Circumstances}
    {component : Component} {f : Finding} {s t : σ}
    (h : Gives (examine env c component) s (.ok f) t) :
    KnownOf env c component s f.dependencies? := by
  cases component with
  | project p =>
    obtain ⟨hf, -⟩ := gives_pure_iff.1 h
    cases hdeclared : c.declaredByProject p with
    | error e =>
      rw [hdeclared] at hf
      cases hf
    | ok l =>
      rw [hdeclared] at hf
      cases hf
      exact .project hdeclared
  | module gav =>
    obtain ⟨answer, u, hanswer, h⟩ := gives_bind_iff.1 h
    cases answer with
    | error fault =>
      obtain ⟨_, _, _, h⟩ := gives_bind_iff.1 h
      cases (gives_pure_iff.1 h).1
      exact .unresolved hanswer
    | ok l =>
      cases (gives_pure_iff.1 h).1
      exact .module hanswer

/-- The declarations of a component, repeated ones included, as they are found in the state `s`: a
project has the rows that the policy selects, a module the dependencies of its effective model
that are not of the test scope. -/
inductive RowsOf (env : Surroundings (StateM σ)) (c : Circumstances) :
    Component → σ → List DeclaredDependency → Prop
  | project {p : ProjectComponent} {build : Build} {project : Project}
      {rows : List DeclaredDependency} {s : σ} (hproject : c.project p = .ok (build, project))
      (hrows : build.declaredUnder project (c.policy.mappings c.mode.isTest) = .ok rows) :
      RowsOf env c (.project p) s rows
  | module {gav : Gav} {e : EffectiveModel} {s t : σ}
      (hbuild : Gives (EffectiveModel.build env.locate env.system .minimal gav).run s (.ok e) t) :
      RowsOf env c (.module gav) s
        ((e.dependencies.filter fun d => d.scope != some Scope.test.toText).map .ofModel)

/-- What is held of the declarations of a component: those of a project once each, those of a module
as they are. -/
def Component.held : Component → List DeclaredDependency → List DeclaredDependency
  | .project _, rows => firstOccurrences rows
  | .module _, rows => rows

theorem exists_rows_of_declaredByProject {c : Circumstances} {p : ProjectComponent}
    {l : List DeclaredDependency} (h : c.declaredByProject p = .ok l) :
    ∃ build project rows, c.project p = .ok (build, project) ∧
      build.declaredUnder project (c.policy.mappings c.mode.isTest) = .ok rows ∧
      l = firstOccurrences rows := by
  unfold Circumstances.declaredByProject at h
  cases hproject : c.project p with
  | error e =>
    rw [hproject] at h
    cases h
  | ok found =>
    obtain ⟨build, project⟩ := found
    simp only [hproject, Build.declared] at h
    cases hrows : build.declaredUnder project (c.policy.mappings c.mode.isTest) with
    | error e =>
      rw [hrows] at h
      cases h
    | ok rows =>
      rw [hrows] at h
      cases h
      exact ⟨build, project, rows, rfl, hrows, rfl⟩

/-- What is known stands for the declarations of the component. -/
theorem KnownOf.exists_rowsOf {env : Surroundings (StateM σ)} {c : Circumstances}
    {component : Component} {l : List DeclaredDependency} {s : σ}
    (h : KnownOf env c component s (some l)) :
    ∃ rows, RowsOf env c component s rows ∧ l = component.held rows := by
  cases h with
  | project hdeclared =>
    obtain ⟨build, project, rows, hproject, hrows, hl⟩ :=
      exists_rows_of_declaredByProject hdeclared
    exact ⟨rows, .project hproject hrows, hl⟩
  | module hdeclared =>
    obtain ⟨e, u, hbuild, hreturn⟩ := gives_ok_bind_iff.1 hdeclared
    cases (gives_pure_iff.1 hreturn).1
    exact ⟨_, .module hbuild, rfl⟩

namespace Session

/-! ## Findings by key -/

theorem finding?_cons_self (session : Session) (key : ArtifactKey) (f : Finding) :
    finding? ((key, f) :: session) key = some f := by
  rw [finding?, List.lookup_cons, beq_self_eq_true]

theorem finding?_cons_of_ne {session : Session} {key other : ArtifactKey} {f : Finding}
    (h : other ≠ key) : finding? ((key, f) :: session) other = session.finding? other := by
  rw [finding?, List.lookup_cons, beq_eq_false_iff_ne.2 h]
  rfl

theorem isCollected_eq_false_iff {session : Session} {key : ArtifactKey} :
    session.isCollected key = false ↔ session.finding? key = none := by
  rw [isCollected, Option.isSome_eq_false_iff, Option.isNone_iff_eq_none]

/-- The finding of a new key hides no other one. -/
theorem finding?_cons_of_isCollected_eq_false {session : Session} {key k : ArtifactKey}
    {f g : Finding} (hnew : session.isCollected key = false) (hg : session.finding? k = some g) :
    finding? ((key, f) :: session) k = some g := by
  have hne : k ≠ key := by
    intro heq
    rw [← heq, isCollected_eq_false_iff, hg] at hnew
    cases hnew
  rw [finding?_cons_of_ne hne, hg]

/-! ## Looks -/

/-- A key that was looked at is not looked at again. Another look makes a finding, or it fails and
leaves nothing behind. -/
theorem gives_collect_cases {env : Surroundings (StateM σ)} {c : Circumstances}
    {component : Component} {key : ArtifactKey} {session : Session} {r : Except Failure Session}
    {s t : σ} (h : Gives (session.collect env c component key) s r t) :
    (session.isCollected key = true ∧ r = .ok session ∧ t = s) ∨
      session.isCollected key = false ∧
        ((∃ e, Gives (examine env c component) s (.error e) t ∧ r = .error e) ∨
          ∃ f, Gives (examine env c component) s (.ok f) t ∧ r = .ok ((key, f) :: session)) := by
  unfold collect at h
  split at h
  · rename_i hcollected
    exact Or.inl ⟨hcollected, gives_pure_iff.1 h⟩
  · rename_i hcollected
    refine Or.inr ⟨by simpa using hcollected, ?_⟩
    obtain ⟨answer, u, hanswer, h⟩ := gives_bind_iff.1 h
    cases answer with
    | error e =>
      obtain ⟨hr, rfl⟩ := gives_pure_iff.1 h
      exact Or.inl ⟨e, hanswer, hr⟩
    | ok f =>
      obtain ⟨hr, rfl⟩ := gives_pure_iff.1 h
      exact Or.inr ⟨f, hanswer, hr⟩

section

variable {env : Surroundings (StateM σ)} {c : Circumstances} {component : Component}
  {key : ArtifactKey} {session next : Session} {s t : σ}

theorem finding?_of_gives_collect_of_ne
    (h : Gives (session.collect env c component key) s (.ok next) t) {other : ArtifactKey}
    (hne : other ≠ key) : next.finding? other = session.finding? other := by
  rcases gives_collect_cases h with ⟨-, hnext, -⟩ | ⟨-, ⟨e, -, hnext⟩ | ⟨f, -, hnext⟩⟩
  · cases hnext
    rfl
  · cases hnext
  · cases hnext
    exact finding?_cons_of_ne hne

/-- A finding stays after a look. -/
theorem finding?_of_gives_collect
    (h : Gives (session.collect env c component key) s (.ok next) t) {k : ArtifactKey}
    {f : Finding} (hf : session.finding? k = some f) : next.finding? k = some f := by
  rcases gives_collect_cases h with ⟨-, hnext, -⟩ | ⟨hnew, ⟨e, -, hnext⟩ | ⟨g, -, hnext⟩⟩
  · cases hnext
    exact hf
  · cases hnext
  · cases hnext
    exact finding?_cons_of_isCollected_eq_false hnew hf

/-- The look for a new key finds what its component says. -/
theorem exists_examine_of_gives_collect
    (h : Gives (session.collect env c component key) s (.ok next) t)
    (hnew : session.finding? key = none) :
    ∃ f, Gives (examine env c component) s (.ok f) t ∧ next.finding? key = some f := by
  rcases gives_collect_cases h with ⟨hcollected, -, -⟩ | ⟨-, ⟨e, -, hnext⟩ | ⟨f, hf, hnext⟩⟩
  · rw [isCollected_eq_false_iff.2 hnew] at hcollected
    cases hcollected
  · cases hnext
  · cases hnext
    exact ⟨f, hf, finding?_cons_self session key f⟩

end

/-! ## Sequences of looks -/

/-- Looks at components one after the other, and goes on after one that fails. -/
def collectEach {m : Type → Type} [Monad m] (env : Surroundings m) (c : Circumstances) :
    List (Component × ArtifactKey) → Session → m Session
  | [], session => return session
  | (component, key) :: rest, session => do
    match ← session.collect env c component key with
    | .error _ => collectEach env c rest session
    | .ok session' => collectEach env c rest session'

/-- One look and then the others: the look leaves the session as it is, or it adds the finding of a
key that had none. -/
theorem gives_collectEach_cons_cases {env : Surroundings (StateM σ)} {c : Circumstances}
    {component : Component} {key : ArtifactKey} {rest : List (Component × ArtifactKey)}
    {session final : Session} {s t : σ}
    (h : Gives (collectEach env c ((component, key) :: rest) session) s final t) :
    ∃ next u, Gives (collectEach env c rest next) u final t ∧
      (∀ calls later v, Gives (collectEach env c calls next) u later v →
        Gives (collectEach env c ((component, key) :: calls) session) s later v) ∧
      (next = session ∨ session.isCollected key = false ∧
        ∃ f, Gives (examine env c component) s (.ok f) u ∧ next = (key, f) :: session) := by
  obtain ⟨r, u, hr, hrest⟩ := gives_bind_iff.1 h
  rcases gives_collect_cases hr with
    ⟨-, rfl, rfl⟩ | ⟨hnew, ⟨e, -, rfl⟩ | ⟨f, hexamine, rfl⟩⟩
  · exact ⟨session, _, hrest, fun _ _ _ hcalls => gives_bind_iff.2 ⟨_, _, hr, hcalls⟩, Or.inl rfl⟩
  · exact ⟨session, u, hrest, fun _ _ _ hcalls => gives_bind_iff.2 ⟨_, _, hr, hcalls⟩, Or.inl rfl⟩
  · exact ⟨(key, f) :: session, u, hrest, fun _ _ _ hcalls => gives_bind_iff.2 ⟨_, _, hr, hcalls⟩,
      Or.inr ⟨hnew, f, hexamine, rfl⟩⟩

/-- A finding stays, whatever is looked at later. -/
theorem finding?_of_gives_collectEach {env : Surroundings (StateM σ)} {c : Circumstances}
    {calls : List (Component × ArtifactKey)} {session final : Session} {key : ArtifactKey}
    {f : Finding} {s t : σ} (h : Gives (collectEach env c calls session) s final t)
    (hf : session.finding? key = some f) : final.finding? key = some f := by
  induction calls generalizing session s with
  | nil =>
    obtain ⟨rfl, -⟩ := gives_pure_iff.1 h
    exact hf
  | cons call rest ih =>
    obtain ⟨next, u, hrest, -, rfl | ⟨hnew, g, -, rfl⟩⟩ := gives_collectEach_cons_cases h
    · exact ih hrest hf
    · exact ih hrest (finding?_cons_of_isCollected_eq_false hnew hf)

/-- A finding that was not there before was made by the first look for its key that did not fail. -/
theorem exists_call_of_finding? {env : Surroundings (StateM σ)} {c : Circumstances}
    {calls : List (Component × ArtifactKey)} {session final : Session} {key : ArtifactKey}
    {f : Finding} {s t : σ} (h : Gives (collectEach env c calls session) s final t)
    (hnew : session.finding? key = none) (hf : final.finding? key = some f) :
    ∃ before component after earlier u v, calls = before ++ (component, key) :: after ∧
      Gives (collectEach env c before session) s earlier u ∧ earlier.finding? key = none ∧
      Gives (examine env c component) u (.ok f) v := by
  induction calls generalizing session s with
  | nil =>
    obtain ⟨rfl, -⟩ := gives_pure_iff.1 h
    rw [hnew] at hf
    cases hf
  | cons call rest ih =>
    obtain ⟨component, key'⟩ := call
    obtain ⟨next, u, hrest, hfront, hnext⟩ := gives_collectEach_cons_cases h
    by_cases hmade : next.finding? key = none
    · obtain ⟨before, component', after, earlier, v, w, rfl, hbefore, hearlier, hexamine⟩ :=
        ih hrest hmade
      exact ⟨(component, key') :: before, component', after, earlier, v, w, rfl,
        hfront _ _ _ hbefore, hearlier, hexamine⟩
    · -- This look made the finding, and it stayed.
      obtain rfl | ⟨-, g, hexamine, rfl⟩ := hnext
      · exact absurd hnew hmade
      · have hkey : key = key' := by
          by_contra hne
          rw [finding?_cons_of_ne hne] at hmade
          exact hmade hnew
        subst hkey
        rw [finding?_of_gives_collectEach hrest (finding?_cons_self session key g)] at hf
        cases hf
        exact ⟨[], component, rest, session, s, u, rfl, gives_pure_iff.2 ⟨rfl, rfl⟩, hnew,
          hexamine⟩

/-! ## The lists of a session -/

/-- The list that a session holds for a key after any sequence of looks stands for the declarations
of the component of the first look that did not fail. It has no repetition, and is what is left of
them without repetitions, exactly when the component is a project or the declarations of the
module are distinct as they are. -/
theorem nodup_declared?_iff {env : Surroundings (StateM σ)} {c : Circumstances}
    {calls : List (Component × ArtifactKey)} {final : Session} {key : ArtifactKey}
    {l : List DeclaredDependency} {s t : σ} (h : Gives (collectEach env c calls []) s final t)
    (hl : final.declared? key = some l) :
    ∃ before component after earlier u rows, calls = before ++ (component, key) :: after ∧
      Gives (collectEach env c before []) s earlier u ∧ earlier.isCollected key = false ∧
      RowsOf env c component u rows ∧ l = component.held rows ∧
      ((l.Nodup ∧ l = firstOccurrences rows) ↔
        (∃ p, component = .project p) ∨ rows.Nodup) := by
  obtain ⟨f, hf, hdeclared⟩ := Option.bind_eq_some_iff.1 hl
  obtain ⟨before, component, after, earlier, u, v, hcalls, hbefore, hearlier, hexamine⟩ :=
    exists_call_of_finding? h rfl hf
  cases f with
  | unresolved => cases hdeclared
  | declared l' =>
    cases hdeclared
    obtain ⟨rows, hrows, hheld⟩ := (knownOf_of_gives_examine hexamine).exists_rowsOf
    refine ⟨before, component, after, earlier, u, rows, hcalls, hbefore,
      isCollected_eq_false_iff.2 hearlier, hrows, hheld, ?_⟩
    rw [hheld]
    cases component with
    | project p =>
      exact ⟨fun _ => Or.inl ⟨p, rfl⟩, fun _ => ⟨nodup_firstOccurrences rows, rfl⟩⟩
    | module gav =>
      constructor
      · intro hboth
        obtain ⟨hnodup, -⟩ := hboth
        exact Or.inr hnodup
      · intro hdistinct
        rcases hdistinct with ⟨p, hp⟩ | hnodup
        · cases hp
        · exact ⟨hnodup, (firstOccurrences_eq_self_iff.2 hnodup).symm⟩

/-! ## A module that repeats itself -/

def repeatingPieces : List String :=
  ["<project>", "<groupId>g</groupId>", "<artifactId>m</artifactId>",
    "<version>1</version>", "<dependencies>",
    "<dependency>", "<groupId>x</groupId>", "<artifactId>a</artifactId>", "</dependency>",
    "<dependency>", "<groupId>x</groupId>", "<artifactId>a</artifactId>", "</dependency>",
    "</dependencies>", "</project>"]

def repeatingPom : Pom :=
  { groupId := some "g", artifactId := some "m", version := some "1"
    dependencies := some [{ groupId := some "x", artifactId := some "a" },
      { groupId := some "x", artifactId := some "a" }] }

theorem read?_repeatingPieces : Pom.read? (Text.ofPieces repeatingPieces) = some repeatingPom := by
  rw [Pom.read?, Xml.readRoot?, Text.toList_ofPieces]
  decide +kernel

/-- A POM that declares one dependency twice. -/
def repeatingModule : Volume :=
  { gav := ⟨"g", "m", "1"⟩, pieces := repeatingPieces, pom := repeatingPom
    read_eq := read?_repeatingPieces }

/-- Surroundings in which that POM is found and nothing is told. -/
def repeatingSurroundings : Surroundings (StateM Unit) :=
  { locate := (Shelf.ofVolumes "shelf" [repeatingModule]).locator, system := [],
    tell := fun _ => pure () }

/-- A workspace without projects. -/
def emptyCircumstances : Circumstances :=
  { workspace := { root := {} }, policy := default, mode := .normal }

/-- What the POM declares. -/
def repeatedDeclaration : DeclaredDependency :=
  { groupId := "x", artifactId := "a", classifier := some "", type := some "jar",
    scope := some "compile" }

/-- The session that has looked at the POM. -/
def repeatingSession : Session :=
  [(⟨"g", "m", "", "jar"⟩, .declared [repeatedDeclaration, repeatedDeclaration])]

theorem gives_collectEach_repeatingModule :
    Gives (collectEach repeatingSurroundings emptyCircumstances
      [(.module ⟨"g", "m", "1"⟩, ⟨"g", "m", "", "jar"⟩)] []) () repeatingSession () := by
  simp only [collectEach, collect, examine, declaredByModule, EffectiveModel.build,
    repeatingSurroundings, Pom.fetch_locator]
  exact gives_of_eq (by decide +kernel)

theorem declared?_repeatingSession :
    repeatingSession.declared? ⟨"g", "m", "", "jar"⟩ =
      some [repeatedDeclaration, repeatedDeclaration] := rfl

theorem nodup_declared?_repeatingModule :
    ∃ l, Gives (collectEach repeatingSurroundings emptyCircumstances
        [(.module ⟨"g", "m", "1"⟩, ⟨"g", "m", "", "jar"⟩)] []) () repeatingSession () ∧
      repeatingSession.declared? ⟨"g", "m", "", "jar"⟩ = some l ∧
      ∃ component u rows, RowsOf repeatingSurroundings emptyCircumstances component u rows ∧
        l = component.held rows ∧
        ((l.Nodup ∧ l = firstOccurrences rows) ↔
          (∃ p, component = .project p) ∨ rows.Nodup) := by
  refine ⟨_, gives_collectEach_repeatingModule, declared?_repeatingSession, ?_⟩
  obtain ⟨before, component, after, earlier, u, rows, -, -, -, hrows, hheld, hiff⟩ :=
    nodup_declared?_iff gives_collectEach_repeatingModule declared?_repeatingSession
  exact ⟨component, u, rows, hrows, hheld, hiff⟩

/-- A session that looks at this module holds a list with a repetition. -/
theorem exists_declared?_not_nodup :
    ∃ l, Gives (collectEach repeatingSurroundings emptyCircumstances
        [(.module ⟨"g", "m", "1"⟩, ⟨"g", "m", "", "jar"⟩)] []) () repeatingSession () ∧
      repeatingSession.declared? ⟨"g", "m", "", "jar"⟩ = some l ∧ ¬ l.Nodup :=
  ⟨_, gives_collectEach_repeatingModule, declared?_repeatingSession, by decide⟩

end Session

end ArtifactGraph
