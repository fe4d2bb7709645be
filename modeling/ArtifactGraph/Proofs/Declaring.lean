import ArtifactGraph.Proofs.Extracting
import ArtifactGraph.Proofs.Runs
import Mathlib.Data.List.Forall2

/-!
# What a project declares

A project is read row by row of a policy, and the reading ends at the first path that names no
project.  Seen as a whole, the declarations that are read form one list, in the order of the table
and then of the project, and the reading is a single pass over it.

* Policies.  In a policy that `IsAccepted` no configuration has two rows, so a row says what the
  whole table says of its configuration (`scopeOf?_of_mem`).
* The pass.  `Project.written` is the list, said in terms of the table as a whole, and
  `declared_eq_mapM` that it is passed over once.
* Outcomes.  `mapM_eq_ok_iff` and `mapM_eq_error_iff` are the two ends of a pass; `StandsFor` and
  `Dangles` say what becomes of one declaration.
* What is not read.  `declared_congr`: two projects that agree on the configurations that are read
  declare the same.

`declared_of_isAccepted` puts these together.
-/

namespace ArtifactGraph

/-! ## Policies -/

namespace ScopePolicy

/-- The policies that a run can have: those with a name, and the tables that are accepted. -/
inductive IsAccepted : ScopePolicy → Prop
  | preset (preset : PolicyPreset) : IsAccepted (ofPreset preset)
  | table {rows : List ScopeRow} {policy : ScopePolicy} (h : ofRows rows = .ok policy) :
    IsAccepted policy

theorem nodup_of_rowFault?_eq_none {seen : List String} {rows : List ScopeRow}
    (h : rowFault? seen rows = none) :
    (rows.map (·.configuration)).Nodup ∧ ∀ row ∈ rows, row.configuration ∉ seen := by
  induction rows generalizing seen with
  | nil => simp
  | cons row rest ih =>
    rw [rowFault?] at h
    split at h
    · cases h
    · split at h
      · cases h
      · rename_i hnew
        obtain ⟨hnodup, hrest⟩ := ih h
        constructor
        · refine List.nodup_cons.2 ⟨fun hmem => ?_, hnodup⟩
          obtain ⟨row', hrow', heq⟩ := List.mem_map.1 hmem
          exact hrest row' hrow' (heq ▸ List.mem_cons_self)
        · refine List.forall_mem_cons.2 ⟨by simpa using hnew, fun row' hrow' hmem => ?_⟩
          exact hrest row' hrow' (List.mem_cons_of_mem _ hmem)

variable {policy : ScopePolicy}

theorem IsAccepted.nodup (h : policy.IsAccepted) :
    (policy.rows.map (·.configuration)).Nodup := by
  cases h with
  | preset preset => cases preset <;> decide
  | @table rows _ h =>
    rw [ofRows] at h
    split at h
    · cases h
    · split at h
      · cases h
      · rename_i hfault
        cases h
        exact (nodup_of_rowFault?_eq_none hfault).1

/-- Where no configuration has two rows, a row is all that the table says of its configuration. -/
theorem scopeOf?_of_mem (h : (policy.rows.map (·.configuration)).Nodup) {row : ScopeRow}
    (hrow : row ∈ policy.rows) : policy.scopeOf? row.configuration = some row.scope := by
  unfold scopeOf?
  generalize policy.rows = rows at h hrow
  induction rows with
  | nil => cases hrow
  | cons first rest ih =>
    obtain ⟨hfirst, hrest⟩ := List.nodup_cons.1 h
    rcases List.mem_cons.1 hrow with rfl | hrow
    · rw [List.find?_cons, beq_self_eq_true, Option.map_some]
    · have hne : first.configuration ≠ row.configuration := fun heq =>
        hfirst (List.mem_map.2 ⟨row, hrow, heq.symm⟩)
      rw [List.find?_cons, beq_eq_false_iff_ne.2 hne, ih hrest hrow]

/-- The scope in which the declarations of a configuration are read: none, if the table does not
mention or ignores it, or if it is for tests and these are not asked for. -/
def scopeRead? (policy : ScopePolicy) (includeTest : Bool) (configuration : String) :
    Option Scope :=
  match policy.scopeOf? configuration with
  | some (some scope) => if scope = .test ∧ includeTest = false then none else some scope
  | _ => none

theorem mappings_eq_filterMap (h : (policy.rows.map (·.configuration)).Nodup)
    (includeTest : Bool) :
    policy.mappings includeTest = policy.rows.filterMap fun row =>
      (policy.scopeRead? includeTest row.configuration).map (row.configuration, ·) := by
  refine List.filterMap_congr fun row hrow => ?_
  rw [scopeRead?, scopeOf?_of_mem h hrow]
  cases row.scope with
  | none => rfl
  | some scope => cases scope <;> cases includeTest <;> rfl

end ScopePolicy

/-! ## Passes that end at the first fault -/

section

variable {ε α β : Type}

theorem map_eq_ok_iff {x : Except ε α} {g : α → β} {b : β} :
    x.map g = .ok b ↔ ∃ a, x = .ok a ∧ b = g a := by
  cases x with
  | error e =>
    constructor
    · intro h
      cases h
    · intro h
      obtain ⟨a, ha, -⟩ := h
      cases ha
  | ok a =>
    constructor
    · intro h
      exact ⟨a, rfl, (Except.ok.inj h).symm⟩
    · intro h
      obtain ⟨_, ha, rfl⟩ := h
      cases ha
      rfl

theorem map_eq_error_iff {x : Except ε α} {g : α → β} {e : ε} :
    x.map g = .error e ↔ x = .error e := by
  cases x with
  | error e' =>
    constructor
    · intro h
      cases h
      rfl
    · intro h
      cases h
      rfl
  | ok a =>
    constructor
    · intro h
      cases h
    · intro h
      cases h

variable {f : α → Except ε β}

theorem mapM_eq_ok_iff {l : List α} {l' : List β} :
    l.mapM f = .ok l' ↔ List.Forall₂ (fun a b => f a = .ok b) l l' := by
  induction l generalizing l' with
  | nil =>
    rw [List.mapM_nil, List.forall₂_nil_left_iff]
    exact ⟨fun h => (Except.ok.inj h).symm, fun h => h ▸ rfl⟩
  | cons a rest ih =>
    simp only [List.mapM_cons, bind_eq_ok_iff, List.forall₂_cons_left_iff, ih]
    constructor
    · intro h
      obtain ⟨b, hb, more, hmore, hl'⟩ := h
      exact ⟨b, more, hb, hmore, (Except.ok.inj hl').symm⟩
    · intro h
      obtain ⟨b, more, hb, hmore, rfl⟩ := h
      exact ⟨b, hb, more, hmore, rfl⟩

/-- A pass fails with the fault of the first member that has one. -/
theorem mapM_eq_error_iff {l : List α} {e : ε} :
    l.mapM f = .error e ↔ ∃ before a after, l = before ++ a :: after ∧
      (∀ x ∈ before, ∃ b, f x = .ok b) ∧ f a = .error e := by
  induction l with
  | nil =>
    constructor
    · intro h
      cases h
    · intro h
      obtain ⟨before, a, after, hsplit, -⟩ := h
      simp at hsplit
  | cons first rest ih =>
    simp only [List.mapM_cons, bind_eq_error_iff, ih]
    constructor
    · intro h
      rcases h with hfirst | ⟨b, hb, ⟨before, a, after, rfl, hbefore, ha⟩ | ⟨_, -, hpure⟩⟩
      · exact ⟨[], first, rest, rfl, List.forall_mem_nil _, hfirst⟩
      · exact ⟨first :: before, a, after, rfl, List.forall_mem_cons.2 ⟨⟨b, hb⟩, hbefore⟩, ha⟩
      · cases hpure
    · intro h
      obtain ⟨before, a, after, hsplit, hbefore, ha⟩ := h
      rcases List.cons_eq_append_iff.1 hsplit with ⟨rfl, htail⟩ | ⟨before', rfl, hrest⟩
      · cases htail
        exact .inl ha
      · obtain ⟨⟨b, hb⟩, hbefore'⟩ := List.forall_mem_cons.1 hbefore
        exact .inr ⟨b, hb, .inl ⟨before', a, after, hrest, hbefore', ha⟩⟩

end

/-! ## The pass -/

/-- What a project says in the configurations that are read, each declaration with the scope of its
configuration: in the order of the table, and in each configuration in the order of the project. -/
def Project.written (p : Project) (policy : ScopePolicy) (includeTest : Bool) :
    List (Scope × Declaration) :=
  policy.rows.flatMap fun row =>
    match policy.scopeRead? includeTest row.configuration with
    | none => []
    | some scope => ((p.configuration? row.configuration).getD []).map (scope, ·)

namespace Build

variable {b : Build} {p : Project}

theorem declaredIn_eq_mapM (scope : Scope) (ds : List Declaration) :
    b.declaredIn p scope ds = (ds.map (scope, ·)).mapM fun x => b.declaredBy p x.1 x.2 := by
  induction ds with
  | nil => rfl
  | cons d rest ih =>
    rw [declaredIn, List.map_cons, List.mapM_cons, ← ih]
    cases b.declaredBy p scope d with
    | error e => rfl
    | ok dep => cases b.declaredIn p scope rest <;> rfl

theorem declaredUnder_eq_mapM (rows : List (String × Scope)) :
    b.declaredUnder p rows =
      (rows.flatMap fun row => ((p.configuration? row.1).getD []).map (row.2, ·)).mapM
        fun x => b.declaredBy p x.1 x.2 := by
  induction rows with
  | nil => rfl
  | cons row rest ih =>
    obtain ⟨configuration, scope⟩ := row
    rw [declaredUnder, List.flatMap_cons, List.mapM_append, ← ih, declaredIn_eq_mapM]
    cases (((p.configuration? configuration).getD []).map (scope, ·)).mapM
        fun x => b.declaredBy p x.1 x.2 with
    | error e => rfl
    | ok deps => cases b.declaredUnder p rest <;> rfl

/-- Under a policy without repeated configurations, what is written is passed over once. -/
theorem declared_eq_mapM {policy : ScopePolicy}
    (h : (policy.rows.map (·.configuration)).Nodup) (includeTest : Bool) :
    b.declared policy includeTest p =
      ((p.written policy includeTest).mapM fun x => b.declaredBy p x.1 x.2).map
        firstOccurrences := by
  -- Both lists are put together row by row of the table.
  rw [declared, declaredUnder_eq_mapM, ScopePolicy.mappings_eq_filterMap h,
    List.filterMap_eq_flatMap_toList, List.flatMap_assoc, Project.written]
  congr 2
  refine List.flatMap_congr fun row _ => ?_
  cases policy.scopeRead? includeTest row.configuration with
  | none => rfl
  | some scope => simp

/-! ## One declaration -/

/-- A declared path that names no project of the build. -/
def Dangles (b : Build) (p : Project) : Declaration → Prop
  | .external .. => False
  | .project path => ∀ q ∈ b.projects, q.path ≠ p.absolutePath path

/-- The dependency that a declaration in a scope stands for: the module it names, or the first
project of the build that has its path. -/
inductive StandsFor (b : Build) (p : Project) : Scope × Declaration → DeclaredDependency → Prop
  | external (scope : Scope) (group name : String) (version : Option String) :
    StandsFor b p (scope, .external group name version)
      { groupId := group, artifactId := name, version := version, classifier := none, type := none
        scope := some scope.toText, optional := false }
  | project (scope : Scope) {path : String} {before : List Project} {q : Project}
      {after : List Project} (hprojects : b.projects = before ++ q :: after)
      (hpath : q.path = p.absolutePath path)
      (hfirst : ∀ x ∈ before, x.path ≠ p.absolutePath path) :
    StandsFor b p (scope, .project path)
      { groupId := q.group, artifactId := q.name, version := some q.version, classifier := none
        type := none, scope := some scope.toText, optional := false }

theorem project?_eq_none_iff {path : String} :
    b.project? path = none ↔ ∀ q ∈ b.projects, q.path ≠ path := by
  rw [project?, List.find?_eq_none]
  exact forall₂_congr fun q _ => by rw [beq_iff_eq]

theorem project?_eq_some_iff {path : String} {q : Project} :
    b.project? path = some q ↔ q.path = path ∧ ∃ before after,
      b.projects = before ++ q :: after ∧ ∀ x ∈ before, x.path ≠ path := by
  rw [project?, List.find?_eq_some_iff_append, beq_iff_eq]
  simp only [Bool.not_eq_true', beq_eq_false_iff_ne]

theorem declaredBy_eq_ok_iff {x : Scope × Declaration} {d : DeclaredDependency} :
    b.declaredBy p x.1 x.2 = .ok d ↔ b.StandsFor p x d := by
  obtain ⟨scope, declaration⟩ := x
  constructor
  · intro h
    cases declaration with
    | external group name version =>
      cases h
      exact .external scope group name version
    | project path =>
      rw [declaredBy] at h
      cases htarget : b.project? (p.absolutePath path) with
      | none =>
        simp only [htarget] at h
        cases h
      | some q =>
        simp only [htarget] at h
        cases h
        obtain ⟨hpath, before, after, hprojects, hfirst⟩ := project?_eq_some_iff.1 htarget
        exact .project scope hprojects hpath hfirst
  · intro h
    cases h with
    | external => rfl
    | project _ hprojects hpath hfirst =>
      have htarget := project?_eq_some_iff.2 ⟨hpath, _, _, hprojects, hfirst⟩
      simp only [declaredBy, htarget]
      rfl

theorem declaredBy_eq_error_iff {scope : Scope} {declaration : Declaration}
    {e : UnknownProject} :
    b.declaredBy p scope declaration = .error e ↔ ∃ path, declaration = .project path ∧
      b.Dangles p declaration ∧ e = ⟨p.absolutePath path, p.path⟩ := by
  constructor
  · intro h
    cases declaration with
    | external group name version => cases h
    | project path =>
      rw [declaredBy] at h
      cases htarget : b.project? (p.absolutePath path) with
      | none =>
        simp only [htarget] at h
        cases h
        exact ⟨path, rfl, project?_eq_none_iff.1 htarget, rfl⟩
      | some q =>
        simp only [htarget] at h
        cases h
  · intro h
    obtain ⟨path, rfl, hdangles, rfl⟩ := h
    have htarget := project?_eq_none_iff.2 hdangles
    simp only [declaredBy, htarget]

/-- A declaration stands for a dependency or dangles. -/
theorem exists_declaredBy_eq_ok_iff {scope : Scope} {declaration : Declaration} :
    (∃ d, b.declaredBy p scope declaration = .ok d) ↔ ¬ b.Dangles p declaration := by
  constructor
  · intro h hdangles
    obtain ⟨d, hd⟩ := h
    cases declaration with
    | external group name version => exact hdangles
    | project path =>
      rw [declaredBy_eq_error_iff.2 ⟨path, rfl, hdangles, rfl⟩] at hd
      cases hd
  · intro hnot
    cases hdeclared : b.declaredBy p scope declaration with
    | ok d => exact ⟨d, rfl⟩
    | error e =>
      obtain ⟨path, -, hdangles, -⟩ := declaredBy_eq_error_iff.1 hdeclared
      exact absurd hdangles hnot

theorem not_dangles_of_forall₂ {l : List (Scope × Declaration)} {all : List DeclaredDependency}
    (h : List.Forall₂ (b.StandsFor p) l all) : ∀ x ∈ l, ¬ b.Dangles p x.2 := by
  have hboth : List.Forall₂ (fun x d => ¬ b.Dangles p x.2 ∧ b.StandsFor p x d) l all :=
    h.imp fun x d hd => ⟨exists_declaredBy_eq_ok_iff.1 ⟨d, declaredBy_eq_ok_iff.2 hd⟩, hd⟩
  exact ((List.forall₂_and_left _ _).1 hboth).1

end Build

/-! ## What is not read -/

/-- A project apart from what it declares. -/
def Project.bare (p : Project) : Project := { p with configurations := [] }

theorem Project.written_congr {p p' : Project} {policy : ScopePolicy} {includeTest : Bool}
    (h : ∀ configuration, (policy.scopeRead? includeTest configuration).isSome →
      p'.configuration? configuration = p.configuration? configuration) :
    p'.written policy includeTest = p.written policy includeTest := by
  refine List.flatMap_congr fun row _ => ?_
  cases hscope : policy.scopeRead? includeTest row.configuration with
  | none => rfl
  | some scope =>
    have hsame := h row.configuration (by rw [hscope]; rfl)
    simp only [hsame]

namespace Build

theorem declaredBy_project (b : Build) (p : Project) (scope : Scope) (path : String) :
    b.declaredBy p scope (.project path) =
      match (b.projects.map Project.bare).find? (·.path == p.absolutePath path) with
      | none => .error ⟨p.absolutePath path, p.path⟩
      | some q => .ok (.ofBuildScript q.group q.name (some q.version) scope.toText) := by
  have hfind : (b.projects.map Project.bare).find? (·.path == p.absolutePath path) =
      (b.project? (p.absolutePath path)).map Project.bare := List.find?_map
  rw [hfind, declaredBy]
  cases b.project? (p.absolutePath path) <;> rfl

variable {b b' : Build} {p p' : Project}

/-- A declaration stands for the same wherever the projects are the same apart from what they
declare. -/
theorem declaredBy_congr (hprojects : b'.projects.map Project.bare = b.projects.map Project.bare)
    (hpath : p'.path = p.path) (scope : Scope) (declaration : Declaration) :
    b'.declaredBy p' scope declaration = b.declaredBy p scope declaration := by
  cases declaration with
  | external group name version => rfl
  | project path =>
    have htarget : p'.absolutePath path = p.absolutePath path := by
      rw [Project.absolutePath, Project.absolutePath, hpath]
    rw [declaredBy_project, declaredBy_project, htarget, hpath, hprojects]

/-- Configurations that are not read change nothing. -/
theorem declared_congr {policy : ScopePolicy} (h : (policy.rows.map (·.configuration)).Nodup)
    {includeTest : Bool} (hprojects : b'.projects.map Project.bare = b.projects.map Project.bare)
    (hpath : p'.path = p.path)
    (hread : ∀ configuration, (policy.scopeRead? includeTest configuration).isSome →
      p'.configuration? configuration = p.configuration? configuration) :
    b'.declared policy includeTest p' = b.declared policy includeTest p := by
  rw [declared_eq_mapM h, declared_eq_mapM h, Project.written_congr hread]
  simp only [declaredBy_congr hprojects hpath]

/-! ## The whole -/

theorem declared_eq_error_iff {policy : ScopePolicy}
    (h : (policy.rows.map (·.configuration)).Nodup) {includeTest : Bool} {e : UnknownProject} :
    b.declared policy includeTest p = .error e ↔ ∃ before scope path after,
      p.written policy includeTest = before ++ (scope, .project path) :: after ∧
        (∀ x ∈ before, ¬ b.Dangles p x.2) ∧ b.Dangles p (.project path) ∧
        e = ⟨p.absolutePath path, p.path⟩ := by
  rw [declared_eq_mapM h, map_eq_error_iff, mapM_eq_error_iff]
  simp only [exists_declaredBy_eq_ok_iff, declaredBy_eq_error_iff]
  constructor
  · intro hparts
    obtain ⟨before, ⟨scope, _⟩, after, hsplit, hbefore, path, rfl, hdangles, he⟩ := hparts
    exact ⟨before, scope, path, after, hsplit, hbefore, hdangles, he⟩
  · intro hparts
    obtain ⟨before, scope, path, after, hsplit, hbefore, hdangles, he⟩ := hparts
    exact ⟨before, (scope, .project path), after, hsplit, hbefore, path, rfl, hdangles, he⟩

theorem declared_eq_ok_iff {policy : ScopePolicy}
    (h : (policy.rows.map (·.configuration)).Nodup) {includeTest : Bool}
    {l : List DeclaredDependency} :
    b.declared policy includeTest p = .ok l ↔
      ∃ all, List.Forall₂ (b.StandsFor p) (p.written policy includeTest) all ∧
        l = firstOccurrences all := by
  have hstands : b.StandsFor p = fun x d => b.declaredBy p x.1 x.2 = .ok d :=
    funext₂ fun x d => propext declaredBy_eq_ok_iff.symm
  rw [declared_eq_mapM h, hstands, map_eq_ok_iff]
  simp only [mapM_eq_ok_iff]

/-- Under a policy that a run can have, what a project declares is decided by what it has written in
the configurations that are read, in the order of the table. It fails exactly when a path there names
no project of the build, and reports the first such path. Otherwise each declaration stands for
a dependency, and of equal ones the first is kept. Configurations that are not read change
nothing, those of the other projects of the build included. -/
theorem declared_of_isAccepted {policy : ScopePolicy} (h : policy.IsAccepted) (b : Build)
    (includeTest : Bool) (p : Project) :
    ((∃ e, b.declared policy includeTest p = .error e) ↔
      ∃ x ∈ p.written policy includeTest, b.Dangles p x.2) ∧
    (∀ e, b.declared policy includeTest p = .error e ↔ ∃ before scope path after,
      p.written policy includeTest = before ++ (scope, .project path) :: after ∧
        (∀ x ∈ before, ¬ b.Dangles p x.2) ∧ b.Dangles p (.project path) ∧
        e = ⟨p.absolutePath path, p.path⟩) ∧
    (∀ l, b.declared policy includeTest p = .ok l ↔
      ∃ all, List.Forall₂ (b.StandsFor p) (p.written policy includeTest) all ∧
        l = all.eraseDups) ∧
    ∀ (b' : Build) (p' : Project),
      b'.projects.map Project.bare = b.projects.map Project.bare → p'.path = p.path →
      (∀ configuration, (policy.scopeRead? includeTest configuration).isSome →
        p'.configuration? configuration = p.configuration? configuration) →
      b'.declared policy includeTest p' = b.declared policy includeTest p := by
  refine ⟨?_, fun e => declared_eq_error_iff h.nodup, fun l => ?_,
    fun b' p' hprojects hpath hread => declared_congr h.nodup hprojects hpath hread⟩
  · constructor
    · intro hfails
      obtain ⟨e, he⟩ := hfails
      obtain ⟨before, scope, path, after, hsplit, -, hdangles, -⟩ :=
        (declared_eq_error_iff h.nodup).1 he
      exact ⟨(scope, .project path), by simp [hsplit], hdangles⟩
    · intro hdangling
      obtain ⟨x, hx, hdangles⟩ := hdangling
      cases hdeclared : b.declared policy includeTest p with
      | error e => exact ⟨e, rfl⟩
      | ok l =>
        obtain ⟨all, hall, -⟩ := (declared_eq_ok_iff h.nodup).1 hdeclared
        exact absurd hdangles (not_dangles_of_forall₂ hall x hx)
  · simp only [← firstOccurrences_eq_eraseDups]
    exact declared_eq_ok_iff h.nodup

end Build

/-! ## A table of its own -/

namespace Build

/-- A table that ignores a configuration and has its row for tests between the others. -/
def listedRows : List ScopeRow :=
  [⟨"runtimeOnly", some .runtime⟩, ⟨"notes", none⟩, ⟨"checks", some .test⟩, ⟨"api", some .compile⟩]

/-- A project that names projects in every way, some of them in vain. -/
def listedProject : Project :=
  { path := ":app", group := "g", name := "app", version := "1"
    configurations :=
      [("api", [.external "x" "a" none, .project "lib", .external "x" "a" none]),
        ("checks", [.external "x" "t" (some "1"), .project "ghost", .project ":nowhere"]),
        ("notes", [.project ":nowhere"]),
        ("other", [.project ":nowhere"]),
        ("runtimeOnly", [.project ":app:lib", .external "x" "a" none])] }

/-- Its build, with two projects of one path. -/
def listedBuild : Build :=
  { projects :=
      [listedProject, { path := ":app:lib", group := "g", name := "lib", version := "unspecified" },
        { path := ":app:lib", group := "g", name := "second", version := "2" }] }

def listedDeclarations : List DeclaredDependency :=
  [.ofBuildScript "g" "lib" (some "unspecified") "runtime", .ofBuildScript "x" "a" none "runtime",
    .ofBuildScript "x" "a" none "compile", .ofBuildScript "g" "lib" (some "unspecified") "compile"]

/-- The project without what is ignored or not mentioned. -/
def listedProjectRead : Project :=
  { listedProject with
    configurations :=
      [("api", [.external "x" "a" none, .project "lib", .external "x" "a" none]),
        ("checks", [.external "x" "t" (some "1"), .project "ghost", .project ":nowhere"]),
        ("runtimeOnly", [.project ":app:lib", .external "x" "a" none])] }

theorem configuration?_listedProjectRead {includeTest : Bool} {configuration : String}
    (h : (ScopePolicy.scopeRead? ⟨listedRows⟩ includeTest configuration).isSome) :
    listedProjectRead.configuration? configuration =
      listedProject.configuration? configuration := by
  by_cases hnotes : configuration = "notes"
  · subst hnotes
    cases h
  by_cases hother : configuration = "other"
  · subst hother
    cases h
  have hnotes' : (configuration == "notes") = false := beq_eq_false_iff_ne.2 hnotes
  have hother' : (configuration == "other") = false := beq_eq_false_iff_ne.2 hother
  simp only [Project.configuration?, NameMap.get?, listedProjectRead, listedProject,
    List.lookup_cons, hnotes', hother']

/-- Without its tests the project declares what the first project of a path and the modules are,
each once in a scope; with them the first of two paths is reported. -/
theorem declared_of_isAccepted_listed :
    ScopePolicy.ofRows listedRows = .ok ⟨listedRows⟩ ∧
    listedBuild.declared ⟨listedRows⟩ false listedProject = .ok listedDeclarations ∧
    (∃ all, List.Forall₂ (listedBuild.StandsFor listedProject)
      (listedProject.written ⟨listedRows⟩ false) all ∧ listedDeclarations = all.eraseDups) ∧
    listedBuild.declared ⟨listedRows⟩ true listedProject = .error ⟨":app:ghost", ":app"⟩ ∧
    (∃ x ∈ listedProject.written ⟨listedRows⟩ true, listedBuild.Dangles listedProject x.2) ∧
    listedBuild.declared ⟨listedRows⟩ false listedProjectRead = .ok listedDeclarations := by
  have hrows : ScopePolicy.ofRows listedRows = .ok ⟨listedRows⟩ := by decide
  have hwithout : listedBuild.declared ⟨listedRows⟩ false listedProject =
      .ok listedDeclarations := by decide
  have hwith : listedBuild.declared ⟨listedRows⟩ true listedProject =
      .error ⟨":app:ghost", ":app"⟩ := by decide
  obtain ⟨-, -, hok, hsame⟩ :=
    declared_of_isAccepted (.table hrows) listedBuild false listedProject
  obtain ⟨hfails, -⟩ := declared_of_isAccepted (.table hrows) listedBuild true listedProject
  exact ⟨hrows, hwithout, (hok _).1 hwithout, hwith, hfails.1 ⟨_, hwith⟩,
    (hsame listedBuild listedProjectRead rfl rfl
      fun _ => configuration?_listedProjectRead).trans hwithout⟩

end Build

end ArtifactGraph
