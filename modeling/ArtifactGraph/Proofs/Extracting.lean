import ArtifactGraph.Extraction
import ArtifactGraph.Reconciliation

/-!
# Extraction row by row

A policy gives each configuration one scope, and a declaration has the scope of its row.  So to
leave out rows of some scopes is to leave out the declarations of these scopes, and nothing else
changes: a project that has been extracted with all rows can be extracted with fewer.

* `filter_firstOccurrences`: equal declarations are left out together.
* `scope_of_mem_declaredIn` and `declaredUnder_filter`: rows and declarations of a scope.
* `mappings_filter_test` and `mappings_filter_not_test`: which rows are those of the test scope.
* `declared_without_tests`: it makes no difference whether tests are left out when a project is
  extracted or when its declarations are reconciled.
-/

namespace ArtifactGraph

/-! ## First occurrences -/

theorem filter_firstOccurrencesBut {α : Type} [DecidableEq α] {P : α → Bool} {seen seen' l : List α}
    (hseen : ∀ a, P a = true → (a ∈ seen ↔ a ∈ seen')) :
    (firstOccurrencesBut seen l).filter P = firstOccurrencesBut seen' (l.filter P) := by
  induction l generalizing seen seen' with
  | nil => rfl
  | cons a rest ih =>
    rw [firstOccurrencesBut]
    by_cases ha : P a = true
    · rw [List.filter_cons_of_pos ha, firstOccurrencesBut]
      by_cases hmem : a ∈ seen
      · rw [if_pos hmem, if_pos ((hseen a ha).1 hmem), ih hseen]
      · rw [if_neg hmem, if_neg (mt (hseen a ha).2 hmem), List.filter_cons_of_pos ha, ih]
        intro b hb
        rw [List.mem_cons, List.mem_cons, hseen b hb]
    · -- Whether this one is kept makes no difference to those that count.
      rw [List.filter_cons_of_neg ha]
      split
      · exact ih hseen
      · rw [List.filter_cons_of_neg ha, ih]
        intro b hb
        have hne : b ≠ a := fun heq => ha (heq ▸ hb)
        rw [List.mem_cons, ← hseen b hb]
        exact ⟨fun h => h.resolve_left hne, Or.inr⟩

/-- Members that are left out do not change the order of the others. -/
theorem filter_firstOccurrences {α : Type} [DecidableEq α] (P : α → Bool) (l : List α) :
    (firstOccurrences l).filter P = firstOccurrences (l.filter P) :=
  filter_firstOccurrencesBut fun _ _ => Iff.rfl

theorem firstOccurrencesBut_eq_eraseDups {α : Type} [DecidableEq α] (seen l : List α) :
    firstOccurrencesBut seen l = (l.filter (· ∉ seen)).eraseDups := by
  induction l generalizing seen with
  | nil => rfl
  | cons a rest ih =>
    rw [firstOccurrencesBut]
    by_cases ha : a ∈ seen
    · rw [if_pos ha, List.filter_cons_of_neg (by simpa using ha), ih]
    · rw [if_neg ha, List.filter_cons_of_pos (by simpa using ha), List.eraseDups_cons, ih,
        List.filter_filter]
      congr 3
      funext b
      rw [Bool.eq_iff_iff]
      simp

theorem firstOccurrences_eq_eraseDups {α : Type} [DecidableEq α] (l : List α) :
    firstOccurrences l = l.eraseDups := by
  have hall : l.filter (· ∉ ([] : List α)) = l := List.filter_eq_self.2 (by simp)
  rw [firstOccurrences, firstOccurrencesBut_eq_eraseDups, hall]

/-! ## Rows of a project -/

namespace Build

variable {b : Build} {p : Project} {scope : Scope}

/-- A declaration has the scope of its row. -/
theorem scope_of_declaredBy {d : Declaration} {dep : DeclaredDependency}
    (h : b.declaredBy p scope d = .ok dep) : dep.scope = some scope.toText := by
  cases d with
  | external group name version =>
    cases h
    rfl
  | project path =>
    rw [declaredBy] at h
    cases htarget : b.project? (p.absolutePath path) with
    | none =>
      simp only [htarget] at h
      cases h
    | some q =>
      simp only [htarget] at h
      cases h
      rfl

theorem exists_of_declaredIn_cons {d : Declaration} {rest : List Declaration}
    {deps : List DeclaredDependency} (h : b.declaredIn p scope (d :: rest) = .ok deps) :
    ∃ dep more, b.declaredBy p scope d = .ok dep ∧ b.declaredIn p scope rest = .ok more ∧
      deps = dep :: more := by
  rw [declaredIn] at h
  cases hfirst : b.declaredBy p scope d with
  | error e =>
    rw [hfirst] at h
    cases h
  | ok dep =>
    cases hrest : b.declaredIn p scope rest with
    | error e =>
      rw [hfirst, hrest] at h
      cases h
    | ok more =>
      rw [hfirst, hrest] at h
      cases h
      exact ⟨dep, more, rfl, rfl, rfl⟩

theorem scope_of_mem_declaredIn {ds : List Declaration} {deps : List DeclaredDependency}
    (h : b.declaredIn p scope ds = .ok deps) : ∀ d ∈ deps, d.scope = some scope.toText := by
  induction ds generalizing deps with
  | nil =>
    cases h
    exact List.forall_mem_nil _
  | cons d rest ih =>
    obtain ⟨dep, more, hfirst, hrest, rfl⟩ := exists_of_declaredIn_cons h
    exact List.forall_mem_cons.2 ⟨scope_of_declaredBy hfirst, ih hrest⟩

theorem exists_of_declaredUnder_cons {configuration : String} {rest : List (String × Scope)}
    {deps : List DeclaredDependency}
    (h : b.declaredUnder p ((configuration, scope) :: rest) = .ok deps) :
    ∃ row more, b.declaredIn p scope ((p.configuration? configuration).getD []) = .ok row ∧
      b.declaredUnder p rest = .ok more ∧ deps = row ++ more := by
  rw [declaredUnder] at h
  cases hrow : b.declaredIn p scope ((p.configuration? configuration).getD []) with
  | error e =>
    simp only [hrow] at h
    cases h
  | ok row =>
    cases hrest : b.declaredUnder p rest with
    | error e =>
      simp only [hrow, hrest] at h
      cases h
    | ok more =>
      simp only [hrow, hrest] at h
      cases h
      exact ⟨row, more, rfl, rfl, rfl⟩

/-- Rows are left out with their declarations. -/
theorem declaredUnder_filter {q : Scope → Bool} {P : DeclaredDependency → Bool}
    (hP : ∀ d scope, d.scope = some scope.toText → P d = q scope) {rows : List (String × Scope)}
    {deps : List DeclaredDependency} (h : b.declaredUnder p rows = .ok deps) :
    b.declaredUnder p (rows.filter fun row => q row.2) = .ok (deps.filter P) := by
  induction rows generalizing deps with
  | nil =>
    cases h
    rfl
  | cons row rest ih =>
    obtain ⟨configuration, scope⟩ := row
    obtain ⟨found, more, hfound, hrest, rfl⟩ := exists_of_declaredUnder_cons h
    have hsame : ∀ d ∈ found, P d = q scope := fun d hd =>
      hP d scope (scope_of_mem_declaredIn hfound d hd)
    rw [List.filter_append]
    by_cases hq : q scope = true
    · have hall : found.filter P = found :=
        List.filter_eq_self.2 fun d hd => (hsame d hd).trans hq
      have hkept : ((configuration, scope) :: rest).filter (fun row => q row.2) =
          (configuration, scope) :: rest.filter fun row => q row.2 := List.filter_cons_of_pos hq
      rw [hkept, declaredUnder, hfound, ih hrest, hall]
      rfl
    · have hnone : found.filter P = [] := by
        rw [List.filter_eq_nil_iff]
        intro d hd
        rwa [hsame d hd]
      have hleft : ((configuration, scope) :: rest).filter (fun row => q row.2) =
          rest.filter fun row => q row.2 := List.filter_cons_of_neg hq
      rw [hleft, ih hrest, hnone, List.nil_append]

end Build

/-! ## The test scope -/

theorem DeclaredDependency.isTestScoped_of_scope {d : DeclaredDependency} {scope : Scope}
    (h : d.scope = some scope.toText) : d.isTestScoped = (scope == .test) := by
  rw [isTestScoped, h, Bool.eq_iff_iff, beq_iff_eq, beq_iff_eq, Option.some.injEq]
  exact ⟨Scope.toText_inj, congrArg Scope.toText⟩

/-- The rows of a policy that give the test scope. -/
def ScopePolicy.testRows (policy : ScopePolicy) : List (String × Scope) :=
  (policy.rows.filter (·.scope == some .test)).map fun row => (row.configuration, .test)

theorem ScopePolicy.mappings_filter_test (policy : ScopePolicy) :
    (policy.mappings true).filter (fun row => row.2 == .test) = policy.testRows := by
  unfold mappings testRows
  induction policy.rows with
  | nil => rfl
  | cons row rest ih =>
    obtain ⟨configuration, scope⟩ := row
    cases scope with
    | none => simpa using ih
    | some scope => cases scope <;> simpa using ih

theorem ScopePolicy.mappings_filter_not_test (policy : ScopePolicy) :
    (policy.mappings true).filter (fun row => row.2 != .test) = policy.mappings false := by
  rw [mappings, mappings, List.filter_filterMap]
  congr 1
  funext row
  cases row.scope with
  | none => rfl
  | some scope => cases scope <;> rfl

/-- Leaving out the declarations for tests before reconciling is the same as not retaining them. -/
theorem ApplicationModel.reconcile_filter (m : ApplicationModel) (retainTest : Bool)
    (declared : List DeclaredDependency) :
    m.reconcile retainTest (declared.filter (!·.isTestScoped)) = m.reconcile false declared := by
  have hretained : (declared.filter (!·.isTestScoped)).filter (·.isRetained retainTest) =
      declared.filter (·.isRetained false) := by
    rw [List.filter_filter]
    refine List.filter_congr fun d _ => ?_
    cases htest : d.isTestScoped <;> simp [DeclaredDependency.isRetained, htest]
  simp only [reconcile, hretained]

namespace Build

variable {b : Build} {policy : ScopePolicy} {p : Project} {l : List DeclaredDependency}

theorem declared_filter (h : b.declared policy true p = .ok l) :
    b.declared policy false p = .ok (l.filter (!·.isTestScoped)) := by
  rw [declared] at h
  cases hrows : b.declaredUnder p (policy.mappings true) with
  | error e =>
    rw [hrows] at h
    cases h
  | ok rows =>
    rw [hrows] at h
    cases h
    -- Rows of other scopes are kept with all their declarations, so what is left of the rows is
    -- what is read without tests, and repeated declarations are left out last.
    have hleft := declaredUnder_filter (q := (· != .test)) (P := (!·.isTestScoped))
      (fun _ _ hscope => by rw [DeclaredDependency.isTestScoped_of_scope hscope]; rfl) hrows
    rw [ScopePolicy.mappings_filter_not_test] at hleft
    rw [declared, hleft, filter_firstOccurrences]
    rfl

/-- A project that can be extracted with its tests can be extracted without them, and what is left
are the declarations that are not of the test scope. On every model it makes no difference in which
of the two places the tests are left out. -/
theorem declared_without_tests (h : b.declared policy true p = .ok l) :
    b.declared policy false p = .ok (l.filter (·.scope != some "test")) ∧
      ∀ (m : ApplicationModel) (retainTest : Bool) (l' : List DeclaredDependency),
        b.declared policy false p = .ok l' → m.reconcile false l = m.reconcile retainTest l' := by
  have hwithout := declared_filter h
  refine ⟨hwithout, ?_⟩
  intro m retainTest l' hl'
  rw [hwithout] at hl'
  cases hl'
  exact (m.reconcile_filter retainTest l).symm

/-- A table in which rows for tests stand before and between the others. -/
def interleavedPolicy : ScopePolicy :=
  ⟨[⟨"testImplementation", some .test⟩, ⟨"api", some .compile⟩, ⟨"checks", some .test⟩,
    ⟨"runtimeOnly", some .runtime⟩]⟩

/-- A project that declares the same in all its configurations, in some of them twice. -/
def interleavedProject : Project :=
  { path := ":", group := "g", name := "app", version := "1"
    configurations :=
      [("api", [.external "x" "a" (some "1"), .project "app"]),
        ("checks", [.external "x" "a" (some "1"), .external "x" "t" none]),
        ("runtimeOnly", [.external "x" "a" (some "1"), .external "x" "a" (some "1")]),
        ("testImplementation", [.project ":app", .external "x" "a" (some "1")])] }

def interleavedBuild : Build :=
  { projects := [interleavedProject, { interleavedProject with path := ":app" }] }

def interleavedDeclarations : List DeclaredDependency :=
  [.ofBuildScript "g" "app" (some "1") "test", .ofBuildScript "x" "a" (some "1") "test",
    .ofBuildScript "x" "a" (some "1") "compile", .ofBuildScript "g" "app" (some "1") "compile",
    .ofBuildScript "x" "t" none "test", .ofBuildScript "x" "a" (some "1") "runtime"]

theorem declared_without_tests_interleaved :
    interleavedBuild.declared interleavedPolicy true interleavedProject =
      .ok interleavedDeclarations ∧
    interleavedBuild.declared interleavedPolicy false interleavedProject =
      .ok [.ofBuildScript "x" "a" (some "1") "compile",
        .ofBuildScript "g" "app" (some "1") "compile",
        .ofBuildScript "x" "a" (some "1") "runtime"] ∧
    ∀ (m : ApplicationModel) (retainTest : Bool),
      m.reconcile false interleavedDeclarations =
        m.reconcile retainTest (interleavedDeclarations.filter (·.scope != some "test")) := by
  have hall : interleavedBuild.declared interleavedPolicy true interleavedProject =
      .ok interleavedDeclarations := rfl
  obtain ⟨hwithout, hreconcile⟩ := declared_without_tests hall
  exact ⟨hall, hwithout, fun m retainTest => hreconcile m retainTest _ hwithout⟩

end Build

end ArtifactGraph
