import ArtifactGraph.Coordinates
import ArtifactGraph.ScopePolicy

/-!
# Declared dependencies

A `DeclaredDependency` is what a build script or a POM says, before anything is known of the
resolved graph.  What it leaves open is kept open: two declarations that differ only in a
classifier being left out or empty are different declarations with the same key.

* `firstOccurrences` keeps of equal declarations the first one, in order.
-/

namespace ArtifactGraph

/-- A dependency as it is declared. -/
structure DeclaredDependency where
  groupId : String
  artifactId : String
  version : Option String := none
  classifier : Option String := none
  type : Option String := none
  scope : Option String := none
  optional : Bool := false
  deriving DecidableEq, Repr

/-- The distinct members of a list in the order of their first occurrences, without those of
`seen`. -/
def firstOccurrencesBut {α : Type} [DecidableEq α] (seen : List α) : List α → List α
  | [] => []
  | a :: rest =>
    if a ∈ seen then firstOccurrencesBut seen rest
    else a :: firstOccurrencesBut (a :: seen) rest

/-- The distinct members of a list in the order of their first occurrences. -/
def firstOccurrences {α : Type} [DecidableEq α] (l : List α) : List α := firstOccurrencesBut [] l

theorem mem_firstOccurrencesBut {α : Type} [DecidableEq α] {seen l : List α} {a : α} :
    a ∈ firstOccurrencesBut seen l ↔ a ∈ l ∧ a ∉ seen := by
  induction l generalizing seen with
  | nil => simp [firstOccurrencesBut]
  | cons b rest ih =>
    by_cases hb : b ∈ seen
    · simp only [firstOccurrencesBut, hb, if_true, ih, List.mem_cons]
      exact ⟨fun h => ⟨.inr h.1, h.2⟩,
        fun h => ⟨h.1.resolve_left fun e => h.2 (e ▸ hb), h.2⟩⟩
    · simp only [firstOccurrencesBut, hb, if_false, List.mem_cons, ih]
      by_cases hab : a = b
      · subst hab
        simp [hb]
      · simp [hab]

/-- Nothing is lost and nothing is made up. -/
@[simp] theorem mem_firstOccurrences {α : Type} [DecidableEq α] {l : List α} {a : α} :
    a ∈ firstOccurrences l ↔ a ∈ l := by
  simp [firstOccurrences, mem_firstOccurrencesBut]

theorem nodup_firstOccurrencesBut {α : Type} [DecidableEq α] (seen l : List α) :
    (firstOccurrencesBut seen l).Nodup := by
  induction l generalizing seen with
  | nil => simp [firstOccurrencesBut]
  | cons b rest ih =>
    by_cases hb : b ∈ seen
    · simp only [firstOccurrencesBut, hb, if_true]
      exact ih seen
    · simp only [firstOccurrencesBut, hb, if_false, List.nodup_cons]
      exact ⟨by simp [mem_firstOccurrencesBut], ih _⟩

/-- No member is repeated. -/
theorem nodup_firstOccurrences {α : Type} [DecidableEq α] (l : List α) :
    (firstOccurrences l).Nodup := nodup_firstOccurrencesBut [] l

namespace DeclaredDependency

/-- A dependency declared in a configuration of a build script. Build scripts say nothing of
optional dependencies, classifiers and types. -/
def ofBuildScript (group name : String) (version : Option String) (scope : String) :
    DeclaredDependency :=
  { groupId := group, artifactId := name, version, scope := some scope }

/-- Whether the dependency is needed for tests only. -/
def isTestScoped (d : DeclaredDependency) : Bool := d.scope == some Scope.test.toText

/-- The key of the declared artifact, with the defaults for what is left open. -/
def key (d : DeclaredDependency) : ArtifactKey :=
  ⟨d.groupId, d.artifactId, d.classifier.getD defaultClassifier, d.type.getD defaultType⟩

end DeclaredDependency

end ArtifactGraph
