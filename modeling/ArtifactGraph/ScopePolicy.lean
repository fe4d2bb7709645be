import ArtifactGraph.Text
import ArtifactGraph.Json.Record

/-!
# Scopes and scope policies

A build script declares dependencies in named configurations.  A `ScopePolicy` is the table that
says which scope the declarations of a configuration have; a row without a scope says that the
configuration is ignored, and a configuration without a row is not looked at.

* `ScopePolicy.ofRows` accepts a table of the user's own, and `PolicyFault` says why not.
* `mappings` are the rows that count for a run, with or without those of the test scope.
-/

namespace ArtifactGraph

/-- When a dependency is needed. -/
inductive Scope where
  | compile
  | runtime
  | test
  deriving DecidableEq, Repr

namespace Scope

def toText : Scope → String
  | .compile => "compile"
  | .runtime => "runtime"
  | .test => "test"

theorem toText_inj {s t : Scope} (h : s.toText = t.toText) : s = t := by
  cases s <;> cases t <;> simp_all [toText]

end Scope

/-- A row of a scope policy: a configuration and its scope, if it has one. -/
structure ScopeRow where
  configuration : String
  scope : Option Scope
  deriving DecidableEq, Repr

namespace ScopeRow

/-- The words for the scope of a row; the last one says that the configuration is ignored. -/
def scopeWords : List (String × Option Scope) :=
  [("compile", some .compile), ("runtime", some .runtime), ("test", some .test), ("ignored", none)]

/-- The fields of a row as they are read. -/
inductive Field where
  | configuration (name : String)
  | scope (scope : Option Scope)

def decodeField : String → Json.Decoder Field
  | "scope", v => (Json.decodeName scopeWords v).map .scope
  | _, v => (Json.decodeString v).map .configuration

/-- The row of the fields read. -/
def ofFields (fields : List (String × Field)) : Except DecodeFault ScopeRow :=
  match fields.lookup "configuration", fields.lookup "scope" with
  | some (.configuration name), some (.scope scope) => .ok ⟨name, scope⟩
  | _, _ => .error .malformed

/-- Reads a row. -/
def decode : Json.Decoder ScopeRow := fun v => do
  let fields ← Json.recordFields ["configuration", "scope"] Json.skippable decodeField v
  ofFields fields

end ScopeRow

/-- The policies that have a name. -/
inductive PolicyPreset where
  | compileClasspath
  | runtimeClasspath
  deriving DecidableEq, Repr, Inhabited

namespace PolicyPreset

def toText : PolicyPreset → String
  | .compileClasspath => "compile-classpath"
  | .runtimeClasspath => "runtime-classpath"

/-- The preset a user asks for. -/
def parse? (s : String) : Option PolicyPreset :=
  if Text.spells s "compile-classpath" || Text.spells s "compile" then some .compileClasspath
  else if Text.spells s "runtime-classpath" || Text.spells s "runtime" then some .runtimeClasspath
  else none

/-- What is said to a user whose word is no preset. -/
def refusal (s : String) : String :=
  "Invalid scope policy: " ++ s ++
    ". Please specify 'compile-classpath' or 'runtime-classpath'"

end PolicyPreset

/-- Why a table is no scope policy. -/
inductive PolicyFault where
  /-- It has no rows. -/
  | noRows
  /-- A row has a blank configuration name. -/
  | blankName
  /-- Two rows are for the same configuration. -/
  | repeated (configuration : String)
  deriving DecidableEq, Repr

def PolicyFault.message : PolicyFault → String
  | .noRows => "scope policy must map at least one configuration"
  | .blankName => "scope policy configuration names must not be empty"
  | .repeated configuration => "configuration '" ++ configuration ++ "' is mapped more than once"

/-- Which scope the declarations of each configuration have. -/
structure ScopePolicy where
  rows : List ScopeRow
  deriving DecidableEq, Repr

namespace ScopePolicy

/-- The table of a preset. -/
def ofPreset : PolicyPreset → ScopePolicy
  | .compileClasspath =>
    ⟨[⟨"api", some .compile⟩, ⟨"implementation", some .compile⟩, ⟨"compileOnly", none⟩,
      ⟨"runtimeOnly", some .runtime⟩, ⟨"testImplementation", some .test⟩,
      ⟨"testRuntimeOnly", some .test⟩, ⟨"testCompileOnly", some .test⟩]⟩
  | .runtimeClasspath =>
    ⟨[⟨"api", some .compile⟩, ⟨"implementation", some .runtime⟩, ⟨"compileOnly", some .compile⟩,
      ⟨"runtimeOnly", some .runtime⟩, ⟨"testImplementation", some .test⟩,
      ⟨"testRuntimeOnly", some .test⟩, ⟨"testCompileOnly", some .test⟩]⟩

instance : Inhabited ScopePolicy := ⟨ofPreset default⟩

/-- The first fault of the rows, given the configurations of the rows before them. -/
def rowFault? (seen : List String) : List ScopeRow → Option PolicyFault
  | [] => none
  | row :: rest =>
    if (Text.nonBlank? row.configuration).isNone then some .blankName
    else if seen.contains row.configuration then some (.repeated row.configuration)
    else rowFault? (row.configuration :: seen) rest

/-- The policy of a table. -/
def ofRows (rows : List ScopeRow) : Except PolicyFault ScopePolicy :=
  if rows.isEmpty then .error .noRows
  else
    match rowFault? [] rows with
    | some fault => .error fault
    | none => .ok ⟨rows⟩

/-- The rows that count: those with a scope, and those of the test scope only if asked for. -/
def mappings (policy : ScopePolicy) (includeTest : Bool) : List (String × Scope) :=
  policy.rows.filterMap fun row =>
    match row.scope with
    | none => none
    | some scope => if scope == .test && !includeTest then none else some (row.configuration, scope)

/-- What the table says about a configuration: nothing, that it is ignored, or its scope. -/
def scopeOf? (policy : ScopePolicy) (configuration : String) : Option (Option Scope) :=
  (policy.rows.find? (·.configuration == configuration)).map (·.scope)

end ScopePolicy

end ArtifactGraph
