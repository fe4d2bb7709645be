import ArtifactGraph.Failure
import ArtifactGraph.Files
import ArtifactGraph.LaunchMode
import ArtifactGraph.NameMap
import ArtifactGraph.Report
import ArtifactGraph.Repository.Remote
import ArtifactGraph.ScopePolicy
import ArtifactGraph.Yaml.Reader

/-!
# Configuration files

A `Configuration` is what a configuration file sets.  It is made in two steps, so that the faults of
a file are told apart.

* `decode?` takes a document for `Entries`, which are texts still.  A file in which something else
  stands than is wanted is malformed.
* `Entries.check` takes the texts for what they mean and says what is wrong with them.

`load` reads the file of a path, and `discover` the one in a directory if it is there.
-/

namespace ArtifactGraph

/-- The policy that a file chooses. -/
inductive PolicyChoice where
  | preset (p : PolicyPreset)
  | table (p : ScopePolicy)
  deriving DecidableEq, Repr

/-- The policy of a choice. -/
def PolicyChoice.policy : PolicyChoice → ScopePolicy
  | .preset p => .ofPreset p
  | .table p => p

/-- What a configuration file sets. -/
structure Configuration where
  format : Option OutputFormat := none
  launchMode : Option LaunchMode := none
  policy : Option PolicyChoice := none
  localRepository : Option String := none
  remoteRepositories : Option (List String) := none
  offline : Option Bool := none
  systemProperties : Option Bindings := none
  /-- The names of members without a meaning, in their order. -/
  unknown : List String := []
  deriving DecidableEq, Repr

/-- Why a setting is refused. -/
inductive SettingFault where
  | word (refusal : String)
  /-- There is a preset and a table. -/
  | twoPolicies
  | policy (fault : PolicyFault)
  /-- The repository at a position has no URL that can be asked. -/
  | repository (position : Nat) (url : String)
  deriving DecidableEq, Repr

def SettingFault.message : SettingFault → String
  | .word refusal => refusal
  | .twoPolicies =>
    Failure.withHint
      "Invalid config: 'scope_policy' and 'configurations' are mutually exclusive."
      "Use 'scope_policy' for a preset, or 'configurations' for an explicit table."
  | .policy fault => (Failure.invalid fault.message).message
  | .repository position url =>
    Failure.withHint
      ("Invalid config: remote_repositories[" ++ toString position ++ "] '" ++ url ++
        "' is not an http(s) URL.")
      "Repository URLs look like \x22https://repo.maven.apache.org/maven2\x22."

/-- Why a configuration file is of no use. -/
inductive ConfigurationFault where
  | unreadable (path reason : String)
  | malformed (path : String)
  | refused (path : String) (fault : SettingFault)
  deriving DecidableEq, Repr

namespace ConfigurationFault

/-- What is said of a file that is malformed. -/
def malformedDetails : String := "the file does not have the expected form"

/-- What happened, and then the cause. -/
def chain : ConfigurationFault → List String
  | .unreadable path reason =>
    [Failure.withHint ("Failed to read config file: " ++ path)
      "Check that the file exists and is readable.", reason]
  | .malformed path =>
    [Failure.withHint ("Failed to parse config file: " ++ path)
      ("Ensure the file contains valid YAML syntax and that scopes are one of compile, runtime, " ++
        "test or ignored."), malformedDetails]
  | .refused path fault => ["Invalid config file: " ++ path, fault.message]

end ConfigurationFault

namespace Configuration

/-! ## Entries -/

/-- What stands in a configuration file. -/
structure Entries where
  format : Option String := none
  launchMode : Option String := none
  scopePolicy : Option String := none
  configurations : Option (List ScopeRow) := none
  localRepository : Option String := none
  remoteRepositories : Option (List String) := none
  offline : Option Bool := none
  systemProperties : Option Bindings := none
  unknown : List String := []
  deriving DecidableEq, Repr

/-- The names of the members that have a meaning. -/
def names : List String :=
  ["format", "launch_mode", "scope_policy", "configurations", "local_repository",
    "remote_repositories", "offline", "system_properties"]

/-- How deep collections may be nested in a member without a meaning. -/
def keptDepth : Nat := 127

/-- What all members of a list are taken for, unless one of them cannot be. -/
def decodeAll? {α : Type} (decode? : Yaml → Option α) : List Yaml → Option (List α)
  | [] => some []
  | v :: rest => do
    let a ← decode? v
    let others ← decodeAll? decode? rest
    return a :: others

/-- A list of texts. -/
def decodeTexts? (v : Yaml) : Option (List String) := do
  let items ← v.items?
  decodeAll? Yaml.text? items

/-- A row of the table of configurations. -/
def decodeRow? (v : Yaml) : Option ScopeRow := do
  let entries ← v.entries?
  if !Text.distinct ((entries.map (·.1)).filter ["configuration", "scope"].contains) then none
  else
    let configuration ← (← entries.lookup "configuration").text?
    let scope ← ScopeRow.scopeWords.lookup (← (← entries.lookup "scope").text?)
    return ⟨configuration, scope⟩

/-- The table of configurations. -/
def decodeRows? (v : Yaml) : Option (List ScopeRow) := do
  let items ← v.items?
  decodeAll? decodeRow? items

/-- The texts of names. -/
def decodeBindings? (v : Yaml) : Option Bindings := do
  let entries ← v.entries?
  let values ← decodeAll? Yaml.text? (entries.map (·.2))
  return NameMap.ofList ((entries.map (·.1)).zip values)

/-- A member of a mapping, if it is there and stands for a value. -/
def member? {α : Type} (entries : List (String × Yaml)) (name : String)
    (decode? : Yaml → Option α) : Option (Option α) :=
  match entries.lookup name with
  | none => some none
  | some v => if v.isNull then some none else (decode? v).map some

/-- What stands in a document. Members without a meaning are kept until they are told of. -/
def decode? (document : Yaml) : Option Entries := do
  let entries ← document.entries?
  let others := entries.filter fun e => !names.contains e.1
  if !Text.distinct ((entries.map (·.1)).filter names.contains) then none
  else if !others.all fun e => e.2.storable keptDepth then none
  else
    let format ← member? entries "format" Yaml.text?
    let launchMode ← member? entries "launch_mode" Yaml.text?
    let scopePolicy ← member? entries "scope_policy" Yaml.text?
    let configurations ← member? entries "configurations" decodeRows?
    let localRepository ← member? entries "local_repository" Yaml.text?
    let remoteRepositories ← member? entries "remote_repositories" decodeTexts?
    let offline ← member? entries "offline" Yaml.bool?
    let systemProperties ← member? entries "system_properties" decodeBindings?
    let unknown := (NameMap.ofList (others.map fun e => (e.1, ()))).map (·.1)
    return { format, launchMode, scopePolicy, configurations, localRepository, remoteRepositories,
             offline, systemProperties, unknown }

/-! ## Check -/

/-- The meaning of a word that may be missing. -/
def checkWord {α : Type} (parse? : String → Option α) (refusal : String → String) :
    Option String → Except SettingFault (Option α)
  | none => .ok none
  | some s =>
    match parse? s with
    | some a => .ok (some a)
    | none => .error (.word (refusal s))

/-- The table of configurations, as a policy. -/
def checkTable : Option (List ScopeRow) → Except SettingFault (Option ScopePolicy)
  | none => .ok none
  | some rows =>
    match ScopePolicy.ofRows rows with
    | .ok policy => .ok (some policy)
    | .error fault => .error (.policy fault)

/-- The first of several URLs that cannot be asked, where the first one has this position. -/
def badUrl? : Nat → List String → Option SettingFault
  | _, [] => none
  | position, url :: rest =>
    if RemoteRepository.hasScheme url then badUrl? (position + 1) rest
    else some (.repository position url)

/-- The policy of a preset or of a table, not both. -/
def checkPolicy (e : Entries) : Except SettingFault (Option PolicyChoice) := do
  let preset ← checkWord PolicyPreset.parse? PolicyPreset.refusal e.scopePolicy
  if preset.isSome && e.configurations.isSome then throw .twoPolicies
  else
    let table ← checkTable e.configurations
    return (preset.map PolicyChoice.preset).or (table.map PolicyChoice.table)

/-- What the entries of a file mean. -/
def Entries.check (e : Entries) : Except SettingFault Configuration := do
  let format ← checkWord OutputFormat.parse? OutputFormat.refusal e.format
  let launchMode ← checkWord LaunchMode.parse? LaunchMode.refusal e.launchMode
  let policy ← checkPolicy e
  match badUrl? 0 (e.remoteRepositories.getD []) with
  | some fault => throw fault
  | none =>
    return { format, launchMode, policy, localRepository := e.localRepository,
             remoteRepositories := e.remoteRepositories, offline := e.offline,
             systemProperties := e.systemProperties, unknown := e.unknown }

/-! ## Files -/

/-- The configuration that the text of a file sets. -/
def ofText (path text : String) : Except ConfigurationFault Configuration :=
  match (Yaml.read? text).bind decode? with
  | none => .error (.malformed path)
  | some entries => entries.check.mapError (.refused path)

/-- The name of a configuration file that is found without being named. -/
def fileName : String := "depinfo.config.yml"

variable {m : Type → Type} [Monad m]

/-- Reads the configuration of a path. -/
def load (fs : Files m) (path : String) : m (Except ConfigurationFault Configuration) := do
  match ← fs.read path with
  | .error reason => return .error (.unreadable path reason)
  | .ok text => return ofText path text

/-- Reads the configuration in a directory, if there is one. -/
def discover (fs : Files m) (directory : String) :
    m (Except ConfigurationFault (Option Configuration)) := do
  let path := FilePath.join directory fileName
  if ← fs.exists path then return (← load fs path).map some else return .ok none

end Configuration

end ArtifactGraph
