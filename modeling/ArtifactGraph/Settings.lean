import ArtifactGraph.CommandLine
import ArtifactGraph.Configuration
import ArtifactGraph.Repository

/-!
# Settings

The settings of a run come from the command line, the configuration file and the defaults; in this
order the first that says something counts.
-/

namespace ArtifactGraph

/-- How a run goes. -/
structure Settings where
  format : OutputFormat
  launchMode : Option LaunchMode
  policy : ScopePolicy
  repositories : RepositorySettings
  systemProperties : Bindings
  deriving DecidableEq, Repr

/-- The directory in which a configuration file is looked for: that of the build model. -/
def Arguments.configDirectory (a : Arguments) : String :=
  match FilePath.parent? a.buildModel with
  | none => "."
  | some directory => if directory.isEmpty then "." else directory

namespace Settings

/-- The settings of a run. -/
def merge (a : Arguments) (c : Configuration) : Settings :=
  { format := (a.format.or c.format).getD default
    launchMode := a.launchMode.or c.launchMode
    policy := ((a.scopePolicy.map ScopePolicy.ofPreset).or
      (c.policy.map PolicyChoice.policy)).getD default
    repositories :=
      { localRoot := a.localRepository.or c.localRepository
        remoteUrls :=
          if a.repositories.isEmpty then
            c.remoteRepositories.getD [RemoteRepository.centralUrl]
          else a.repositories
        offline := a.offline || c.offline.getD false }
    systemProperties := c.systemProperties.getD [] }

/-- The name under which expressions know a variable of the environment. -/
def environmentName (name : String) : String := "env." ++ name

/-- The values for expressions: the environment, and what is configured in its place. -/
def systemValues (environment configured : Bindings) : Bindings :=
  NameMap.extend
    (NameMap.ofList (environment.map fun (name, value) => (environmentName name, value))) configured

variable {m : Type → Type} [Monad m]

/-- The configuration that arguments lead to. -/
def configuration (fs : Files m) (a : Arguments) :
    m (Except ConfigurationFault (Option Configuration)) :=
  match a.config with
  | some path => return (← Configuration.load fs path).map some
  | none => Configuration.discover fs a.configDirectory

end Settings

end ArtifactGraph
