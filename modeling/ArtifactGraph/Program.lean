import ArtifactGraph.Assembly
import ArtifactGraph.BuildModel.File
import ArtifactGraph.Console
import ArtifactGraph.Report.Output
import ArtifactGraph.Settings

/-!
# The program

A `Host` is everything that a run can do and know: files, a network, an environment, a clock and two
streams for its texts.  The program runs in any monad that has a host.

* `run` is a run with its arguments: the settings, the model, the report and where it goes.
* `start` is the program: it reads the words of the command line, runs and says how the run ends.

What the locators remember is the state of a run (`Running`), so a run asks no remote repository
twice for what it has.
-/

namespace ArtifactGraph

/-- What a run can do and know. -/
structure Host (m : Type → Type) where
  files : Files m
  network : Network m
  environment : Bindings
  /-- The time and the number of a report that is made now. -/
  stamp : m Report.Stamp
  /-- The time of a line of the log that is written now. -/
  time : m String
  /-- Writes to the standard output. -/
  print : String → m Unit
  /-- Writes to the standard error output. -/
  printError : String → m Unit

/-- Why a run does not come to its end. -/
inductive RunFault where
  | configuration (fault : ConfigurationFault)
  /-- A repository cannot be asked. -/
  | repository (reason : String)
  | failure (f : Failure)
  deriving DecidableEq, Repr

namespace RunFault

/-- What happened, and then the causes. -/
def chain : RunFault → List String
  | .configuration fault => fault.chain
  | .repository reason => [reason]
  | .failure f => [f.message]

/-- What the user reads. -/
def text (fault : RunFault) : String :=
  let causes := fault.chain.drop 1
  "\n❌ An error occurred:\n\n" ++ (fault.chain.head?).getD "" ++ "\n" ++
    Text.joinWith "" (causes.map fun cause => "\nCaused by: " ++ cause ++ "\n") ++ "\n"

end RunFault

namespace Program

variable {m : Type → Type} [Monad m]

/-- Shows an event. -/
def tell (host : Host m) (console : Console) (e : Event) : m Unit := do
  match console.line? (← host.time) e with
  | none => return ()
  | some line => host.printError line

/-! ## Settings -/

/-- The settings of a run. -/
def settings (host : Host m) (console : Console) (a : Arguments) :
    m (Except RunFault Settings) := do
  match ← Settings.configuration host.files a with
  | .error fault => return .error (.configuration fault)
  | .ok found =>
    let c := found.getD {}
    c.unknown.forM fun name => tell host console (.settingUnknown name)
    return .ok (Settings.merge a c)

/-! ## The model -/

/-- Work in the course of which locators remember what they found. -/
abbrev Running (m : Type → Type) := StateT (Locator Repository) m

/-- Finds a POM, and remembers where remote repositories have it. -/
def locate (host : Host m) : Locate (Running m) := fun gav locator =>
  locator.locate (Repository.locate host.files host.network) gav

/-- The surroundings of a run with its settings. -/
def surroundings (host : Host m) (console : Console) (s : Settings) : Surroundings (Running m) :=
  { locate := locate host
    system := Settings.systemValues host.environment s.systemProperties
    tell := fun e => liftM (tell host console e) }

/-- The application model of a document. -/
def assemble (host : Host m) (console : Console) (s : Settings) (path : String) :
    m (Except RunFault Assembled) := do
  match Repository.locators s.repositories host.environment with
  | .error reason => return .error (.repository reason)
  | .ok members =>
    let read (path : String) : Running m (Except Failure BuildModel) :=
      liftM (BuildModel.load host.files path)
    let (result, _) ←
      (BuildModel.assembleFrom (surroundings host console s) read s.policy s.launchMode path).run
        (.chain members)
    return result.mapError .failure

/-! ## The report -/

/-- Puts a report where it goes. -/
def present (host : Host m) (console : Console) (output : Option String) (text : String) :
    m (Except RunFault Unit) :=
  match output with
  | none => do
    host.print (Report.closed text)
    return .ok ()
  | some path => do
    match ← Report.writeTo host.files path text with
    | .error f => return .error (.failure f)
    | .ok () =>
      tell host console (.written path)
      return .ok ()

/-! ## The whole -/

/-- A run. -/
def run (host : Host m) (log : LogFilter) (a : Arguments) : m (Except RunFault Unit) := do
  let console : Console := { quiet := a.quiet, log }
  match ← settings host console a with
  | .error fault => return .error fault
  | .ok s =>
    match ← assemble host console s a.buildModel with
    | .error fault => return .error fault
    | .ok result =>
      tell host console (.rendering s.format)
      let report := Report.ofModel (← host.stamp) result.mode result.model
      present host console a.output (report.text s.format)

/-- What is said when there is no run, and how the program ends. -/
def stop (host : Host m) : Stop → m ExitCode
  | .help => do
    host.print CommandLine.helpText
    return .success
  | .version => do
    host.print CommandLine.versionText
    return .success
  | problem => do
    host.printError (problem.message ++ "\n\n" ++ CommandLine.usageText)
    return .invalidArguments

/-- The program. -/
def start (host : Host m) (words : List String) : m ExitCode := do
  match CommandLine.parse words with
  | .error problem => stop host problem
  | .ok a =>
    match ← run host (LogFilter.choose host.environment a.verbose) a with
    | .ok () => return .success
    | .error fault =>
      host.printError fault.text
      return .applicationError

end Program

end ArtifactGraph
