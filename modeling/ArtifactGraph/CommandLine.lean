import ArtifactGraph.LaunchMode
import ArtifactGraph.Report
import ArtifactGraph.ScopePolicy

/-!
# The command line

`CommandLine.parse` makes the `Arguments` of a run from the words that the user typed, or else says
with a `Stop` why there is no run.

The words are read from left to right, and the first problem counts.  The value behind an option is
looked at when the next option comes or the words are at an end, so a word that nobody knows comes
first when it stands directly behind that value.

* `ValueOption` and `Switch` are what can be typed, with their long and short names.
* A word that begins with a hyphen is no value, unless it is a hyphen alone.
* Short names can be joined in one word, whose rest is the value of the first option in it that
  takes one.
-/

namespace ArtifactGraph

/-! ## Options -/

/-- An option with a value. -/
inductive ValueOption where
  | buildModel
  | mode
  | format
  | output
  | config
  | localRepository
  | repository
  | scopePolicy
  deriving DecidableEq, Repr

/-- An option without a value. -/
inductive Switch where
  | offline
  | quiet
  | verbose
  | help
  | version
  deriving DecidableEq, Repr

/-- An option of either kind. -/
inductive CommandOption where
  | value (o : ValueOption)
  | switch (s : Switch)
  deriving DecidableEq, Repr

namespace CommandOption

/-- The long names of the options. -/
def longNames : List (String × CommandOption) :=
  [("build-model", .value .buildModel), ("mode", .value .mode), ("format", .value .format),
    ("output", .value .output), ("config", .value .config),
    ("local-repository", .value .localRepository), ("repository", .value .repository),
    ("scope-policy", .value .scopePolicy), ("offline", .switch .offline),
    ("quiet", .switch .quiet), ("verbose", .switch .verbose), ("help", .switch .help),
    ("version", .switch .version)]

/-- The short names of the options that have one. -/
def shortNames : List (Char × CommandOption) :=
  [('b', .value .buildModel), ('m', .value .mode), ('f', .value .format), ('o', .value .output),
    ('c', .value .config), ('r', .value .repository), ('q', .switch .quiet),
    ('v', .switch .verbose), ('h', .switch .help), ('V', .switch .version)]

/-- The long name of an option, as it is typed. -/
def toText (o : CommandOption) : String :=
  ((longNames.find? (·.2 == o)).map fun (name, _) => "--" ++ name).getD ""

end CommandOption

/-! ## Arguments -/

/-- What the user asks for. -/
structure Arguments where
  buildModel : String
  launchMode : Option LaunchMode := none
  format : Option OutputFormat := none
  output : Option String := none
  config : Option String := none
  offline : Bool := false
  localRepository : Option String := none
  repositories : List String := []
  scopePolicy : Option PolicyPreset := none
  quiet : Bool := false
  verbose : Nat := 0
  deriving DecidableEq, Repr

/-- Why there is no run. -/
inductive Stop where
  | unknown (word : String)
  /-- An option that must be there is not. -/
  | required (option : ValueOption)
  | noValue (option : ValueOption)
  | badValue (option : ValueOption) (reason : String)
  | repeated (option : CommandOption)
  /-- A switch has a value. -/
  | unwanted (option : Switch)
  | help
  | version
  deriving DecidableEq, Repr

namespace Stop

/-- What is said of the words. -/
def message : Stop → String
  | .unknown word => "error: unexpected argument '" ++ word ++ "' found"
  | .required o => "error: '" ++ (CommandOption.value o).toText ++ "' was not provided"
  | .noValue o =>
    "error: a value is required for '" ++ (CommandOption.value o).toText ++
      "' but none was supplied"
  | .badValue o reason =>
    "error: invalid value for '" ++ (CommandOption.value o).toText ++ "': " ++ reason
  | .repeated o => "error: the argument '" ++ o.toText ++ "' cannot be used multiple times"
  | .unwanted s => "error: unexpected value for '" ++ (CommandOption.switch s).toText ++ "'"
  | .help => ""
  | .version => ""

end Stop

/-! ## Reading the words -/

namespace CommandLine

/-- What was read so far. -/
structure Draft where
  buildModel : Option String := none
  launchMode : Option LaunchMode := none
  format : Option OutputFormat := none
  output : Option String := none
  config : Option String := none
  offline : Bool := false
  localRepository : Option String := none
  repositories : List String := []
  scopePolicy : Option PolicyPreset := none
  quiet : Bool := false
  verbose : Nat := 0
  /-- The last option and its value, neither of which was looked at. -/
  held : Option (ValueOption × Option String) := none
  /-- Whether the options are at an end. -/
  closed : Bool := false

namespace Draft

/-- Whether an option has its only value. -/
def isSet (d : Draft) : ValueOption → Bool
  | .buildModel => d.buildModel.isSome
  | .mode => d.launchMode.isSome
  | .format => d.format.isSome
  | .output => d.output.isSome
  | .config => d.config.isSome
  | .localRepository => d.localRepository.isSome
  | .repository => false
  | .scopePolicy => d.scopePolicy.isSome

/-- The value of an option that takes a path, which is not empty. -/
def path (o : ValueOption) (value : String) : Except Stop String :=
  if value.isEmpty then .error (.noValue o) else .ok value

/-- The value of an option that takes a word of a kind. -/
def word {α : Type} (o : ValueOption) (parse? : String → Option α) (refusal : String → String)
    (value : String) : Except Stop α :=
  match parse? value with
  | some a => .ok a
  | none => .error (.badValue o (refusal value))

/-- Gives an option its value. -/
def set (d : Draft) (o : ValueOption) (value : String) : Except Stop Draft :=
  match o with
  | .buildModel => (path o value).map fun p => { d with buildModel := some p }
  | .mode => (word o LaunchMode.parse? LaunchMode.refusal value).map fun m =>
    { d with launchMode := some m }
  | .format => (word o OutputFormat.parse? OutputFormat.refusal value).map fun f =>
    { d with format := some f }
  | .output => (path o value).map fun p => { d with output := some p }
  | .config => (path o value).map fun p => { d with config := some p }
  | .localRepository => (path o value).map fun p => { d with localRepository := some p }
  | .repository => .ok { d with repositories := d.repositories ++ [value] }
  | .scopePolicy => (word o PolicyPreset.parse? PolicyPreset.refusal value).map fun p =>
    { d with scopePolicy := some p }

/-- Reads the value of an option. -/
def take (d : Draft) (o : ValueOption) (value : String) : Except Stop Draft :=
  if d.isSet o then .error (.repeated (.value o)) else d.set o value

/-- Looks at the option that is held, and at its value. -/
def settle (d : Draft) : Except Stop Draft :=
  match d.held with
  | none => .ok d
  | some (o, none) => .error (.noValue o)
  | some (o, some value) => { d with held := none }.take o value

/-- The greatest number of times that more messages can be asked for. -/
def verboseLimit : Nat := 255

/-- Reads a switch. -/
def turn (d : Draft) (s : Switch) : Except Stop Draft :=
  match s with
  | .offline =>
    if d.offline then .error (.repeated (.switch s)) else .ok { d with offline := true }
  | .quiet => if d.quiet then .error (.repeated (.switch s)) else .ok { d with quiet := true }
  | .verbose => .ok { d with verbose := min (d.verbose + 1) verboseLimit }
  | .help => .error .help
  | .version => .error .version

/-- Reads an option that is known, with the value in its word. -/
def option (d : Draft) (o : CommandOption) (value : Option String) : Except Stop Draft :=
  match o, value with
  | .switch s, some _ => .error (.unwanted s)
  | .switch s, none => d.settle.bind (·.turn s)
  | .value o, some v => d.settle.bind (·.take o v)
  | .value o, none => d.settle.map ({ · with held := some (o, none) })

/-- Reads a word with a long name, and with a value behind an equals sign if there is one. -/
def long (d : Draft) (word : String) (cs : List Char) : Except Stop Draft :=
  let name := cs.takeWhile (· != '=')
  let value := if cs.contains '=' then some (String.ofList (cs.drop (name.length + 1))) else none
  match CommandOption.longNames.lookup (String.ofList name) with
  | none => .error (.unknown word)
  | some o => d.option o value

/-- The value that is joined to a short name; an equals sign in between does not count. -/
def joined : List Char → Option String
  | [] => none
  | '=' :: rest => some (String.ofList rest)
  | cs => some (String.ofList cs)

/-- Reads short names that are joined in a word. -/
def short (word : String) : Draft → List Char → Except Stop Draft
  | d, [] => .ok d
  | d, c :: rest =>
    match CommandOption.shortNames.lookup c with
    | none => .error (.unknown word)
    | some (.value o) => d.option (.value o) (joined rest)
    | some (.switch s) => (d.option (.switch s) none).bind (short word · rest)

/-- Reads a word that is no value. -/
def plain (d : Draft) (word : String) : Except Stop Draft :=
  match word.toList with
  | ['-', '-'] => .ok { d with closed := true }
  | '-' :: '-' :: cs => d.long word cs
  | '-' :: c :: cs => short word d (c :: cs)
  | _ => .error (.unknown word)

/-- Whether a word can be a value. -/
def isValue (word : String) : Bool := word == "-" || word.toList.head? != some '-'

/-- Reads a word. -/
def step (d : Draft) (word : String) : Except Stop Draft :=
  if d.closed then .error (.unknown word)
  else
    match d.held with
    | some (o, none) =>
      if isValue word then .ok { d with held := some (o, some word) } else d.plain word
    | _ => d.plain word

/-- The arguments, once all words are read. -/
def finish (d : Draft) : Except Stop Arguments :=
  match d.settle with
  | .error stop => .error stop
  | .ok d =>
    match d.buildModel with
    | none => .error (.required .buildModel)
    | some buildModel =>
      .ok
        { buildModel, launchMode := d.launchMode, format := d.format, output := d.output,
          config := d.config, offline := d.offline, localRepository := d.localRepository,
          repositories := d.repositories, scopePolicy := d.scopePolicy, quiet := d.quiet,
          verbose := d.verbose }

end Draft

/-- The arguments that words stand for. -/
def parse (words : List String) : Except Stop Arguments :=
  match words.foldlM Draft.step {} with
  | .error stop => .error stop
  | .ok d => d.finish

/-! ## Texts -/

/-- What the program says of its version. -/
def versionText : String := programName ++ " " ++ programVersion ++ "\n"

/-- How the program is called. -/
def usageText : String := "Usage: " ++ programName ++ " [OPTIONS] --build-model <FILE>\n"

/-- What the program says of itself. -/
def helpText : String :=
  "Reconcile declared build dependencies against the resolved application graph\n\n" ++
    usageText ++
    "\nOptions:\n" ++
    "  -b, --build-model <FILE>      Path to the build model document\n" ++
    "  -m, --mode <MODE>             Launch mode: normal, test or dev\n" ++
    "  -f, --format <FORMAT>         Output format: json or markdown\n" ++
    "  -o, --output <FILE>           Output file path (standard output without it)\n" ++
    "  -c, --config <FILE>           Path to a config file\n" ++
    "      --offline                 Resolve POMs from the local repository only\n" ++
    "      --local-repository <DIR>  Local repository root\n" ++
    "  -r, --repository <URL>        Remote repository URL, tried in order\n" ++
    "      --scope-policy <POLICY>   compile-classpath or runtime-classpath\n" ++
    "  -q, --quiet                   Suppress progress output\n" ++
    "  -v, --verbose...              Increase log verbosity\n" ++
    "  -h, --help                    Print help\n" ++
    "  -V, --version                 Print version\n"

end CommandLine

end ArtifactGraph
