import ArtifactGraph.Calendar
import ArtifactGraph.Files.Tree
import ArtifactGraph.Program

/-!
# Running on a machine

The host of a run on a machine, and the entry point of the program.  What a run does is decided in
`Program`; here it is only carried out.

The program has no transport of its own, so a remote repository is never heard of; what is in a
local repository is found.
-/

namespace ArtifactGraph.Machine

/-! ## Files -/

/-- The number of the operating system for an error, and what it says. -/
def systemReason? : IO.Error → Option (UInt32 × String)
  | .alreadyExists _ code details => some (code, details)
  | .otherError code details => some (code, details)
  | .resourceBusy code details => some (code, details)
  | .resourceVanished code details => some (code, details)
  | .unsupportedOperation code details => some (code, details)
  | .hardwareFault code details => some (code, details)
  | .unsatisfiedConstraints code details => some (code, details)
  | .illegalOperation code details => some (code, details)
  | .protocolError code details => some (code, details)
  | .timeExpired code details => some (code, details)
  | .interrupted _ code details => some (code, details)
  | .noFileOrDirectory _ code details => some (code, details)
  | .invalidArgument _ code details => some (code, details)
  | .permissionDenied _ code details => some (code, details)
  | .resourceExhausted _ code details => some (code, details)
  | .inappropriateType _ code details => some (code, details)
  | .noSuchThing _ code details => some (code, details)
  | .unexpectedEof => none
  | .userError _ => none

/-- What is said of an error. -/
def reason (e : IO.Error) : String :=
  match systemReason? e with
  | some (code, details) => details ++ " (os error " ++ toString code ++ ")"
  | none => toString e

/-- A step that can fail, with the reason if it does. -/
def attempt {α : Type} (step : IO α) : IO (Except String α) := do
  match ← step.toBaseIO with
  | .ok a => return .ok a
  | .error e => return .error (reason e)

/-- The status that the system has for something. -/
def statusOf (data : IO.FS.Metadata) : FileStatus :=
  match data.type with
  | .dir => .directory
  | .file => .file data.byteSize.toNat
  | .symlink => .link
  | .other => .special

/-- The place of a path, seen from the current directory. -/
def place (path : String) : IO.FS.DirEntry := ⟨".", path⟩

/-- Asks for what stands at a path. The empty path leads nowhere. -/
def statusBy (ask : IO.FS.DirEntry → IO IO.FS.Metadata) (path : String) :
    IO (Except String FileStatus) := do
  if path.isEmpty then return .error PathFault.missing.message
  else return (← attempt (ask (place path))).map statusOf

/-- The text of a file. -/
def read (path : String) : IO (Except String String) := do
  match ← attempt (IO.FS.readBinFile path) with
  | .error e => return .error e
  | .ok bytes =>
    match String.fromUTF8? bytes with
    | some text => return .ok text
    | none => return .error PathFault.notText.message

/-- The files of the machine. -/
def files : Files IO where
  status := statusBy fun entry => entry.path.symlinkMetadata
  target := statusBy fun entry => entry.path.metadata
  read := read
  write path text := attempt (IO.FS.writeFile path text)

/-! ## Clock and environment -/

/-- The words of the file of a path; no words if there is no such file. -/
def wordsOf (path : String) : IO (List String) := do
  match ← read path with
  | .error _ => return []
  | .ok text =>
    return ((text.toList.splitOnP (·.isWhitespace)).map String.ofList).filter (!·.isEmpty)

/-- The number behind a word. -/
def numberBehind (word : String) : List String → Nat
  | w :: n :: rest => if w == word then n.toNat?.getD 0 else numberBehind word (n :: rest)
  | _ => 0

/-- The present: when the machine was started, and how long it has been running. -/
def now : IO Instant := do
  let started := numberBehind "btime" (← wordsOf "/proc/stat")
  let running := (← wordsOf "/proc/uptime").headD "0"
  match Text.splitOnChar '.' running with
  | [seconds, hundredths] =>
    return { seconds := started + seconds.toNat?.getD 0,
             nanoseconds := hundredths.toNat?.getD 0 * 10000000 }
  | _ => return { seconds := started }

/-- The stamp of a report that is made now. -/
def stamp : IO Report.Stamp := do
  let number := (← wordsOf "/proc/sys/kernel/random/uuid").headD ""
  return { timestamp := (← now).toText, serial := "urn:uuid:" ++ number }

/-- The name and the value of a variable. -/
def nameAndValue? (entry : String) : Option (String × String) :=
  let name := entry.toList.takeWhile (· != '=')
  if name.isEmpty then none
  else some (String.ofList name, String.ofList (entry.toList.drop (name.length + 1)))

/-- The variables of the environment. -/
def environment : IO Bindings := do
  match ← read "/proc/self/environ" with
  | .error _ => return []
  | .ok text => return NameMap.ofList ((Text.splitOnChar '\x00' text).filterMap nameAndValue?)

/-! ## The program -/

/-- A network on which nobody answers. -/
def network : Network IO where
  request _ := return .silence
  wait _ := return ()

/-- The machine as a host. -/
def host (environment : Bindings) : Host IO where
  files := files
  network := network
  environment := environment
  stamp := stamp
  time := return (← now).toLogText
  print text := IO.print text
  printError text := IO.eprint text

end ArtifactGraph.Machine

/-- Runs the program with the words of the command line. -/
def main (words : List String) : IO UInt32 := do
  let code ← ArtifactGraph.Program.start
    (ArtifactGraph.Machine.host (← ArtifactGraph.Machine.environment)) words
  return UInt32.ofNat code.code
