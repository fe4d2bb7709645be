import ArtifactGraph.Text
import ArtifactGraph.Text.Digits

/-!
# The log

A line of the log has a `LogLevel`, which says how important it is.  `logLine` is its text, in which
a character that a terminal takes for a command is written by its code.
-/

namespace ArtifactGraph

/-- How much is logged: everything up to a level. -/
inductive LogLevel where
  | off
  | error
  | warn
  | info
  | debug
  | trace
  deriving DecidableEq, Repr

namespace LogLevel

/-- The levels, from the one that logs nothing on. -/
def all : List LogLevel := [.off, .error, .warn, .info, .debug, .trace]

/-- The number of a level, which is also its other name in filters. -/
def rank : LogLevel → Nat
  | .off => 0
  | .error => 1
  | .warn => 2
  | .info => 3
  | .debug => 4
  | .trace => 5

def name : LogLevel → String
  | .off => "off"
  | .error => "error"
  | .warn => "warn"
  | .info => "info"
  | .debug => "debug"
  | .trace => "trace"

/-- The number that decimal digits spell, with or without a plus sign. -/
def number? (s : String) : Option Nat :=
  match s.toList with
  | '+' :: digits => Text.number? 10 digits
  | digits => Text.number? 10 digits

/-- The level of a name in any case, or of a number. -/
def parse? (s : String) : Option LogLevel :=
  all.find? fun l => Text.sameIgnoringCase l.name s || number? s == some l.rank

/-- The level for a user who asks for more messages so many times. -/
def ofVerbosity : Nat → LogLevel
  | 0 => .warn
  | 1 => .info
  | _ => .debug

end LogLevel

/-! ## Lines -/

/-- The written form of a character in the log. What a terminal takes for a command is written by
its code. -/
def logChar (c : Char) : List Char :=
  let n := c.toNat
  let code := [Text.smallDigit (n / 16), Text.smallDigit (n % 16)]
  if [0x07, 0x08, 0x0C, 0x1B, 0x7F].contains n then ['\\', 'x'] ++ code
  else if 0x80 ≤ n && n ≤ 0x9F then ['\\', 'u', '\x7b'] ++ code ++ ['\x7d']
  else [c]

/-- The text of a line of the log. -/
def logLine (time level text : String) : String :=
  time ++ "  " ++ level ++ " " ++ String.ofList (text.toList.flatMap logChar) ++ "\n"

end ArtifactGraph
