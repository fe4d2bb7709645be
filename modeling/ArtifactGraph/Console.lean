import ArtifactGraph.Event
import ArtifactGraph.Log.Filter

/-!
# What the user sees of a run

A `Console` says which events are shown: a quiet one leaves out what is not needed, and the log has
a `LogFilter`.  `Console.line?` is the text that is shown for an event.
-/

namespace ArtifactGraph

/-- What is shown of a run. -/
structure Console where
  quiet : Bool
  log : LogFilter
  deriving DecidableEq, Repr

namespace Console

/-- The text that is shown for an event, at a time. -/
def line? (c : Console) (time : String) (e : Event) : Option String :=
  match e.kind with
  | .status => if c.quiet then none else some (e.message ++ "\n")
  | .progress => none
  | .completion => if c.quiet then none else some ("✅ " ++ e.message ++ "\n")
  | .alert => some (e.message ++ "\n")
  | .note part =>
    if c.log.shows part .info then some (logLine time "INFO" e.message) else none
  | .caution part =>
    if c.log.shows part .warn then some (logLine time "WARN" e.message) else none

end Console

end ArtifactGraph
