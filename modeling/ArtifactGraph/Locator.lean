import ArtifactGraph.Coordinates
import ArtifactGraph.Text

/-!
# Locators

A locator finds the POM of a triple.  A `Locator` is made of sources of its own kind, on which it
does not look closer, by two means: `chain` asks several locators in order, and `cached` remembers
what a locator found.  What was not found is not remembered.

`Locator.locate` runs in any monad in which a source can be asked.  What is remembered is part of
the locator, so a search gives a locator back, the one for the next search.
-/

namespace ArtifactGraph

/-- A POM that was found: where, and its text. -/
structure PomSource where
  location : String
  content : String
  deriving DecidableEq, Repr

/-- Why a POM was not found. -/
inductive LocateFault where
  /-- A source has its own reason. -/
  | refused (reason : String)
  /-- There is no source to ask. -/
  | noSource (gav : Gav)
  /-- Every source failed. -/
  | nowhere (gav : Gav) (faults : List LocateFault)

namespace LocateFault

mutual
/-- What is said of a POM that was not found. -/
def message : LocateFault → String
  | .refused reason => reason
  | .noSource gav => "No repository configured to locate POM of " ++ gav.toText
  | .nowhere gav faults =>
    "POM of " ++ gav.toText ++ " not found in any repository:\n  - " ++
      Text.joinWith "\n  - " (messages faults)

def messages : List LocateFault → List String
  | [] => []
  | f :: rest => message f :: messages rest
end

end LocateFault

/-- A way to find POMs in a monad. -/
abbrev Locate (m : Type → Type) := Gav → m (Except LocateFault PomSource)

/-- A locator over sources of a kind. -/
inductive Locator (α : Type) where
  | source (a : α)
  /-- A locator with what it found before. -/
  | cached (found : List (Gav × PomSource)) (inner : Locator α)
  | chain (members : List (Locator α))

instance {α : Type} : Inhabited (Locator α) := ⟨.chain []⟩

namespace Locator

variable {α : Type} {m : Type → Type} [Monad m]

mutual
/-- Finds the POM of a triple, and gives the locator for the next search. -/
def locate (ask : α → Locate m) (gav : Gav) :
    Locator α → m (Except LocateFault PomSource × Locator α)
  | .source a => do
    let answer ← ask a gav
    return (answer, .source a)
  | .cached found inner =>
    match found.lookup gav with
    | some pom => return (.ok pom, .cached found inner)
    | none => do
      let (answer, inner') ← locate ask gav inner
      match answer with
      | .ok pom => return (.ok pom, .cached ((gav, pom) :: found) inner')
      | .error e => return (.error e, .cached found inner')
  | .chain members => do
    let (answer, members') ← locateFirst ask gav [] members
    return (answer, .chain members')

/-- The answer of the first of several locators that has one, or else all their faults, of which
`faults` came before. -/
def locateFirst (ask : α → Locate m) (gav : Gav) (faults : List LocateFault) :
    List (Locator α) → m (Except LocateFault PomSource × List (Locator α))
  | [] => return (.error (if faults.isEmpty then .noSource gav else .nowhere gav faults), [])
  | l :: rest => do
    let (answer, l') ← locate ask gav l
    match answer with
    | .ok pom => return (.ok pom, l' :: rest)
    | .error e =>
      let (answer', rest') ← locateFirst ask gav (faults ++ [e]) rest
      return (answer', l' :: rest')
end

end Locator

/-! ## POMs at hand -/

/-- POMs at hand, under the name of the place where they are. -/
structure Shelf where
  name : String
  poms : List (Gav × String) := []

namespace Shelf

/-- Puts a POM on a shelf, in place of the one of its triple. -/
def put (s : Shelf) (gav : Gav) (content : String) : Shelf :=
  { s with poms := (gav, content) :: s.poms }

/-- Takes the POM of a triple from a shelf. -/
def remove (s : Shelf) (gav : Gav) : Shelf :=
  { s with poms := s.poms.filter (·.1 != gav) }

/-- Finds the POM of a triple on a shelf. -/
def locate (s : Shelf) (gav : Gav) : Except LocateFault PomSource :=
  match s.poms.lookup gav with
  | some content => .ok ⟨s.name ++ "/" ++ gav.toText, content⟩
  | none => .error (.refused (s.name ++ " has no " ++ gav.toText))

end Shelf

end ArtifactGraph
