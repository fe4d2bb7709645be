import ArtifactGraph.EffectiveModel.Fault
import ArtifactGraph.Pom

/-!
# Lineages

The lineage of a triple is its POM followed by its ancestors, nearest first.  Each ancestor is
located by the triple in the `parent` section of the POM before it, and a POM whose section is
incomplete has no parent.

The walk goes no further than `lineageLimit` POMs, and never to a triple it has been at.  It is
given a way to get a POM; `Pom.fetch` is the one that locates it and reads what was found.
-/

namespace ArtifactGraph

variable {m : Type → Type} [Monad m]

/-- Work on an effective model in a monad. -/
abbrev Modeling (m : Type → Type) := ExceptT ModelFault m

namespace Pom

/-- A way to get the POM of a triple. -/
abbrev Fetch (m : Type → Type) := Gav → Modeling m Pom

/-- Locates a POM and reads it. -/
def fetch (locate : Locate m) : Fetch m := fun gav => do
  match (← locate gav : Except LocateFault PomSource) with
  | .error fault => throw (.notLocated fault)
  | .ok found =>
    match read? found.content with
    | none => throw (.unreadable found.location)
    | some pom => return pom

/-- The POM of `current` and its ancestors, at most `room` of them; `seen` are the triples between
`gav` and `current`. -/
def lineageFrom (fetch : Fetch m) (gav : Gav) :
    Nat → List Gav → Gav → Modeling m (List Pom)
  | 0, seen, current =>
    if seen.contains current then throw (.parentCycle gav current)
    else throw (.parentsTooDeep gav)
  | room + 1, seen, current =>
    if seen.contains current then throw (.parentCycle gav current)
    else do
      let pom ← fetch current
      match pom.parentGav? with
      | none => return [pom]
      | some parent =>
        let ancestors ← lineageFrom fetch gav room (current :: seen) parent
        return pom :: ancestors

/-- The POM of a triple and its ancestors, nearest first. -/
def lineage (fetch : Fetch m) (gav : Gav) : Modeling m (List Pom) :=
  lineageFrom fetch gav lineageLimit [] gav

end Pom

end ArtifactGraph
