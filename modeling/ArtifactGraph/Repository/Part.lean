import ArtifactGraph.Coordinates
import ArtifactGraph.Text

/-!
# Parts of a triple

A repository keeps a POM at a place that is made of the group, the artifact and the version.  So
that the place is inside the repository, each of the three parts is checked before a place is made
of it.
-/

namespace ArtifactGraph

/-- Why a part of a triple cannot be part of a place. -/
inductive PartFault where
  | blank
  /-- It has a separator of paths. -/
  | separated
  /-- It leads upwards. -/
  | upward
  /-- It has a character with a meaning in URLs. -/
  | reserved
  deriving DecidableEq, Repr

namespace PartFault

/-- What is said of a part of the given name. -/
def message (part : String) : PartFault → String
  | .blank => part ++ " must not be empty"
  | .separated => "Security: " ++ part ++ " contains path separators which are not allowed"
  | .upward => "Security: " ++ part ++ " contains '..' which is not allowed"
  | .reserved => "Security: " ++ part ++ " contains URL-unsafe characters"

end PartFault

/-- What is wrong with a part of a triple. -/
def partFault? (text : String) : Option PartFault :=
  let cs := text.toList
  if (Text.nonBlank? text).isNone then some .blank
  else if cs.contains '/' || cs.contains '\\' then some .separated
  else if Text.occurs ".." text then some .upward
  else if cs.contains '#' || cs.contains '?' || cs.contains '@' then some .reserved
  else none

namespace Gav

/-- The parts of a triple with their names. -/
def parts (g : Gav) : List (String × String) :=
  [("Group id", g.groupId), ("Artifact id", g.artifactId), ("Version", g.version)]

/-- What is wrong with a triple, said of its first bad part. -/
def fault? (g : Gav) : Option String :=
  g.parts.findSome? fun (name, text) => (partFault? text).map (PartFault.message name)

/-- The file name of a POM. -/
def pomName (artifactId version : String) : String := artifactId ++ "-" ++ version ++ ".pom"

/-- The names of the groups inside one another that a group stands for. -/
def groupNames (g : Gav) : List String := Text.splitOnChar '.' g.groupId

end Gav

end ArtifactGraph
