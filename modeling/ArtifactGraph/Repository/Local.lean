import ArtifactGraph.Files
import ArtifactGraph.Locator
import ArtifactGraph.Repository.Part

/-!
# Local repositories

A local repository is a directory: a group stands for directories inside one another, in them is
the directory of the artifact, in it the one of the version, and in it the POM.
-/

namespace ArtifactGraph

/-- The greatest size of a POM, in bytes. -/
def pomSizeLimit : Nat := 10 * 1024 * 1024

/-- A repository in a directory. -/
structure LocalRepository where
  root : String
  deriving DecidableEq, Repr

namespace LocalRepository

/-- The directory of a user's own repository, inside the home directory. -/
def rootIn (home : String) : String := FilePath.join (FilePath.join home ".m2") "repository"

/-- The path of a POM. -/
def pomPath (r : LocalRepository) (g : Gav) : Except String String :=
  match g.fault? with
  | some fault => .error fault
  | none =>
    .ok ((g.groupNames ++ [g.artifactId, g.version, Gav.pomName g.artifactId g.version]).foldl
      FilePath.join r.root)

variable {m : Type → Type} [Monad m]

/-- Finds a POM in the repository. -/
def locate (r : LocalRepository) (fs : Files m) : Locate m := fun g => do
  match r.pomPath g with
  | .error reason => return .error (.refused reason)
  | .ok path =>
    if !(← fs.exists path) then
      return .error (.refused (g.toText ++ " not found in local repository " ++ r.root))
    else
      match ← fs.readText path "POM" pomSizeLimit with
      | .error fault => return .error (.refused fault.message)
      | .ok content => return .ok ⟨path, content⟩

end LocalRepository

end ArtifactGraph
