import ArtifactGraph.NameMap
import ArtifactGraph.Repository.Remote

/-!
# Repositories of a run

A run looks for a POM in a local repository first and then in remote ones, in the order in which
they are named.  What a remote repository has is asked for once.
-/

namespace ArtifactGraph

/-- A place where POMs are. -/
inductive Repository where
  | local (r : LocalRepository)
  | remote (r : RemoteRepository)
  deriving DecidableEq, Repr

/-- Which repositories a run uses. -/
structure RepositorySettings where
  /-- The directory of the local repository, if it is not the user's own. -/
  localRoot : Option String := none
  remoteUrls : List String := []
  /-- Without a network only the local repository is used. -/
  offline : Bool := false
  deriving DecidableEq, Repr

namespace Repository

/-- The user's own local repository, if the environment names a home directory. -/
def defaultRoot (environment : Bindings) : Option String :=
  ((environment.get? "HOME").or (environment.get? "USERPROFILE")).map LocalRepository.rootIn

/-- The locators of remote repositories. -/
def remoteLocators : List String → Except String (List (Locator Repository))
  | [] => .ok []
  | url :: rest =>
    match RemoteRepository.ofUrl url with
    | .error reason => .error reason
    | .ok r => (remoteLocators rest).map (.cached [] (.source (.remote r)) :: ·)

/-- The locators that a run asks one after the other. -/
def locators (s : RepositorySettings) (environment : Bindings) :
    Except String (List (Locator Repository)) :=
  let first := match s.localRoot.or (defaultRoot environment) with
    | none => []
    | some root => [.source (.local ⟨root⟩)]
  if s.offline then .ok first else (remoteLocators s.remoteUrls).map (first ++ ·)

variable {m : Type → Type} [Monad m]

/-- Finds a POM in a repository. -/
def locate (fs : Files m) (net : Network m) : Repository → Locate m
  | .local r => r.locate fs
  | .remote r => r.locate net

end Repository

end ArtifactGraph
