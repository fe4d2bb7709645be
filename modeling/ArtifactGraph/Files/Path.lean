import ArtifactGraph.Text

/-!
# Paths of files

A path is a text whose names are separated by `/`.  It is used as the user wrote it: `join` puts a
name behind it, and `parent?` cuts its last name off, and neither cleans up what stands before.
-/

namespace ArtifactGraph.FilePath

/-- What separates the names of a path. -/
def separator : Char := '/'

/-- A path with a name behind it. An absolute name stands for itself. -/
def join (path name : String) : String :=
  if name.toList.head? == some separator then name
  else if path.isEmpty || path.toList.getLast? == some separator then path ++ name
  else path ++ "/" ++ name

/-- A path, last character first, without the separators and the single dots at its end. What is
left of a path from the root is at least the root. -/
def trimEnd : List Char → List Char
  | '/' :: rest => if rest.isEmpty then ['/'] else trimEnd rest
  | '.' :: '/' :: rest => if rest.isEmpty then ['/'] else trimEnd rest
  | cs => cs

/-- The path without its last name; the empty path and the root have none. -/
def parent? (path : String) : Option String :=
  match trimEnd path.toList.reverse with
  | [] => none
  | ['/'] => none
  | cs => some (String.ofList (trimEnd (cs.dropWhile (· != separator))).reverse)

end ArtifactGraph.FilePath
