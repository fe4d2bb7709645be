import ArtifactGraph.Files

/-!
# File trees

A `FileTree` is a tree of files in memory, with links, on which a run can be tried without a disk.
It answers the questions of `Files` in the way a disk does, with the same reasons when a step
fails.

A place in the tree is the list of the names that lead to it from the root.  `walk` finds the place
that a path leads to; what bounds it is the number of links it may follow.
-/

namespace ArtifactGraph

/-- What a file holds. -/
inductive FileContent where
  | text (s : String)
  | bytes (b : ByteArray)
  /-- So many zero bytes. -/
  | zeros (count : Nat)

namespace FileContent

/-- The size of a content in bytes. -/
def size : FileContent → Nat
  | .text s => s.utf8ByteSize
  | .bytes b => b.size
  | .zeros count => count

/-- The text that a content is in UTF-8. -/
def text? : FileContent → Option String
  | .text s => some s
  | .bytes b => String.fromUTF8? b
  | .zeros count => some (String.ofList (List.replicate count '\x00'))

end FileContent

/-- What stands at a place. -/
inductive TreeNode where
  | file (content : FileContent)
  | directory
  | link (target : String)

/-- A tree of files, and the place where paths start that are not from the root. -/
structure FileTree where
  nodes : List (List String × TreeNode) := []
  current : List String := ["work"]

/-- Why a step in a tree fails. -/
inductive PathFault where
  | missing
  | notDirectory
  | isDirectory
  | nameTooLong
  | tooManyLinks
  /-- The path has a character that no path can have. -/
  | nullCharacter
  | notText
  deriving DecidableEq, Repr

def PathFault.message : PathFault → String
  | .missing => "No such file or directory (os error 2)"
  | .notDirectory => "Not a directory (os error 20)"
  | .isDirectory => "Is a directory (os error 21)"
  | .nameTooLong => "File name too long (os error 36)"
  | .tooManyLinks => "Too many levels of symbolic links (os error 40)"
  | .nullCharacter => "file name contained an unexpected NUL byte"
  | .notText => "stream did not contain valid UTF-8"

namespace FileTree

/-- What stands at a place. The root and the current directory are always there. -/
def node? (t : FileTree) (place : List String) : Option TreeNode :=
  if place.isEmpty || place == t.current then some .directory else t.nodes.lookup place

/-- Puts something at a place. -/
def put (t : FileTree) (place : List String) (node : TreeNode) : FileTree :=
  { t with nodes := (place, node) :: t.nodes }

/-! ## Walks -/

/-- The names of a path, with an empty one at its end if the path ends in a separator. -/
def namesOf (path : String) : List String :=
  let names := Text.splitOnChar FilePath.separator path
  names.dropLast.filter (!·.isEmpty) ++ names.getLast?.toList

/-- Whether a path starts at the root. -/
def isAbsolute (path : String) : Bool := path.toList.head? == some FilePath.separator

/-- Where a path starts. -/
def start (t : FileTree) (path : String) : List String := if isAbsolute path then [] else t.current

/-- The greatest length of a name, in bytes. -/
def nameLimit : Nat := 255

/-- What a walk does at the last name of a path. -/
inductive LastStep where
  /-- A link is the end. -/
  | stay
  /-- A link is followed. -/
  | follow
  /-- A link is followed, and a file is to be written. A separator behind its name is refused. -/
  | write
  deriving DecidableEq, Repr

/-- Whether names are the end of a path that ends in a separator. -/
def isSeparatorEnd (names : List String) : Bool := names == [""]

/-- The place that names lead to from a directory, and what is there; `onLink` goes on from a
directory with the names of a link and those behind it. -/
def walkNames (t : FileTree) (last : LastStep)
    (onLink : List String → List String → Except PathFault (List String × Option TreeNode))
    (here : List String) : List String → Except PathFault (List String × Option TreeNode)
  | [] => .ok (here, t.node? here)
  | name :: rest =>
    if name.isEmpty || name == "." then walkNames t last onLink here rest
    else if name == ".." then walkNames t last onLink here.dropLast rest
    else if last == .write && isSeparatorEnd rest then .error .isDirectory
    else if name.utf8ByteSize > nameLimit then .error .nameTooLong
    else
      let there := here ++ [name]
      match t.node? there with
      | none => if rest.isEmpty then .ok (there, none) else .error .missing
      | some .directory => walkNames t last onLink there rest
      | some (.file content) =>
        if rest.isEmpty then .ok (there, some (.file content)) else .error .notDirectory
      | some (.link target) =>
        if rest.isEmpty && last == .stay then .ok (there, some (.link target))
        else onLink (if isAbsolute target then [] else here) (namesOf target ++ rest)

/-- `walkNames` through a number of links. -/
def walkLinks (t : FileTree) (last : LastStep) :
    Nat → List String → List String → Except PathFault (List String × Option TreeNode)
  | 0 => walkNames t last fun _ _ => .error .tooManyLinks
  | n + 1 => walkNames t last (walkLinks t last n)

/-- The number of links that a path may lead through. -/
def linkLimit : Nat := 40

/-- The length from which on a path is too long, in bytes. -/
def pathLimit : Nat := 4096

/-- The place that a path leads to, and what is there. -/
def walk (t : FileTree) (last : LastStep) (path : String) :
    Except PathFault (List String × Option TreeNode) :=
  if path.isEmpty then .error .missing
  else if path.toList.contains '\x00' then .error .nullCharacter
  else if path.utf8ByteSize ≥ pathLimit then .error .nameTooLong
  else walkLinks t last linkLimit (t.start path) (namesOf path)

/-! ## Steps -/

/-- The status of what stands at a place. -/
def statusOf : TreeNode → FileStatus
  | .file content => .file content.size
  | .directory => .directory
  | .link _ => .link

/-- The status of what a path leads to. -/
def statusAt (t : FileTree) (last : LastStep) (path : String) : Except PathFault FileStatus :=
  match t.walk last path with
  | .error fault => .error fault
  | .ok (_, none) => .error .missing
  | .ok (_, some node) => .ok (statusOf node)

/-- The text of the file that a path leads to. -/
def read (t : FileTree) (path : String) : Except PathFault String :=
  match t.walk .follow path with
  | .error fault => .error fault
  | .ok (_, none) => .error .missing
  | .ok (_, some (.file content)) =>
    match content.text? with
    | some text => .ok text
    | none => .error .notText
  | .ok (_, some _) => .error .isDirectory

/-- Writes the file that a path leads to. -/
def write (t : FileTree) (path : String) (content : FileContent) : Except PathFault FileTree :=
  match t.walk .write path with
  | .ok (_, some .directory) => .error .isDirectory
  | .ok (place, _) => .ok (t.put place (.file content))
  | .error fault => .error fault

/-- Makes a directory of a name in a place, if nothing is there, and gives the place that the name
leads to. -/
def enter (t : FileTree) (here : List String) (name : String) : FileTree × List String :=
  match walkLinks t .follow linkLimit here [name] with
  | .ok (there, none) => (t.put there .directory, there)
  | .ok (there, some _) => (t, there)
  | .error _ => (t, here ++ [name])

/-- Makes a directory and those it is in. -/
def makeDirectories (t : FileTree) (path : String) : FileTree :=
  ((namesOf path).foldl (fun (t, here) name => enter t here name) (t, t.start path)).1

/-- Makes the directory that a path is in. -/
def makeParents (t : FileTree) (path : String) : FileTree :=
  match FilePath.parent? path with
  | none => t
  | some parent => t.makeDirectories parent

/-- Makes a link at a path. -/
def link (t : FileTree) (path target : String) : Except PathFault FileTree :=
  (t.walk .stay path).map fun (place, _) => t.put place (.link target)

end FileTree

end ArtifactGraph
