import MonkeyLexis.FileSystem.Path
import MonkeyLexis.Text.Quoted
import MonkeyLexis.Text.Utf8

/-!
# File trees

Directories hold named nodes and files hold bytes. A path is followed name by
name, from the root or from the working directory; double dots lead back to the
directory above, and the root is above itself. Following or reading fails for one
of five causes. Three of them are checked before anything is followed or when a
name is looked up: a null character in the path, a path too long, a name too long.
A tree grows by files and directories, and every directory on the way is made.

There are no permissions, no links and no devices that fail in the middle of a file,
and so none of the failures to read that come from these.
-/

namespace MonkeyLexis
namespace FileSystem

inductive Node where
  | file (content : Bytes)
  | directory (entries : List (Text × Node))

/-- Why a path yields no content. -/
inductive ReadFailure where
  | notFound
  | isDirectory
  | notDirectory
  | nameTooLong
  | nullInPath
  deriving DecidableEq, Repr

def ReadFailure.message (path : Text) : ReadFailure → Text
  | .notFound => "[Errno 2] No such file or directory: " ++ Quoted.encode path
  | .isDirectory => "[Errno 21] Is a directory: " ++ Quoted.encode path
  | .notDirectory => "[Errno 20] Not a directory: " ++ Quoted.encode path
  | .nameTooLong => "[Errno 36] File name too long: " ++ Quoted.encode path
  | .nullInPath => "embedded null byte"

/-- The greatest number of bytes of a name. -/
def nameLimit : Nat := 255

/-- The greatest number of bytes of a whole path. -/
def pathLimit : Nat := 4095

def byteLength (t : Text) : Nat := (Utf8.encode t).length

namespace Node

/-- The node reached from `here`, whose directories above are `above`, nearest first. -/
def follow (here : Node) (above : List Node) : List Text → Except ReadFailure Node
  | [] => .ok here
  | name :: names =>
    match here with
    | .file _ => .error .notDirectory
    | .directory entries =>
      if name = ['.', '.'] then
        match above with
        | [] => follow here [] names
        | parent :: above => follow parent above names
      else if nameLimit < byteLength name then .error .nameTooLong
      else
        match entries.lookup name with
        | none => .error .notFound
        | some node => follow node (here :: above) names

def content : Node → Except ReadFailure Bytes
  | .file bytes => .ok bytes
  | .directory _ => .error .isDirectory

/-- The entries with the node called `name` changed, or made from an empty directory. -/
def update (name : Text) (change : Node → Node) : List (Text × Node) → List (Text × Node)
  | [] => [(name, change (.directory []))]
  | (other, node) :: entries =>
    if other = name then (other, change node) :: entries
    else (other, node) :: update name change entries

/-- The node with `change` made at the end of `names`; missing directories are made. -/
def changeAt (change : Node → Node) : List Text → Node → Node
  | [], node => change node
  | name :: names, .directory entries => .directory (update name (changeAt change names) entries)
  | name :: names, .file _ => .directory (update name (changeAt change names) [])

end Node

/-- A tree of files and the names that lead from its root to the working directory. -/
structure Tree where
  root : Node
  workingDirectory : List Text

namespace Tree

/-- Nothing but the working directory. -/
def empty (workingDirectory : List Text) : Tree :=
  ⟨Node.changeAt id workingDirectory (.directory []), workingDirectory⟩

def route (tree : Tree) (p : Path) : List Text :=
  if p.isAbsolute then p.names else tree.workingDirectory ++ p.names

/-- The names that lead to the same place without double dots. -/
def direct (names : List Text) : List Text :=
  names.foldl (fun here name => if name = ['.', '.'] then here.dropLast else here ++ [name]) []

/-- The tree with a directory at the end of `names` and at every place on the way there. -/
def withWay (tree : Tree) (names : List Text) : Tree :=
  let ways := (List.range (names.length + 1)).map fun n => direct (names.take n)
  { tree with root := ways.foldl (fun node way => Node.changeAt id way node) tree.root }

def withFile (tree : Tree) (p : Path) (content : Bytes) : Tree :=
  let names := tree.route p
  let tree := tree.withWay names.dropLast
  { tree with root := Node.changeAt (fun _ => .file content) (direct names) tree.root }

def withDirectory (tree : Tree) (p : Path) : Tree := tree.withWay (tree.route p)

def read (tree : Tree) (p : Path) : Except ReadFailure Bytes :=
  if p.text.contains '\x00' then .error .nullInPath
  else if pathLimit < byteLength p.text then .error .nameTooLong
  else (tree.root.follow [] (tree.route p)).bind Node.content

end Tree
end FileSystem
end MonkeyLexis
