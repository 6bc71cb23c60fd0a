import IncludeClosure.FileTree.OsError
import IncludeClosure.Path.Basic
import IncludeClosure.Text.Utf8
/-!
# FileTree — a file system held in memory

A tree holds its nodes by position, the names on the way down from the root.  The root is always a directory and is
not listed.
-/
namespace IncludeClosure

/-- The names on the way from the root to a node. -/
abbrev Position := List String

/-- A regular file. -/
structure File where
  bytes : Bytes
  modified : Int
  /-- Why the bytes cannot be read, if they cannot; the file is there all the same. -/
  fault : Option OsError := none
deriving DecidableEq, Repr

/-- What stands at a position. -/
inductive Node where
  | directory
  | file (content : File)
  | link (target : Path)
deriving DecidableEq, Repr

/-- A file system and the directory that relative paths start from. -/
structure FileTree where
  nodes : List (Position × Node)
  workingDirectory : Position
deriving DecidableEq, Repr

namespace FileTree

def empty : FileTree :=
  { nodes := [], workingDirectory := [] }

def node? (t : FileTree) : Position → Option Node
  | [] => some .directory
  | position => (t.nodes.find? (·.1 == position)).map (·.2)

def put (t : FileTree) (position : Position) (node : Node) : FileTree :=
  { t with nodes := (position, node) :: t.nodes.filter (·.1 != position) }

def prune (t : FileTree) (position : Position) : FileTree :=
  { t with nodes := t.nodes.filter (fun entry => !position.isPrefixOf entry.1) }

end FileTree
end IncludeClosure
