import IncludeClosure.FileTree.Walk
import IncludeClosure.Path.Normal
/-!
# FileTree.Edit — changing a tree

Files, directories and links are put at a path, whose missing directories are made; a path is removed with all that
lies below it.
-/
namespace IncludeClosure
namespace FileTree

/-- Make the directories on the way down from `here` that are missing; links on the way are followed. -/
def makeDirectories (t : FileTree) (here : Position) : List String → FileTree × Position
  | [] => (t, here)
  | name :: rest =>
    match t.find (.ofComponents (.root :: (here ++ [name]).map .name)) with
    | .ok (position, .directory) => makeDirectories t position rest
    | _ => makeDirectories (t.put (here ++ [name]) .directory) (here ++ [name]) rest

def namesOf (p : Path) : List String :=
  p.components.filterMap fun
    | .name text => some text
    | _ => none

def addDirectory (t : FileTree) (p : Path) : FileTree :=
  (t.makeDirectories [] (namesOf p.normalize)).1

/-- Put a node at a path, in directories that are made when they are missing. -/
def addNode (t : FileTree) (p : Path) (node : Node) : FileTree :=
  let names := namesOf p.normalize
  match names.getLast? with
  | none => t
  | some name =>
    let (made, here) := t.makeDirectories [] names.dropLast
    made.put (here ++ [name]) node

/-- **Where a file that is written to `p` goes,** `p` being seen from the directory `here`: to the path itself, or where
the link that stands there leads, whether anything is there or not; at most `links` links are followed.  The directory
has to be there, and a directory is no place for a file. -/
def placeFrom (t : FileTree) : Nat → Position → Path → Option Position
  | links, here, p =>
    let pieces := Path.pieces p.text.toList
    match Component.ofPiece? (pieces.getLast?.getD []), t.follow mostLinks (startOf here p) pieces.dropLast with
    | some (.name name), .ok (directory, .directory) =>
      match t.node? (directory ++ [name]), links with
      | none, _ | some (.file _), _ => some (directory ++ [name])
      | some (.link target), links + 1 => placeFrom t links directory target
      | _, _ => none
    | _, _ => none

/-- **Write a file,** in directories that are made when they are missing. -/
def write (t : FileTree) (p : Path) (file : File) : FileTree :=
  let p := p.normalize
  let made := (t.makeDirectories [] (namesOf p).dropLast).1
  match made.placeFrom mostLinks t.workingDirectory p with
  | some position => made.put position (.file file)
  | none => made

def addLink (t : FileTree) (p target : Path) : FileTree :=
  t.addNode p (.link target)

/-- **Remove what stands at a path,** with all below it; a link goes, not what it leads to. -/
def delete (t : FileTree) (p : Path) : FileTree :=
  let names := namesOf p.normalize
  match names.getLast?, t.find (.ofComponents (.root :: names.dropLast.map .name)) with
  | some name, .ok (here, _) => t.prune (here ++ [name])
  | _, _ => t

end FileTree
end IncludeClosure
