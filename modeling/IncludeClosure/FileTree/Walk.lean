import IncludeClosure.FileTree.Basic
/-!
# FileTree.Walk — from a path to a node

A path is walked piece by piece from the root or the working directory.  Every piece, also an empty one or a `.`, has
to be taken in a directory, so a trailing slash asks for a directory.  A link is replaced by its target, in front of
the pieces that are left; after forty links the walk gives up, which is why it ends.
-/
namespace IncludeClosure
namespace FileTree

/-- How far a walk comes without following a link. -/
inductive Leg where
  | arrived (position : Position) (node : Node)
  | redirected (start : Position) (target : Path) (rest : List (List Char))
  | refused (error : OsError)
deriving DecidableEq

def longestName : Nat := 255

def longestPath : Nat := 4095

def mostLinks : Nat := 40

/-- **Walk until the pieces are used up,** a link is met or a piece cannot be taken. -/
def walkLeg (t : FileTree) : Position → Node → List (List Char) → Leg
  | position, node, [] => .arrived position node
  | position, node, piece :: rest =>
    match node with
    | .directory =>
      match Component.ofPiece? piece with
      | some .parent => walkLeg t position.dropLast .directory rest
      | some (.name name) =>
        if longestName < name.utf8ByteSize then .refused .nameTooLong
        else match t.node? (position ++ [name]) with
          | none => .refused .notFound
          | some (.link target) => .redirected position target rest
          | some next => walkLeg t (position ++ [name]) next rest
      | _ => walkLeg t position .directory rest
    | _ => .refused .notDirectory

def startOf (here : Position) (p : Path) : Position :=
  if p.isAbsolute then [] else here

/-- **Walk and follow links,** at most `links` of them. -/
def follow (t : FileTree) : Nat → Position → List (List Char) → Except OsError (Position × Node)
  | links, start, path =>
    match t.walkLeg start .directory path with
    | .arrived position node => .ok (position, node)
    | .refused error => .error error
    | .redirected here target rest =>
      match links with
      | 0 => .error .tooManyLinks
      | links + 1 => follow t links (startOf here target) (Path.pieces target.text.toList ++ rest)

/-- **The node that a path names,** links followed. -/
def find (t : FileTree) (p : Path) : Except OsError (Position × Node) :=
  if '\x00' ∈ p.text.toList then .error .embeddedNul
  else if p.text.isEmpty then .error .notFound
  else if longestPath < p.text.utf8ByteSize then .error .nameTooLong
  else t.follow mostLinks (startOf t.workingDirectory p) (Path.pieces p.text.toList)

end FileTree
end IncludeClosure
