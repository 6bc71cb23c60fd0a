/-!
# Path — paths and their components

A path is a text; what it means is its list of components.  Repeated slashes, inner `.` and trailing slashes name no
component, so two spellings can have one list.  Answers show spellings, so `text` is kept as it was given; everything
that compares, orders or searches goes through `components`.
-/
namespace IncludeClosure

inductive Component where
  | root
  /-- A leading `.` of a relative path. -/
  | current
  | parent
  | name (text : String)
deriving DecidableEq, Repr, Inhabited

structure Path where
  text : String
deriving DecidableEq, Repr, Inhabited

namespace Component

def text : Component → String
  | root => ""
  | current => "."
  | parent => ".."
  | name text => text

/-- **The component that a piece between slashes is,** if it is one: nothing and `.` are none. -/
def ofPiece? : List Char → Option Component
  | [] => none
  | ['.'] => none
  | ['.', '.'] => some parent
  | piece => some (name (String.ofList piece))

end Component

namespace Path

/-- The pieces of a text between its slashes; a text without a slash is one piece. -/
def pieces : List Char → List (List Char)
  | [] => [[]]
  | c :: rest =>
    if c = '/' then [] :: pieces rest
    else match pieces rest with
      | [] => [[c]]
      | piece :: others => (c :: piece) :: others

def joinPieces : List (List Char) → List Char
  | [] => []
  | [piece] => piece
  | piece :: others => piece ++ '/' :: joinPieces others

/-- The component that stands for how a path begins: a slash, a `.` or neither. -/
def leading (text : List Char) : List Component :=
  if text.head? = some '/' then [.root]
  else if (pieces text).head? = some ['.'] then [.current]
  else []

/-- **The components of a path.** -/
def components (p : Path) : List Component :=
  leading p.text.toList ++ (pieces p.text.toList).filterMap Component.ofPiece?

def ofComponents : List Component → Path
  | [.root] => ⟨"/"⟩
  | components => ⟨String.ofList (joinPieces (components.map (·.text.toList)))⟩

/-- **Two spellings of one path:** equal component by component. -/
def same (p q : Path) : Bool :=
  p.components == q.components

def isAbsolute (p : Path) : Bool :=
  p.text.toList.head? = some '/'

/-- **`other`, seen from `base`.**  An absolute path is itself; a relative one is written after `base` and a slash,
unless `base` is empty or ends in one.  Joining the empty path leaves a trailing slash. -/
def join (base other : Path) : Path :=
  if other.isAbsolute then other
  else match base.text.toList.getLast? with
    | none => other
    | some '/' => ⟨base.text ++ other.text⟩
    | some _ => ⟨base.text ++ "/" ++ other.text⟩

/-- **The path without its last component;** the root and the empty path have none. -/
def parent? (p : Path) : Option Path :=
  match p.components.getLast? with
  | none | some .root => none
  | some _ => some (ofComponents p.components.dropLast)

/-- **Whether `p` lies at or below `front`,** component by component.  The empty path is above every path. -/
def startsWith (p front : Path) : Bool :=
  front.components.isPrefixOf p.components

/-- What is left of `p` below `front`, if it lies there. -/
def below? (p front : Path) : Option Path :=
  if p.startsWith front then some (ofComponents (p.components.drop front.components.length)) else none

def depth (p : Path) : Nat :=
  p.components.length

end Path
end IncludeClosure
