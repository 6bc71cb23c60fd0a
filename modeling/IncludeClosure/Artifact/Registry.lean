import IncludeClosure.Artifact.RootSet
/-!
# Artifact.Registry — roots that are shared

All artifacts below a root share it.  A registry keeps the roots as they are shared: each has a number, which tells it
from every other root that was ever made, also from an equal one.  Whoever registers a root gets the one that is kept; a
new one is kept at the end, and then all are sorted, the deepest first.  Without the numbers a registry is a `RootSet`.
-/
namespace IncludeClosure

/-- A root as it is shared. -/
structure SharedRoot where
  number : Nat
  root : ArtifactRoot
deriving DecidableEq

/-- The roots that are kept and the number of roots ever made. -/
structure Registry where
  shared : List SharedRoot
  made : Nat
deriving DecidableEq

namespace Registry

def empty : Registry :=
  { shared := [], made := 0 }

/-- Whether `a` may stand before `b`. -/
def deepestFirst (a b : SharedRoot) : Bool :=
  b.root.path.depth ≤ a.root.path.depth

/-- **Register a root,** and give the one that is kept. -/
def add (r : Registry) (root : ArtifactRoot) : SharedRoot × Registry :=
  match r.shared.find? (·.root == root) with
  | some kept => (kept, r)
  | none =>
    let fresh := { number := r.made, root }
    (fresh, { shared := (r.shared ++ [fresh]).mergeSort deepestFirst, made := r.made + 1 })

def addAll (r : Registry) (roots : List ArtifactRoot) : Registry :=
  roots.foldl (fun r root => (r.add root).2) r

def ofList (roots : List ArtifactRoot) : Registry :=
  empty.addAll roots

/-- **The first root that contains `path`.** -/
def find? (r : Registry) (path : Path) : Option SharedRoot :=
  r.shared.find? (fun kept => path.startsWith kept.root.path)

def roots (r : Registry) : List ArtifactRoot :=
  r.shared.map (·.root)

end Registry
end IncludeClosure
