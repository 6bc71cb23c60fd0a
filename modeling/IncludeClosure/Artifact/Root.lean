import IncludeClosure.Path.Normal
import IncludeClosure.Path.Order
/-!
# Artifact.Root — the mount points of files

A root is a directory in normal form and the kind of tree that it mounts.  A root without a parent is the file system
itself (or no place at all): what lies under it can only be named by absolute path.
-/
namespace IncludeClosure

inductive RootKind where
  | source
  | output
deriving DecidableEq, Repr, Inhabited

namespace RootKind

def label : RootKind → String
  | source => "source"
  | output => "output"

def ofLabel? (label : String) : Option RootKind :=
  [source, output].find? (·.label == label)

/-- Where a kind stands among the kinds: sources come before outputs. -/
def rank : RootKind → Nat
  | source => 0
  | output => 1

def order : RootKind → RootKind → Ordering :=
  compareOn rank

instance : Std.TransCmp order :=
  inferInstanceAs (Std.TransCmp (compareOn rank))

theorem order_eq_iff {a b : RootKind} : order a b = .eq ↔ a = b := by
  cases a <;> cases b <;> decide

end RootKind

structure ArtifactRoot where
  path : Path
  kind : RootKind
  path_normal : path.normalize = path
deriving DecidableEq

namespace ArtifactRoot

def mount (path : Path) (kind : RootKind) : ArtifactRoot :=
  { path := path.normalize, kind, path_normal := path.normalize_normalize }

def hasParent (root : ArtifactRoot) : Bool :=
  root.path.parent?.isSome

/-- Two roots with the components of one path and one kind are one root. -/
theorem eq_of_components {a b : ArtifactRoot} (hp : a.path.components = b.path.components) (hk : a.kind = b.kind) :
    a = b := by
  obtain ⟨p, k, hp'⟩ := a
  obtain ⟨q, l, hq'⟩ := b
  have e : p = q := Path.eq_of_normal hp' hq' hp
  cases e; cases hk; rfl

def order : ArtifactRoot → ArtifactRoot → Ordering :=
  compareLex (Sorted.onKey path Path.order) (Sorted.onKey kind RootKind.order)

instance : Std.TransCmp order :=
  inferInstanceAs (Std.TransCmp (compareLex (Sorted.onKey path Path.order) (Sorted.onKey kind RootKind.order)))

instance : Std.LawfulEqCmp order where
  eq_of_compare h :=
    have ⟨hp, hk⟩ := Ordering.then_eq_eq.1 h
    eq_of_components (Path.order_eq_iff.1 hp) (RootKind.order_eq_iff.1 hk)

end ArtifactRoot
end IncludeClosure
