import IncludeClosure.Artifact.Root
/-!
# Artifact — files named by a root and a relative path

An artifact is the identity that a build gives a file.  Where the file lies is `root.path` joined with `rel`.
-/
namespace IncludeClosure

structure Artifact where
  root : ArtifactRoot
  rel : Path
  rel_normal : rel.normalize = rel

namespace Artifact

instance : DecidableEq Artifact := fun a b =>
  decidable_of_iff (a.root = b.root ∧ a.rel = b.rel)
    ⟨fun ⟨hr, hp⟩ => by cases a; cases b; cases hr; cases hp; rfl, by rintro rfl; exact ⟨rfl, rfl⟩⟩

def under (root : ArtifactRoot) (rel : Path) : Artifact :=
  { root, rel := rel.normalize, rel_normal := rel.normalize_normalize }

/-- The root of the whole file system, or of nothing when `path` is relative. -/
def topOf (path : Path) : Path :=
  if path.isAbsolute then ⟨"/"⟩ else ⟨""⟩

/-- **The artifact of a path that no root contains:** a source below the file system itself. -/
def absolute (path : Path) : Artifact :=
  let path := path.normalize
  under (.mount (topOf path) .source) ((path.below? (topOf path)).getD path)

/-- **Where the file lies.** -/
def path (a : Artifact) : Path :=
  a.root.path.join a.rel

def isSource (a : Artifact) : Bool :=
  a.root.kind = .source

/-- Two artifacts below one root with the components of one path are one artifact. -/
theorem eq_of_components {a b : Artifact} (hr : a.root = b.root) (hp : a.rel.components = b.rel.components) :
    a = b := by
  obtain ⟨r, p, hp'⟩ := a
  obtain ⟨s, q, hq'⟩ := b
  have e : p = q := Path.eq_of_normal hp' hq' hp
  cases e; cases hr; rfl

def order : Artifact → Artifact → Ordering :=
  compareLex (Sorted.onKey root ArtifactRoot.order) (Sorted.onKey rel Path.order)

instance : Std.TransCmp order :=
  inferInstanceAs (Std.TransCmp (compareLex (Sorted.onKey root ArtifactRoot.order) (Sorted.onKey rel Path.order)))

instance : Std.LawfulEqCmp order where
  eq_of_compare h :=
    have ⟨hr, hp⟩ := Ordering.then_eq_eq.1 h
    have hr := @Std.LawfulEqCmp.eq_of_compare _ ArtifactRoot.order _ _ _ hr
    eq_of_components hr (Path.order_eq_iff.1 hp)

end Artifact
end IncludeClosure
