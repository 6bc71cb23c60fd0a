import IncludeClosure.Artifact.Basic
/-!
# Artifact.RootSet — which root a path belongs to

The roots of a build are kept deepest first, so the first root that contains a path is the deepest one.  Among roots
of one depth the earlier registered comes first.
-/
namespace IncludeClosure

structure RootSet where
  roots : List ArtifactRoot
  deepestFirst : roots.Pairwise (fun a b => b.path.depth ≤ a.path.depth)
  nodup : roots.Nodup
deriving DecidableEq

namespace RootSet

def empty : RootSet :=
  { roots := [], deepestFirst := .nil, nodup := .nil }

def insertByDepth (root : ArtifactRoot) : List ArtifactRoot → List ArtifactRoot
  | [] => [root]
  | r :: rest => if r.path.depth < root.path.depth then root :: r :: rest else r :: insertByDepth root rest

theorem perm_insertByDepth (root : ArtifactRoot) : ∀ roots, (insertByDepth root roots).Perm (root :: roots)
  | [] => .refl _
  | r :: rest => by
    unfold insertByDepth
    split
    · exact .refl _
    · exact ((perm_insertByDepth root rest).cons r).trans (.swap root r rest)

theorem deepestFirst_insertByDepth (root : ArtifactRoot) : ∀ {roots : List ArtifactRoot},
    roots.Pairwise (fun a b => b.path.depth ≤ a.path.depth) →
    (insertByDepth root roots).Pairwise (fun a b => b.path.depth ≤ a.path.depth)
  | [], _ => List.pairwise_singleton _ root
  | r :: rest, h => by
    obtain ⟨hr, hs⟩ := List.pairwise_cons.1 h
    unfold insertByDepth
    split
    · rename_i hlt
      refine List.pairwise_cons.2 ⟨fun x hx => ?_, h⟩
      rcases List.mem_cons.1 hx with rfl | hx
      · exact Nat.le_of_lt hlt
      · exact Nat.le_trans (hr x hx) (Nat.le_of_lt hlt)
    · rename_i hge
      refine List.pairwise_cons.2 ⟨fun x hx => ?_, deepestFirst_insertByDepth root hs⟩
      rcases List.mem_cons.1 ((perm_insertByDepth root rest).mem_iff.1 hx) with rfl | hx
      · exact Nat.not_lt.1 hge
      · exact hr x hx

/-- **Register a root.**  A root that is registered already stays where it is. -/
def add (s : RootSet) (root : ArtifactRoot) : RootSet :=
  if h : root ∈ s.roots then s
  else
    { roots := insertByDepth root s.roots
      deepestFirst := deepestFirst_insertByDepth root s.deepestFirst
      nodup := (perm_insertByDepth root s.roots).nodup_iff.2 (List.nodup_cons.2 ⟨h, s.nodup⟩) }

def ofList (roots : List ArtifactRoot) : RootSet :=
  roots.foldl add empty

/-- **The deepest root that contains `path`,** the earliest registered one of them. -/
def find? (s : RootSet) (path : Path) : Option ArtifactRoot :=
  s.roots.find? (fun root => path.startsWith root.path)

/-- **The artifact at `path`:** below the deepest root that contains its normal form, or below the file system. -/
def resolve (s : RootSet) (path : Path) : Artifact :=
  let path := path.normalize
  match s.find? path with
  | some root =>
    match path.below? root.path with
    | some rel => .under root rel
    | none => .absolute path
  | none => .absolute path

end RootSet
end IncludeClosure
