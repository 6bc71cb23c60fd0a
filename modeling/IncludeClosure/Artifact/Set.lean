import IncludeClosure.Artifact.Basic
/-!
# Artifact.Set — sets of artifacts and tables keyed by artifacts

A set of artifacts is a strictly increasing list in artifact order, so two sets with the same members are the same
list.  Generated files are a table from the artifact to the place where it is written.
-/
namespace IncludeClosure

/-- A set of artifacts, in artifact order. -/
structure ArtifactSet where
  toList : List Artifact
  increasing : Sorted.Increasing Artifact.order toList
deriving DecidableEq

namespace ArtifactSet

def empty : ArtifactSet :=
  { toList := [], increasing := .nil }

def insert (s : ArtifactSet) (a : Artifact) : ArtifactSet :=
  { toList := Sorted.insert Artifact.order a s.toList, increasing := Sorted.increasing_insert a s.increasing }

def ofList (artifacts : List Artifact) : ArtifactSet :=
  artifacts.foldl insert empty

instance : Membership Artifact ArtifactSet where
  mem s a := a ∈ s.toList

instance (a : Artifact) (s : ArtifactSet) : Decidable (a ∈ s) :=
  inferInstanceAs (Decidable (a ∈ s.toList))

theorem mem_toList {a : Artifact} {s : ArtifactSet} : a ∈ s.toList ↔ a ∈ s := Iff.rfl

@[simp] theorem notMem_empty (a : Artifact) : a ∉ empty := List.not_mem_nil

@[simp] theorem mem_insert {a b : Artifact} {s : ArtifactSet} : a ∈ s.insert b ↔ a = b ∨ a ∈ s :=
  Sorted.mem_insert b a s.toList

end ArtifactSet

/-- **Generated files:** artifacts that may be included before they exist, each with the path where it is written. -/
abbrev GeneratedFiles := SortedTable Artifact.order Path

namespace GeneratedFiles

def none : GeneratedFiles :=
  .empty

/-- Declare a generated file; an earlier declaration of the same artifact is replaced. -/
def declare (g : GeneratedFiles) (a : Artifact) (written : Path) : GeneratedFiles :=
  g.set a written

def written? (g : GeneratedFiles) (a : Artifact) : Option Path :=
  (g.entries.find? (·.1 == a)).map (·.2)

def lyingAt? (g : GeneratedFiles) (path : Path) : Option Artifact :=
  (g.entries.find? (·.1.path.same path)).map (·.1)

end GeneratedFiles
end IncludeClosure
