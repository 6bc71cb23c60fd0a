import IncludeClosure.Proofs.Artifact.Owner
/-!
# Proofs.Artifact.Faithful — an artifact stands for one normal form

Resolving a path takes it apart, below the root that owns it or below the file system itself, and where the artifact
lies is put together again.  Nothing is lost on the way, whatever the roots are: the root of the file system, the empty
path, a chain of `..` or the path itself.  So an artifact and the normal form of a path determine each other
(`RootSet.resolve_eq_iff`).
-/
namespace IncludeClosure

/-- The root of an artifact outside every root is a source, and nothing is above it. -/
theorem Artifact.root_absolute (p : Path) :
    (Artifact.absolute p).root.kind = .source ∧ (Artifact.absolute p).root.hasParent = false := by
  refine ⟨rfl, ?_⟩
  show (ArtifactRoot.mount (topOf p.normalize) .source).hasParent = false
  unfold topOf
  split
  · decide
  · decide

theorem Artifact.absolute_normalize (p : Path) : Artifact.absolute p.normalize = Artifact.absolute p := by
  unfold absolute
  rw [p.normalize_normalize]

namespace RootSet

variable {s : RootSet} {p q : Path}

theorem resolve_of_outside (outside : s.find? p.normalize = none) : s.resolve p = .absolute p := by
  unfold resolve
  dsimp only
  rw [outside]
  exact Artifact.absolute_normalize p

/-- **The root that is found owns the path,** among the roots as they are kept. -/
theorem owns_of_find? {root : ArtifactRoot} (found : s.find? p = some root) : ArtifactRoot.Owns s.roots p root := by
  obtain ⟨inside, before, after, kept, missed⟩ := List.find?_eq_some_iff_append.1 found
  refine ⟨inside, before, after, kept, fun r mem above => ?_, fun r mem above => ?_⟩
  · have none := missed r mem
    rw [above] at none
    exact absurd none (by decide)
  · exact depth_le_of_find? found (kept ▸ List.mem_append_right _ (List.mem_cons_of_mem _ mem)) above

/-- **Two paths have one artifact just when they have one normal form.** -/
theorem resolve_eq_iff : s.resolve p = s.resolve q ↔ p.normalize = q.normalize := by
  constructor
  · intro same
    have components : p.normalize.components = q.normalize.components := by
      rw [← s.components_path_resolve p, same, s.components_path_resolve q]
    exact Path.eq_of_normal p.normalize_normalize q.normalize_normalize components
  · intro same
    unfold resolve
    rw [same]

/-- **Resolving a path loses nothing.**  The artifact lies at the normal form of the path, it is the artifact at its own
path, and other paths have it just when they have that normal form.  Its root is the one that owns the normal form, the
deepest of those that contain it; a path that no root contains has an artifact under a source without a parent. -/
theorem resolve_faithful (s : RootSet) (p q : Path) :
    (s.resolve p).path.components = p.normalize.components ∧
    s.resolve (s.resolve p).path = s.resolve p ∧
    (s.resolve p = s.resolve q ↔ p.normalize = q.normalize) ∧
    ((∃ root ∈ s.roots, p.normalize.startsWith root.path = true) →
      ArtifactRoot.Owns s.roots p.normalize (s.resolve p).root) ∧
    ((∀ root ∈ s.roots, p.normalize.startsWith root.path = false) →
      s.resolve p = .absolute p ∧ (s.resolve p).root.kind = .source ∧ (s.resolve p).root.hasParent = false) := by
  refine ⟨s.components_path_resolve p, s.resolve_path_resolve p, resolve_eq_iff, fun ⟨root, mem, inside⟩ => ?_,
    fun outside => ?_⟩
  · cases found : s.find? p.normalize with
    | none => exact absurd inside (List.find?_eq_none.1 found root mem)
    | some owner =>
      obtain ⟨rel, -, named, -⟩ := resolve_eq found
      rw [named]
      exact owns_of_find? found
  · have none : s.find? p.normalize = none := List.find?_eq_none.2 fun root mem => by simp [outside root mem]
    rw [resolve_of_outside none]
    exact ⟨rfl, Artifact.root_absolute p⟩

end RootSet

/-! ## Roots that are hardly directories -/

namespace Sample

/-- The root of the file system, the empty path, a chain of `..`, and a root that is a file. -/
def oddRoots : RootSet :=
  .ofList [.mount ⟨"/"⟩ .source, .mount ⟨""⟩ .output, .mount ⟨"../.."⟩ .source, .mount ⟨"/w/a.h"⟩ .output]

end Sample

theorem RootSet.resolve_faithful_oddRoots :
    (∃ root ∈ Sample.oddRoots.roots, (Path.mk "/w//x/../a.h/").normalize.startsWith root.path = true) ∧
    (Sample.oddRoots.resolve ⟨"/w//x/../a.h/"⟩).root = .mount ⟨"/w/a.h"⟩ .output ∧
    (Sample.oddRoots.resolve ⟨"/w//x/../a.h/"⟩).path = ⟨"/w/a.h/"⟩ ∧
    Sample.oddRoots.resolve ⟨"/w//x/../a.h/"⟩ = Sample.oddRoots.resolve ⟨"/./w/a.h"⟩ ∧
    Sample.oddRoots.resolve ⟨"../x/../../../b.h"⟩ ≠ Sample.oddRoots.resolve ⟨"../../b.h"⟩ ∧
    (∀ root ∈ (empty.add (.mount ⟨"/w"⟩ .source)).roots, (Path.mk "/usr/./c.h").normalize.startsWith root.path = false) ∧
    (empty.add (.mount ⟨"/w"⟩ .source)).resolve ⟨"/usr/./c.h"⟩ = .absolute ⟨"/usr/./c.h"⟩ := by
  have inside : ∃ root ∈ Sample.oddRoots.roots, (Path.mk "/w//x/../a.h/").normalize.startsWith root.path = true := by
    decide
  obtain ⟨-, -, same, owned, -⟩ := RootSet.resolve_faithful Sample.oddRoots ⟨"/w//x/../a.h/"⟩ ⟨"/./w/a.h"⟩
  obtain ⟨-, -, apart, -⟩ := RootSet.resolve_faithful Sample.oddRoots ⟨"../x/../../../b.h"⟩ ⟨"../../b.h"⟩
  have outside : ∀ root ∈ (empty.add (.mount ⟨"/w"⟩ .source)).roots,
      (Path.mk "/usr/./c.h").normalize.startsWith root.path = false := by
    decide
  obtain ⟨-, -, -, -, absolute⟩ :=
    RootSet.resolve_faithful (empty.add (.mount ⟨"/w"⟩ .source)) ⟨"/usr/./c.h"⟩ ⟨"/usr/./c.h"⟩
  refine ⟨inside, ?_, by decide, same.2 (by decide), fun e => absurd (apart.1 e) (by decide), outside,
    (absolute outside).1⟩
  have file : ArtifactRoot.Owns Sample.oddRoots.roots (Path.mk "/w//x/../a.h/").normalize
      (.mount ⟨"/w/a.h"⟩ .output) := by
    refine RootSet.owns_of_find? (s := Sample.oddRoots) ?_
    decide
  exact (owned inside).unique file

end IncludeClosure
