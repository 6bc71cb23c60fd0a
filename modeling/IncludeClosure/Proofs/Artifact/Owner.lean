import IncludeClosure.Proofs.Artifact.Relocate
/-!
# Proofs.Artifact.Owner — the root that a path belongs to, in the order of registration

A set of roots keeps no record of the order in which they were registered, but that order decides: the root found for a
path contains it, every root before it that does is shallower, and none after it is deeper (`ArtifactRoot.Owns`).
There is at most one such root among the registered ones (`Owns.unique`).  What a registration does to the answer is
one step (`RootSet.find?_add`), and a whole list of registrations finds the owner (`RootSet.find?_ofList_eq_some_iff`)
or leaves the path outside every root (`RootSet.find?_ofList_eq_none_iff`).
-/
namespace IncludeClosure

/-- Below a path with a parent every path has one. -/
theorem Path.parent?_isSome_of_startsWith {p front : Path} (below : p.startsWith front = true)
    (parent : front.parent?.isSome = true) : p.parent?.isSome = true := by
  obtain ⟨rest, e⟩ := List.isPrefixOf_iff_prefix.1 below
  cases last : rest.getLast? with
  | none =>
    rw [List.getLast?_eq_none_iff.1 last, List.append_nil] at e
    unfold parent? at parent ⊢
    rwa [← e]
  | some c =>
    have filled : front.components ≠ [] := by
      intro empty
      unfold parent? at parent
      rw [empty] at parent
      cases parent
    have inner := inner_of_append e.symm filled c (List.mem_of_getLast? last)
    unfold parent?
    rw [← e, List.getLast?_append, last]
    split
    · contradiction
    · rename_i root
      exact absurd (Option.some.inj root) inner.ne_root
    · rfl

namespace ArtifactRoot

/-- **The owner of a path among roots,** listed as they are registered: the deepest of those that contain it, and of two
at one depth the earlier. -/
def Owns (roots : List ArtifactRoot) (p : Path) (root : ArtifactRoot) : Prop :=
  p.startsWith root.path = true ∧ ∃ before after, roots = before ++ root :: after ∧
    (∀ r ∈ before, p.startsWith r.path = true → r.path.depth < root.path.depth) ∧
    ∀ r ∈ after, p.startsWith r.path = true → r.path.depth ≤ root.path.depth

namespace Owns

variable {roots : List ArtifactRoot} {p : Path} {root root' : ArtifactRoot}

theorem mem (h : Owns roots p root) : root ∈ roots := by
  obtain ⟨-, before, after, rfl, -⟩ := h
  exact List.mem_append_right _ List.mem_cons_self

/-- No registered root that contains the path is deeper than its owner. -/
theorem depth_le (h : Owns roots p root) : ∀ r ∈ roots, p.startsWith r.path = true → r.path.depth ≤ root.path.depth := by
  obtain ⟨-, before, after, rfl, shallower, deepest⟩ := h
  intro r mem inside
  rcases List.mem_append.1 mem with mem | mem
  · exact Nat.le_of_lt (shallower r mem inside)
  · rcases List.mem_cons.1 mem with rfl | mem
    · exact Nat.le_refl _
    · exact deepest r mem inside

/-- Of two owners neither comes before the other. -/
theorem unique (h : Owns roots p root) (h' : Owns roots p root') : root = root' := by
  obtain ⟨inside, before, after, e, shallower, deepest⟩ := h
  obtain ⟨inside', before', after', e', shallower', deepest'⟩ := h'
  rw [e] at e'
  rcases List.append_eq_append_iff.1 e' with ⟨between, hb, ha⟩ | ⟨between, hb, ha⟩
  · cases between with
    | nil => exact (List.cons.inj ha).1
    | cons x between =>
      obtain ⟨rfl, rfl⟩ := List.cons.inj ha
      have lt := shallower' root (hb ▸ List.mem_append_right _ List.mem_cons_self) inside
      have le := deepest root' (List.mem_append_right _ List.mem_cons_self) inside'
      exact absurd lt (Nat.not_lt.2 le)
  · cases between with
    | nil => exact (List.cons.inj ha).1.symm
    | cons x between =>
      obtain ⟨rfl, rfl⟩ := List.cons.inj ha
      have lt := shallower root' (hb ▸ List.mem_append_right _ List.mem_cons_self) inside'
      have le := deepest' root (List.mem_append_right _ List.mem_cons_self) inside
      exact absurd lt (Nat.not_lt.2 le)

theorem start (inside : p.startsWith root.path = true)
    (shallower : ∀ r ∈ roots, p.startsWith r.path = true → r.path.depth < root.path.depth) :
    Owns (roots ++ [root]) p root :=
  ⟨inside, roots, [], rfl, shallower, fun _ mem => absurd mem List.not_mem_nil⟩

theorem concat (h : Owns roots p root) {r : ArtifactRoot}
    (deepest : p.startsWith r.path = true → r.path.depth ≤ root.path.depth) : Owns (roots ++ [r]) p root := by
  obtain ⟨inside, before, after, rfl, shallower, deep⟩ := h
  refine ⟨inside, before, after ++ [r], by rw [List.append_assoc, List.cons_append], shallower, fun x mem => ?_⟩
  rcases List.mem_append.1 mem with mem | mem
  · exact deep x mem
  · rw [List.mem_singleton.1 mem]
    exact deepest

end Owns

/-- **Deeper roots of one path have parents** when a shallower one has. -/
theorem hasParent_of_depth_le {p : Path} {r q : ArtifactRoot} (hr : p.startsWith r.path = true)
    (hq : p.startsWith q.path = true) (deeper : r.path.depth ≤ q.path.depth) (parent : r.hasParent = true) :
    q.hasParent = true := by
  have hr := List.isPrefixOf_iff_prefix.1 hr
  have hq := List.isPrefixOf_iff_prefix.1 hq
  have nested : q.path.startsWith r.path = true :=
    List.isPrefixOf_iff_prefix.2 (List.prefix_of_prefix_length_le hr hq deeper)
  exact Path.parent?_isSome_of_startsWith nested parent

end ArtifactRoot

namespace RootSet

variable {s : RootSet} {p : Path} {root : ArtifactRoot}

/-- A set finds the deepest of its roots that contain a path. -/
theorem depth_le_of_find? {r : ArtifactRoot} (found : s.find? p = some r) (mem : root ∈ s.roots)
    (inside : p.startsWith root.path = true) : root.path.depth ≤ r.path.depth := by
  obtain ⟨-, before, after, e, missed⟩ := List.find?_eq_some_iff_append.1 found
  have sorted := s.deepestFirst
  rw [e] at mem sorted
  rcases List.mem_append.1 mem with mem | mem
  · exact absurd (missed root mem) (by simp [inside])
  · rcases List.mem_cons.1 mem with rfl | mem
    · exact Nat.le_refl _
    · exact (List.pairwise_cons.1 (List.pairwise_append.1 sorted).2.1).1 root mem

/-- What is found once `root` is registered, by what was found before. -/
def orDeeper (p : Path) (root : ArtifactRoot) : Option ArtifactRoot → Option ArtifactRoot
  | none => if p.startsWith root.path then some root else none
  | some r => if p.startsWith root.path ∧ r.path.depth < root.path.depth then some root else some r

theorem find?_insertByDepth_eq (p : Path) (root : ArtifactRoot) : ∀ {roots : List ArtifactRoot},
    roots.Pairwise (fun a b => b.path.depth ≤ a.path.depth) →
    (insertByDepth root roots).find? (fun r => p.startsWith r.path) =
      orDeeper p root (roots.find? fun r => p.startsWith r.path)
  | [], _ => by
    unfold insertByDepth orDeeper
    rw [List.find?_singleton, List.find?_nil]
  | r :: rest, sorted => by
    obtain ⟨below, sorted⟩ := List.pairwise_cons.1 sorted
    have ih := find?_insertByDepth_eq p root sorted
    unfold insertByDepth
    split
    case isTrue deeper =>
      -- the new root stands before all others, and each of them is shallower
      have shallower : ∀ x ∈ r :: rest, x.path.depth < root.path.depth := by
        intro x mem
        rcases List.mem_cons.1 mem with rfl | mem
        · exact deeper
        · exact Nat.lt_of_le_of_lt (below x mem) deeper
      generalize r :: rest = roots at shallower
      rw [List.find?_cons]
      cases found : roots.find? (fun x => p.startsWith x.path) with
      | none => cases inside : p.startsWith root.path <;> simp [orDeeper, inside]
      | some x =>
        have lt := shallower x (List.mem_of_find?_eq_some found)
        cases inside : p.startsWith root.path <;> simp [orDeeper, inside, lt]
    case isFalse shallow =>
      rw [List.find?_cons, List.find?_cons]
      cases inside : p.startsWith r.path with
      | true => simp [orDeeper, shallow]
      | false => exact ih

/-- **One more root** is found when it contains the path and is deeper than the one found so far. -/
theorem find?_add (s : RootSet) (p : Path) (root : ArtifactRoot) :
    (s.add root).find? p = orDeeper p root (s.find? p) := by
  unfold add
  split
  case isTrue mem =>
    cases found : s.find? p with
    | none =>
      have outside := List.find?_eq_none.1 found root mem
      simp [orDeeper, outside]
    | some r =>
      have deepest : ¬ (p.startsWith root.path = true ∧ r.path.depth < root.path.depth) := fun ⟨inside, lt⟩ =>
        absurd lt (Nat.not_lt.2 (depth_le_of_find? found mem inside))
      simp only [orDeeper, if_neg deepest]
  case isFalse => exact find?_insertByDepth_eq p root s.deepestFirst

/-- **A set answers for the roots registered so far:** what it finds for a path is the owner, and where it finds nothing
none of them contains the path. -/
structure Registers (s : RootSet) (roots : List ArtifactRoot) : Prop where
  owner : ∀ p root, s.find? p = some root → ArtifactRoot.Owns roots p root
  outside : ∀ p, s.find? p = none → ∀ r ∈ roots, ¬ p.startsWith r.path = true

namespace Registers

variable {roots : List ArtifactRoot}

theorem add (h : s.Registers roots) (root : ArtifactRoot) : (s.add root).Registers (roots ++ [root]) where
  owner p r found := by
    rw [find?_add] at found
    cases before : s.find? p with
    | none =>
      rw [before, orDeeper] at found
      split at found
      case isTrue inside =>
        cases found
        exact .start inside fun x mem inside => absurd inside (h.outside p before x mem)
      case isFalse => cases found
    | some x =>
      have owned := h.owner p x before
      rw [before, orDeeper] at found
      split at found
      case isTrue deeper =>
        cases found
        exact .start deeper.1 fun y mem inside => Nat.lt_of_le_of_lt (owned.depth_le y mem inside) deeper.2
      case isFalse shallow =>
        cases found
        exact owned.concat fun inside => Nat.not_lt.1 fun lt => shallow ⟨inside, lt⟩
  outside p missed := by
    rw [find?_add] at missed
    cases before : s.find? p with
    | none =>
      rw [before, orDeeper] at missed
      split at missed
      case isTrue => cases missed
      case isFalse outside =>
        intro r mem
        rcases List.mem_append.1 mem with mem | mem
        · exact h.outside p before r mem
        · rw [List.mem_singleton.1 mem]
          exact outside
    | some x =>
      rw [before, orDeeper] at missed
      split at missed <;> cases missed

theorem foldl (h : s.Registers roots) (more : List ArtifactRoot) :
    (more.foldl RootSet.add s).Registers (roots ++ more) := by
  induction more generalizing s roots with
  | nil => rwa [List.append_nil]
  | cons root more ih =>
    rw [List.append_cons]
    exact ih (h.add root)

end Registers

theorem registers_ofList (roots : List ArtifactRoot) : (ofList roots).Registers roots :=
  have start : empty.Registers [] := ⟨fun _ _ found => (nomatch found), fun _ _ _ mem => absurd mem List.not_mem_nil⟩
  start.foldl roots

/-- **The root that is found for a path is its owner.** -/
theorem find?_ofList_eq_some_iff {roots : List ArtifactRoot} :
    (ofList roots).find? p = some root ↔ ArtifactRoot.Owns roots p root := by
  have answers := registers_ofList roots
  refine ⟨answers.owner p root, fun owns => ?_⟩
  cases found : (ofList roots).find? p with
  | none => exact absurd owns.1 (answers.outside p found root owns.mem)
  | some r => rw [(answers.owner p r found).unique owns]

/-- The artifact at a path lies below the owner of its normal form; what nobody owns is a source. -/
theorem root_resolve_ofList (roots : List ArtifactRoot) (p : Path) :
    ArtifactRoot.Owns roots p.normalize ((ofList roots).resolve p).root ∨
    (∀ r, ¬ ArtifactRoot.Owns roots p.normalize r) ∧ ((ofList roots).resolve p).root.kind = .source := by
  cases found : (ofList roots).find? p.normalize with
  | none =>
    refine .inr ⟨fun r owns => ?_, ?_⟩
    · rw [find?_ofList_eq_some_iff.2 owns] at found
      cases found
    · unfold resolve
      dsimp only
      rw [found]
      rfl
  | some root =>
    obtain ⟨rel, -, named, -⟩ := resolve_eq found
    rw [named]
    exact .inl (find?_ofList_eq_some_iff.1 found)

end RootSet
end IncludeClosure
