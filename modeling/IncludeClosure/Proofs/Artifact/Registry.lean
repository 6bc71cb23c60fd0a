import Mathlib.Data.List.Nodup
import IncludeClosure.Artifact.Registry
import IncludeClosure.Proofs.Artifact.Owner
/-!
# Proofs.Artifact.Registry — what a run of registrations leaves

A stable sort of a sorted list with one new member at its end puts the member behind those that may stand before it
(`exists_mergeSort_concat`).  So registering a root is one insertion, however often the list is sorted again, and a
registry is the set of its roots (`Registry.roots_add`).  What a run of registrations leaves in the set is `Lists`: the
roots registered, each once, the deepest first and at one depth in the order of their first registration.  One more
registration keeps this (`Lists.add`).  That the first root in this order that contains a path is the deepest one needs
that two roots of one depth above one path lie at one path (`path_eq_of_depth`).
-/
namespace IncludeClosure

/-! ## One more member of a sorted list -/

section

variable {α : Type} [DecidableEq α] {le : α → α → Bool} {l : List α} {x : α}

/-- **A stable sort of a sorted list and one new member** puts the member behind all that may stand before it. -/
theorem exists_mergeSort_concat (trans : ∀ a b c, le a b → le b c → le a c) (total : ∀ a b, le a b || le b a)
    (sorted : l.Pairwise (le · ·)) (nodup : l.Nodup) (new : x ∉ l) :
    ∃ before after, l = before ++ after ∧ (l ++ [x]).mergeSort le = before ++ x :: after ∧
      (∀ a ∈ before, le a x) ∧ ∀ b ∈ after, ¬ le b x := by
  have perm : ((l ++ [x]).mergeSort le).Perm (l ++ [x]) := List.mergeSort_perm _ le
  have nodup' : ((l ++ [x]).mergeSort le).Nodup :=
    perm.nodup_iff.2 (List.nodup_append_comm.1 (List.nodup_cons.2 ⟨new, nodup⟩))
  have result : ((l ++ [x]).mergeSort le).Pairwise (le · ·) := List.pairwise_mergeSort trans total _
  have kept : l.Sublist ((l ++ [x]).mergeSort le) :=
    List.sublist_mergeSort trans total sorted (List.sublist_append_left l [x])
  have pair (b : α) (hb : b ∈ l) (h : le b x) : [b, x].Sublist ((l ++ [x]).mergeSort le) :=
    List.pair_sublist_mergeSort trans total h ((List.singleton_sublist.2 hb).append_right [x])
  have length := perm.length_eq
  have mem : x ∈ (l ++ [x]).mergeSort le := perm.mem_iff.2 (List.mem_append_right _ List.mem_cons_self)
  generalize (l ++ [x]).mergeSort le = sortedList at *
  obtain ⟨before, after, -, rfl, erased⟩ := List.exists_erase_eq mem
  have rest : l = before ++ after := by
    have sub := kept.erase x
    rw [List.erase_of_not_mem new, erased] at sub
    refine sub.eq_of_length ?_
    rw [List.length_append, List.length_append, List.length_singleton, List.length_cons] at length
    rw [List.length_append]
    omega
  refine ⟨before, after, rest, rfl, fun a ha => ?_, fun b hb h => ?_⟩
  · exact (List.pairwise_append.1 result).2.2 a ha x List.mem_cons_self
  · -- `b` may stand before `x` and stood before it, so it still does; but it comes after `x`, and comes only once
    obtain ⟨front, back, split, inFront, inBack⟩ :=
      List.cons_sublist_iff.1 (pair b (rest ▸ List.mem_append_right _ hb) h)
    have once : b ∉ before := fun again =>
      (List.nodup_append.1 nodup').2.2 b again b (List.mem_cons_of_mem _ hb) rfl
    rw [split] at nodup'
    have apart : x ∉ front := fun again =>
      (List.nodup_append.1 nodup').2.2 x again x (List.singleton_sublist.1 inBack) rfl
    rcases List.append_eq_append_iff.1 split with ⟨between, rfl, e⟩ | ⟨between, rfl, -⟩
    · cases between with
      | nil => exact once (by simpa using inFront)
      | cons y between =>
        rw [(List.cons.inj e).1] at apart
        exact apart (by simp)
    · exact once (List.mem_append_left _ inFront)

end

namespace RootSet

variable {s : RootSet} {all : List ArtifactRoot} {root : ArtifactRoot} {p : Path}

/-! ## The set -/

/-- A root is inserted behind those that are as deep. -/
theorem insertByDepth_append : ∀ {before after : List ArtifactRoot},
    (∀ a ∈ before, root.path.depth ≤ a.path.depth) → (∀ b ∈ after, b.path.depth < root.path.depth) →
    insertByDepth root (before ++ after) = before ++ root :: after
  | [], [], _, _ => rfl
  | [], b :: after, _, below => if_pos (below b List.mem_cons_self)
  | a :: before, after, above, below => by
    obtain ⟨first, others⟩ := List.forall_mem_cons.1 above
    rw [List.cons_append, insertByDepth, if_neg (Nat.not_lt.2 first), insertByDepth_append others below]
    rfl

theorem pairwise_insertByDepth {R : ArtifactRoot → ArtifactRoot → Prop} : ∀ {roots : List ArtifactRoot},
    roots.Pairwise (fun a b => b.path.depth ≤ a.path.depth) → roots.Pairwise R →
    (∀ r ∈ roots, r.path.depth < root.path.depth → R root r) →
    (∀ r ∈ roots, root.path.depth ≤ r.path.depth → R r root) → (insertByDepth root roots).Pairwise R
  | [], _, _, _, _ => List.pairwise_singleton R root
  | r :: rest, sorted, related, before, behind => by
    obtain ⟨below, sorted⟩ := List.pairwise_cons.1 sorted
    unfold insertByDepth
    split
    case isTrue deeper =>
      refine List.pairwise_cons.2 ⟨fun x mem => before x mem ?_, related⟩
      rcases List.mem_cons.1 mem with rfl | mem
      · exact deeper
      · exact Nat.lt_of_le_of_lt (below x mem) deeper
    case isFalse shallow =>
      obtain ⟨first, related⟩ := List.pairwise_cons.1 related
      obtain ⟨_, before⟩ := List.forall_mem_cons.1 before
      obtain ⟨behindFirst, behind⟩ := List.forall_mem_cons.1 behind
      refine List.pairwise_cons.2 ⟨fun x mem => ?_, pairwise_insertByDepth sorted related before behind⟩
      rcases List.mem_cons.1 ((perm_insertByDepth root rest).mem_iff.1 mem) with rfl | mem
      · exact behindFirst (Nat.not_lt.1 shallow)
      · exact first x mem

theorem mem_add {r : ArtifactRoot} : r ∈ (s.add root).roots ↔ r ∈ s.roots ∨ r = root := by
  unfold add
  split
  case isTrue registered => exact ⟨.inl, fun h => h.elim id fun e => e ▸ registered⟩
  case isFalse => exact (perm_insertByDepth root s.roots).mem_iff.trans (List.mem_cons.trans or_comm)

/-- **What a set holds after the registrations `all`:** the roots registered, the deepest first, and of two at one depth
the one that was registered first. -/
structure Lists (s : RootSet) (all : List ArtifactRoot) : Prop where
  mem_iff : ∀ root, root ∈ s.roots ↔ root ∈ all
  ordered : s.roots.Pairwise fun a b => b.path.depth ≤ a.path.depth ∧
    (b.path.depth = a.path.depth → all.idxOf a < all.idxOf b)

/-- **One more registration.** -/
theorem Lists.add (h : s.Lists all) (root : ArtifactRoot) : (s.add root).Lists (all ++ [root]) where
  mem_iff r := by rw [mem_add, h.mem_iff, List.mem_append, List.mem_singleton]
  ordered := by
    have place (r : ArtifactRoot) (mem : r ∈ s.roots) : (all ++ [root]).idxOf r = all.idxOf r :=
      List.idxOf_append_of_mem ((h.mem_iff r).1 mem)
    have related : s.roots.Pairwise fun a b => b.path.depth ≤ a.path.depth ∧
        (b.path.depth = a.path.depth → (all ++ [root]).idxOf a < (all ++ [root]).idxOf b) :=
      h.ordered.imp_of_mem fun ha hb related => by rwa [place _ ha, place _ hb]
    unfold RootSet.add
    split
    case isTrue => exact related
    case isFalse new =>
      refine pairwise_insertByDepth s.deepestFirst related (fun r _ deeper => ?_) fun r mem shallow => ?_
      · exact ⟨Nat.le_of_lt deeper, fun e => absurd e (Nat.ne_of_lt deeper)⟩
      · refine ⟨shallow, fun _ => ?_⟩
        rw [place r mem, List.idxOf_append_of_notMem fun again => new ((h.mem_iff root).2 again)]
        exact Nat.lt_of_lt_of_le (List.idxOf_lt_length_iff.2 ((h.mem_iff r).1 mem)) (Nat.le_add_right _ _)

theorem Lists.foldl (h : s.Lists all) : ∀ more : List ArtifactRoot, (more.foldl RootSet.add s).Lists (all ++ more) := by
  intro more
  induction more generalizing s all with
  | nil => rwa [List.append_nil]
  | cons root more ih =>
    rw [List.append_cons]
    exact ih (h.add root)

theorem lists_empty : empty.Lists [] where
  mem_iff _ := Iff.rfl
  ordered := .nil

/-- **Two roots of one depth above one path** lie at one path. -/
theorem path_eq_of_depth {r q : ArtifactRoot} (hr : r.path.components <+: p.components)
    (hq : q.path.components <+: p.components) (same : r.path.depth = q.path.depth) : r.path = q.path := by
  have nested := List.prefix_of_prefix_length_le hr hq (Nat.le_of_eq same)
  exact Path.eq_of_normal r.path_normal q.path_normal (nested.eq_of_length same)

theorem startsWith_iff {front : Path} : p.startsWith front = true ↔ front.components <+: p.components :=
  List.isPrefixOf_iff_prefix

/-- The owner of a path was registered before any other root of its depth above the path. -/
theorem idxOf_le_of_owns (owns : ArtifactRoot.Owns all p root) {other : ArtifactRoot}
    (inside : p.startsWith other.path = true) (same : other.path.depth = root.path.depth) :
    all.idxOf root ≤ all.idxOf other := by
  obtain ⟨above, before, after, rfl, shallower, -⟩ := owns
  have first : root ∉ before := fun mem => absurd (shallower root mem above) (Nat.lt_irrefl _)
  have later : other ∉ before := fun mem => absurd same (Nat.ne_of_lt (shallower other mem inside))
  rw [List.idxOf_append_of_notMem first, List.idxOf_append_of_notMem later, List.idxOf_cons_self]
  exact Nat.add_le_add_left (Nat.zero_le _) _

/-- **A root is found** when some registered root contains the path. -/
theorem exists_find?_iff : (∃ root, (ofList all).find? p = some root) ↔
    ∃ root ∈ all, root.path.components <+: p.components := by
  constructor
  · rintro ⟨root, found⟩
    have owns := find?_ofList_eq_some_iff.1 found
    exact ⟨root, owns.mem, startsWith_iff.1 owns.1⟩
  · rintro ⟨root, mem, inside⟩
    cases found : (ofList all).find? p with
    | none => exact absurd (startsWith_iff.2 inside) ((registers_ofList all).outside p found root mem)
    | some r => exact ⟨r, rfl⟩

/-- **The root that is found** is the deepest registered root that contains the path, and of two at one path the one
that was registered first. -/
theorem deepest_of_find? (found : (ofList all).find? p = some root) :
    root ∈ all ∧ root.path.components <+: p.components ∧
      ∀ other ∈ all, other.path.components <+: p.components → other.path.depth ≤ root.path.depth ∧
        (other.path.depth = root.path.depth → other.path = root.path ∧ all.idxOf root ≤ all.idxOf other) := by
  have owns := find?_ofList_eq_some_iff.1 found
  have inside := startsWith_iff.1 owns.1
  refine ⟨owns.mem, inside, fun other mem above => ?_⟩
  have above' := startsWith_iff.2 above
  exact ⟨owns.depth_le other mem above', fun same =>
    ⟨path_eq_of_depth above inside same, idxOf_le_of_owns owns above' same⟩⟩

/-- **The order of registration does not count** when no two kinds are registered at one path. -/
theorem find?_ofList_congr {all' : List ArtifactRoot} (same : ∀ root, root ∈ all' ↔ root ∈ all)
    (oneKind : ∀ a ∈ all, ∀ b ∈ all, a.path = b.path → a.kind = b.kind) (p : Path) :
    (ofList all').find? p = (ofList all).find? p := by
  cases found : (ofList all).find? p with
  | none =>
    cases found' : (ofList all').find? p with
    | none => rfl
    | some root =>
      obtain ⟨mem, inside, -⟩ := deepest_of_find? found'
      obtain ⟨r, e⟩ := exists_find?_iff.2 ⟨root, (same root).1 mem, inside⟩
      rw [found] at e
      cases e
  | some root =>
    obtain ⟨mem, inside, deepest⟩ := deepest_of_find? found
    obtain ⟨root', found'⟩ := exists_find?_iff.2 ⟨root, (same root).2 mem, inside⟩
    obtain ⟨mem', inside', deepest'⟩ := deepest_of_find? found'
    -- each of the two is at least as deep as the other, so they lie at one path
    obtain ⟨le, atOne⟩ := deepest root' ((same root').1 mem') inside'
    have depth : root'.path.depth = root.path.depth := Nat.le_antisymm le (deepest' root ((same root).2 mem) inside).1
    have path := (atOne depth).1
    have kind := oneKind root' ((same root').1 mem') root mem path
    rw [found', ArtifactRoot.eq_of_components (congrArg Path.components path) kind]

end RootSet

/-! ## The roots as they are shared -/

namespace Registry

variable {r : Registry} {s : RootSet}

theorem deepestFirst_trans (a b c : SharedRoot) (hab : deepestFirst a b) (hbc : deepestFirst b c) :
    deepestFirst a c := by
  simp only [deepestFirst, decide_eq_true_eq] at hab hbc ⊢
  exact Nat.le_trans hbc hab

theorem deepestFirst_total (a b : SharedRoot) : deepestFirst a b || deepestFirst b a := by
  simp only [deepestFirst, Bool.or_eq_true, decide_eq_true_eq]
  exact Nat.le_total _ _

theorem mem_of_find? {root : ArtifactRoot} {kept : SharedRoot}
    (found : r.shared.find? (·.root == root) = some kept) : kept ∈ r.shared ∧ kept.root = root := by
  have equal := List.find?_some found
  exact ⟨List.mem_of_find?_eq_some found, eq_of_beq equal⟩

/-- **Registering a root in a registry** is registering it in the set. -/
theorem roots_add (h : r.roots = s.roots) (root : ArtifactRoot) : (r.add root).2.roots = (s.add root).roots := by
  unfold add RootSet.add
  cases found : r.shared.find? (·.root == root) with
  | some kept =>
    obtain ⟨mem, rfl⟩ := mem_of_find? found
    rw [dif_pos (h ▸ List.mem_map_of_mem mem)]
    exact h
  | none =>
    have missing (kept : SharedRoot) (mem : kept ∈ r.shared) : kept.root ≠ root := by
      simpa using List.find?_eq_none.1 found kept mem
    have new : root ∉ s.roots := by
      rw [← h]
      intro mem
      obtain ⟨kept, mem, e⟩ := List.mem_map.1 mem
      exact missing kept mem e
    rw [dif_neg new]
    have sorted : r.shared.Pairwise (deepestFirst · ·) := by
      have ordered := s.deepestFirst
      rw [← h] at ordered
      exact (List.pairwise_map.1 ordered).imp fun h => decide_eq_true h
    have nodup : r.shared.Nodup := List.Nodup.of_map SharedRoot.root (show r.roots.Nodup from h ▸ s.nodup)
    obtain ⟨before, after, split, result, above, below⟩ :=
      exists_mergeSort_concat deepestFirst_trans deepestFirst_total sorted nodup fun mem =>
        missing { number := r.made, root } mem rfl
    show ((r.shared ++ [_]).mergeSort deepestFirst).map SharedRoot.root = RootSet.insertByDepth root s.roots
    rw [result, ← h]
    unfold roots
    rw [split, List.map_append, List.map_append, List.map_cons, RootSet.insertByDepth_append]
    · intro a ha
      obtain ⟨kept, mem, rfl⟩ := List.mem_map.1 ha
      exact of_decide_eq_true (above kept mem)
    · intro b hb
      obtain ⟨kept, mem, rfl⟩ := List.mem_map.1 hb
      exact Nat.not_le.1 fun le => below kept mem (decide_eq_true le)

theorem roots_addAll (h : r.roots = s.roots) : ∀ more : List ArtifactRoot,
    (r.addAll more).roots = (more.foldl RootSet.add s).roots := by
  intro more
  induction more generalizing r s with
  | nil => exact h
  | cons root more ih => exact ih (roots_add h root)

/-- **What is given is kept,** and equals what was registered. -/
theorem add_kept (r : Registry) (root : ArtifactRoot) :
    (r.add root).1 ∈ (r.add root).2.shared ∧ (r.add root).1.root = root := by
  unfold add
  cases found : r.shared.find? (·.root == root) with
  | some kept => exact mem_of_find? found
  | none => exact ⟨List.mem_mergeSort.2 (List.mem_append_right _ List.mem_cons_self), rfl⟩

/-- **A root that is kept is given again.** -/
theorem add_root_of_mem (h : r.roots = s.roots) {kept : SharedRoot} (mem : kept ∈ r.shared) :
    r.add kept.root = (kept, r) := by
  have nodup : (r.shared.map (·.root)).Nodup := (show r.roots.Nodup from h ▸ s.nodup)
  unfold add
  cases found : r.shared.find? (·.root == kept.root) with
  | some other =>
    obtain ⟨mem', same⟩ := mem_of_find? found
    rw [List.inj_on_of_nodup_map nodup mem' mem same]
  | none => exact absurd (beq_self_eq_true kept.root) (List.find?_eq_none.1 found kept mem)

theorem mem_shared_add {kept : SharedRoot} (mem : kept ∈ r.shared) (root : ArtifactRoot) :
    kept ∈ (r.add root).2.shared := by
  unfold add
  split
  · exact mem
  · exact List.mem_mergeSort.2 (List.mem_append_left _ mem)

theorem mem_shared_addAll {kept : SharedRoot} (mem : kept ∈ r.shared) : ∀ more : List ArtifactRoot,
    kept ∈ (r.addAll more).shared := by
  intro more
  induction more generalizing r with
  | nil => exact mem
  | cons root more ih => exact ih (mem_shared_add mem root)

theorem find?_eq (h : r.roots = s.roots) (p : Path) : (r.find? p).map (·.root) = s.find? p := by
  unfold RootSet.find?
  rw [← h]
  unfold roots find?
  rw [List.find?_map]
  rfl

/-- The roots that are kept were made before, so a root that is made now has another number. -/
def Numbered (r : Registry) : Prop :=
  ∀ kept ∈ r.shared, kept.number < r.made

theorem Numbered.add (h : r.Numbered) (root : ArtifactRoot) : (r.add root).2.Numbered := by
  unfold Registry.add
  split
  · exact h
  · intro kept mem
    rcases List.mem_append.1 (List.mem_mergeSort.1 mem) with before | fresh
    · exact Nat.lt_succ_of_lt (h kept before)
    · rw [List.mem_singleton.1 fresh]
      exact Nat.lt_succ_self r.made

theorem Numbered.addAll (h : r.Numbered) : ∀ more : List ArtifactRoot, (r.addAll more).Numbered := by
  intro more
  induction more generalizing r with
  | nil => exact h
  | cons root more ih => exact ih (h.add root)

/-- **A run of registrations.**  The registry keeps the roots of the set.  These are the roots registered, each once, the
deepest first and at one depth in the order of their first registration.  Registering a root gives the one that is kept,
now and later.  A root is found for a path when a registered root is a prefix of it, component by component: the deepest,
and of two at one path the one registered first.  With one kind at each path the order of registration does not count. -/
theorem keeps_registrations (first more : List ArtifactRoot) :
    let all := first ++ more
    let s := more.foldl RootSet.add (.ofList first)
    let r := (Registry.ofList first).addAll more
    r.roots = s.roots ∧ (∀ p, (r.find? p).map (·.root) = s.find? p) ∧
    s.roots.Nodup ∧
    (∀ root, root ∈ s.roots ↔ root ∈ all) ∧
    s.roots.Pairwise (fun a b => b.path.depth ≤ a.path.depth ∧
      (b.path.depth = a.path.depth → all.idxOf a < all.idxOf b)) ∧
    (∀ root, (r.add root).1 ∈ (r.add root).2.shared ∧ (r.add root).1.root = root) ∧
    (∀ kept ∈ r.shared, kept.number < r.made) ∧
    (∀ kept ∈ r.shared, ∀ later, (r.addAll later).add kept.root = (kept, r.addAll later)) ∧
    (∀ p, (∃ root, s.find? p = some root) ↔ ∃ root ∈ all, root.path.components <+: p.components) ∧
    (∀ p root, s.find? p = some root → root ∈ all ∧ root.path.components <+: p.components ∧
      ∀ other ∈ all, other.path.components <+: p.components → other.path.depth ≤ root.path.depth ∧
        (other.path.depth = root.path.depth → other.path = root.path ∧ all.idxOf root ≤ all.idxOf other)) ∧
    ∀ all' : List ArtifactRoot, (∀ root, root ∈ all' ↔ root ∈ all) →
      (∀ a ∈ all, ∀ b ∈ all, a.path = b.path → a.kind = b.kind) →
      ∀ p, (RootSet.ofList all').find? p = s.find? p := by
  intro all s r
  have set : s = RootSet.ofList all := List.foldl_append.symm
  have lists : s.Lists all := (RootSet.lists_empty.foldl first).foldl more
  have roots : r.roots = s.roots := roots_addAll (roots_addAll rfl first) more
  have again (kept : SharedRoot) (mem : kept ∈ r.shared) (later : List ArtifactRoot) :
      (r.addAll later).add kept.root = (kept, r.addAll later) :=
    add_root_of_mem (roots_addAll roots later) (mem_shared_addAll mem later)
  have start : empty.Numbered := fun _ none => absurd none List.not_mem_nil
  have numbered : r.Numbered := (start.addAll first).addAll more
  refine ⟨roots, find?_eq roots, s.nodup, lists.mem_iff, lists.ordered, r.add_kept, numbered, again, ?_⟩
  rw [set]
  exact ⟨fun _ => RootSet.exists_find?_iff, fun _ _ => RootSet.deepest_of_find?,
    fun _ same oneKind => RootSet.find?_ofList_congr same oneKind⟩

end Registry

/-! ## Nested roots, and two at one path -/

namespace Sample

def workRoot : ArtifactRoot := .mount ⟨"/w"⟩ .source

def outRoot : ArtifactRoot := .mount ⟨"/w/out"⟩ .output

def checkedInRoot : ArtifactRoot := .mount ⟨"/w/out/"⟩ .source

end Sample

theorem Registry.keeps_registrations_nested :
    ([Sample.outRoot, Sample.checkedInRoot, Sample.workRoot].foldl RootSet.add (.ofList [Sample.workRoot])).roots =
      [Sample.outRoot, Sample.checkedInRoot, Sample.workRoot] ∧
    ([Sample.outRoot, Sample.checkedInRoot].foldl RootSet.add (.ofList [Sample.workRoot])).find? ⟨"/w/out/g.h"⟩ =
      some Sample.outRoot ∧
    (∀ root, root ∈ [Sample.outRoot, Sample.workRoot] ↔ root ∈ [Sample.workRoot] ++ [Sample.outRoot]) ∧
    ∀ p, (RootSet.ofList [Sample.outRoot, Sample.workRoot]).find? p =
      ([Sample.outRoot].foldl RootSet.add (.ofList [Sample.workRoot])).find? p := by
  obtain ⟨-, -, -, -, -, -, -, -, -, -, anyOrder⟩ := Registry.keeps_registrations [Sample.workRoot] [Sample.outRoot]
  have same (root : ArtifactRoot) :
      root ∈ [Sample.outRoot, Sample.workRoot] ↔ root ∈ [Sample.workRoot] ++ [Sample.outRoot] := by
    simp [or_comm]
  exact ⟨by decide, by decide, same, anyOrder _ same (by decide)⟩

end IncludeClosure
