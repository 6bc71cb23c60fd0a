import IncludeClosure.Proofs.Path.Moved
/-!
# Proofs.Artifact.Relocate — the artifacts of a request below two execution roots

The roots of a request below two directories correspond one by one and in order (`RootSet.Relocated`): adding a root
looks at depths, and those of two roots compare alike on both sides.  So the deepest root that contains a path is the
same one, what is left below it is the same text, and a path and the moved path are named by artifacts that differ in
the root alone (`RootSet.Relocated.twin_resolve`).  The order of artifacts does not tell the two sides apart
(`Artifact.Relocated.order_eq`).
-/
namespace IncludeClosure

/-! ## Lists that correspond member by member -/

section

variable {α β γ δ : Type} {R : α → β → Prop}

theorem forall₂_find? {f : α → Bool} {g : β → Bool} (agree : ∀ x y, R x y → f x = g y) {xs : List α} {ys : List β}
    (h : List.Forall₂ R xs ys) : Option.Rel R (xs.find? f) (ys.find? g) := by
  induction h with
  | nil => exact .none
  | cons first _ ih =>
    rw [List.find?_cons, List.find?_cons, agree _ _ first]
    split
    · exact .some first
    · exact ih

theorem forall₂_findSome? {S : γ → δ → Prop} {f : α → Option γ} {g : β → Option δ}
    (agree : ∀ x y, R x y → Option.Rel S (f x) (g y)) {xs : List α} {ys : List β} (h : List.Forall₂ R xs ys) :
    Option.Rel S (xs.findSome? f) (ys.findSome? g) := by
  induction h with
  | nil => exact .none
  | @cons x y _ _ first _ ih =>
    have found := agree x y first
    rw [List.findSome?_cons, List.findSome?_cons]
    generalize f x = there at found ⊢
    generalize g y = here at found ⊢
    cases found with
    | none => exact ih
    | some same => exact .some same

theorem forall₂_exists {xs : List α} {ys : List β} (h : List.Forall₂ R xs ys) : ∀ x ∈ xs, ∃ y ∈ ys, R x y := by
  induction h with
  | nil => exact fun x mem => absurd mem List.not_mem_nil
  | @cons _ b _ _ first _ ih =>
    intro x mem
    rcases List.mem_cons.1 mem with rfl | mem
    · exact ⟨b, List.mem_cons_self, first⟩
    · obtain ⟨y, mem, hr⟩ := ih x mem
      exact ⟨y, List.mem_cons_of_mem _ mem, hr⟩

theorem forall₂_mem_iff {a : α} {b : β} (same : ∀ x y, R x y → (a = x ↔ b = y)) {xs : List α} {ys : List β}
    (h : List.Forall₂ R xs ys) : a ∈ xs ↔ b ∈ ys := by
  induction h with
  | nil => exact ⟨fun h => absurd h List.not_mem_nil, fun h => absurd h List.not_mem_nil⟩
  | cons first _ ih => rw [List.mem_cons, List.mem_cons, same _ _ first, ih]

namespace Sorted

variable {order : α → α → Ordering} {order' : β → β → Ordering}

theorem forall₂_insertWith {merge : α → α → α} {merge' : β → β → β} {x : α} {x' : β} (hx : R x x')
    (agree : ∀ y y', R y y' → order x y = order' x' y') (merged : ∀ y y', R y y' → R (merge y x) (merge' y' x'))
    {xs : List α} {ys : List β} (h : List.Forall₂ R xs ys) :
    List.Forall₂ R (insertWith order merge x xs) (insertWith order' merge' x' ys) := by
  induction h with
  | nil => exact .cons hx .nil
  | cons first rest ih =>
    unfold insertWith
    rw [agree _ _ first]
    split
    · exact .cons hx (.cons first rest)
    · exact .cons (merged _ _ first) rest
    · exact .cons first ih

/-- **Two increasing lists correspond in order** when their members do and the orders do not tell the sides apart. -/
theorem forall₂_of_increasing [Std.TransCmp order] [Std.TransCmp order']
    (agree : ∀ x x' y y', R x x' → R y y' → order x y = order' x' y') :
    ∀ {xs : List α} {ys : List β}, Increasing order xs → Increasing order' ys → (∀ x ∈ xs, ∃ y ∈ ys, R x y) →
      (∀ y ∈ ys, ∃ x ∈ xs, R x y) → List.Forall₂ R xs ys
  | [], [], _, _, _, _ => .nil
  | [], y :: ys, _, _, _, back => by
    obtain ⟨x, mem, -⟩ := back y List.mem_cons_self
    exact absurd mem List.not_mem_nil
  | x :: xs, [], _, _, forth, _ => by
    obtain ⟨y, mem, -⟩ := forth x List.mem_cons_self
    exact absurd mem List.not_mem_nil
  | x :: xs, y :: ys, hx, hy, forth, back => by
    obtain ⟨below, hx⟩ := List.pairwise_cons.1 hx
    obtain ⟨below', hy⟩ := List.pairwise_cons.1 hy
    -- the heads correspond: whatever else they corresponded to would stand after the head of the other side
    have first : R x y := by
      obtain ⟨y', mem', hr'⟩ := forth x List.mem_cons_self
      obtain ⟨x', mem, hr⟩ := back y List.mem_cons_self
      rcases List.mem_cons.1 mem' with rfl | mem'
      · exact hr'
      · rcases List.mem_cons.1 mem with rfl | mem
        · exact hr
        · have lt := below x' mem
          rw [agree _ _ _ _ hr' hr] at lt
          exact absurd (below' y' mem') (Std.OrientedCmp.not_lt_of_lt lt)
    refine .cons first (forall₂_of_increasing agree hx hy (fun z mem => ?_) fun w mem => ?_)
    · obtain ⟨w, mem', hr⟩ := forth z (List.mem_cons_of_mem _ mem)
      refine (List.mem_cons.1 mem').elim (fun e => ?_) fun mem' => ⟨w, mem', hr⟩
      have lt := below z mem
      rw [agree _ _ _ _ first hr, e, @Std.ReflCmp.compare_self _ order'] at lt
      cases lt
    · obtain ⟨z, mem', hr⟩ := back w (List.mem_cons_of_mem _ mem)
      refine (List.mem_cons.1 mem').elim (fun e => ?_) fun mem' => ⟨z, mem', hr⟩
      have lt := below' w mem
      rw [← agree _ _ _ _ first hr, e, @Std.ReflCmp.compare_self _ order] at lt
      cases lt

end Sorted
end

/-! ## Roots and artifacts -/

namespace ArtifactRoot

variable {home home' : Path} {r r' q q' : ArtifactRoot}

namespace Relocated

theorem symm (h : Relocated home home' r r') : Relocated home' home r' r where
  path := h.path.symm
  kind := h.kind.symm

theorem order_eq (hr : Relocated home home' r r') (hq : Relocated home home' q q') : r.order q = r'.order q' := by
  show (r.path.order q.path).then (RootKind.order r.kind q.kind)
    = (r'.path.order q'.path).then (RootKind.order r'.kind q'.kind)
  rw [hr.path.order_eq hq.path, hr.kind, hq.kind]

theorem eq_iff (hr : Relocated home home' r r') (hq : Relocated home home' q q') : r = q ↔ r' = q' := by
  rw [← @Std.LawfulEqCmp.compare_eq_iff_eq _ ArtifactRoot.order,
    ← @Std.LawfulEqCmp.compare_eq_iff_eq _ ArtifactRoot.order, hr.order_eq hq]

end Relocated

theorem relocated_mount (hh : home.Anchored) (hh' : home'.Anchored) {p p' : Path} (h : Path.Moved home home' p p')
    (kind : RootKind) : Relocated home home' (mount p kind) (mount p' kind) where
  path := h.normalize hh hh'
  kind := rfl

end ArtifactRoot

namespace Artifact

variable {home home' : Path} {a a' b b' : Artifact}

namespace Relocated

theorem symm (h : a.Relocated home home' a') : a'.Relocated home' home a where
  root := h.root.symm
  rel := h.rel.symm

theorem order_eq (ha : a.Relocated home home' a') (hb : b.Relocated home home' b') : a.order b = a'.order b' := by
  show (a.root.order b.root).then (a.rel.order b.rel) = (a'.root.order b'.root).then (a'.rel.order b'.rel)
  rw [ha.root.order_eq hb.root, ha.rel, hb.rel]

theorem eq_iff (ha : a.Relocated home home' a') (hb : b.Relocated home home' b') : a = b ↔ a' = b' := by
  rw [← @Std.LawfulEqCmp.compare_eq_iff_eq _ Artifact.order, ← @Std.LawfulEqCmp.compare_eq_iff_eq _ Artifact.order,
    ha.order_eq hb]

end Relocated

/-- **One artifact below two homes, lying at one path below them.**  An artifact that is its root lies at a path that
ends in a slash. -/
structure Twin (home home' : Path) (a a' : Artifact) : Prop where
  relocated : a.Relocated home home' a'
  path : Path.Moved home home' a.path a'.path
  spelled : a.rel = ⟨""⟩ ∨ Path.Twin home home' a.path a'.path

theorem Twin.symm (h : Twin home home' a a') : Twin home' home a' a where
  relocated := h.relocated.symm
  path := h.path.symm
  spelled := h.spelled.imp (fun e => h.relocated.rel.symm.trans e) Path.Twin.symm

theorem Twin.hasParent (h : Twin home home' a a') (hh : home.Anchored) : a.root.hasParent = true := by
  obtain ⟨names, e, -⟩ := h.relocated.root.path
  exact hh.parent?_isSome e

end Artifact

/-! ## The roots of a request -/

namespace Path

theorem startsWith_self (p : Path) : p.startsWith p = true :=
  List.isPrefixOf_iff_prefix.2 (List.prefix_refl _)

theorem depth_le_of_startsWith {p front : Path} (h : p.startsWith front = true) : front.depth ≤ p.depth :=
  (List.isPrefixOf_iff_prefix.1 h).length_le

theorem startsWith_trans {p q front : Path} (h : p.startsWith q = true) (h' : q.startsWith front = true) :
    p.startsWith front = true :=
  List.isPrefixOf_iff_prefix.2 ((List.isPrefixOf_iff_prefix.1 h').trans (List.isPrefixOf_iff_prefix.1 h))

theorem Moved.startsWith {home home' p p' : Path} (h : Moved home home' p p') : p.startsWith home = true := by
  obtain ⟨names, e, -⟩ := h
  exact List.isPrefixOf_iff_prefix.2 (e ▸ List.prefix_append _ _)

theorem Moved.depth_le {home home' p p' : Path} (h : Moved home home' p p') : home.depth ≤ p.depth :=
  depth_le_of_startsWith h.startsWith

end Path

namespace RootSet

theorem find?_insertByDepth {root first : ArtifactRoot} {f : ArtifactRoot → Bool} : ∀ {roots : List ArtifactRoot},
    (f root = true → ∀ r ∈ roots, root.path.depth ≤ r.path.depth) → roots.find? f = some first →
    (insertByDepth root roots).find? f = some first
  | [], _, found => by cases found
  | r :: rest, shallow, found => by
    unfold insertByDepth
    split
    · rename_i deeper
      rw [List.find?_cons]
      split
      · rename_i hit
        exact absurd (shallow hit r List.mem_cons_self) (Nat.not_le.2 deeper)
      · exact found
    · rw [List.find?_cons] at found ⊢
      split
      · rename_i hit
        rw [hit] at found
        exact found
      · rename_i miss
        rw [miss] at found
        exact find?_insertByDepth (fun hit r mem => shallow hit r (List.mem_cons_of_mem _ mem)) found

/-- **The roots of one request below two homes.**  The home itself is mounted first, as a source. -/
structure Relocated (home home' : Path) (s s' : RootSet) : Prop where
  roots : List.Forall₂ (ArtifactRoot.Relocated home home') s.roots s'.roots
  first : ∃ r, s.find? home = some r ∧ r.kind = .source

variable {home home' : Path} {s s' : RootSet}

namespace Relocated

theorem find? (h : Relocated home home' s s') {p p' : Path} (moved : Path.Moved home home' p p') :
    Option.Rel (ArtifactRoot.Relocated home home') (s.find? p) (s'.find? p') :=
  forall₂_find? (fun _ _ hr => moved.startsWith_eq hr.path) h.roots

theorem symm (h : Relocated home home' s s') : Relocated home' home s' s where
  roots := List.Forall₂.flip (h.roots.imp fun _ _ hr => hr.symm)
  first := by
    obtain ⟨r, found, kind⟩ := h.first
    have same := h.find? (.start home home')
    rw [found] at same
    generalize s'.find? home' = found' at same ⊢
    cases same with
    | some hr => exact ⟨_, rfl, hr.kind.symm.trans kind⟩

theorem start (hh : home.Anchored) (hh' : home'.Anchored) :
    Relocated home home' (.ofList [.mount home .source]) (.ofList [.mount home' .source]) where
  roots := .cons (ArtifactRoot.relocated_mount hh hh' (.start home home') .source) .nil
  first := by
    refine ⟨.mount home .source, ?_, rfl⟩
    show [ArtifactRoot.mount home .source].find? _ = _
    have inside : home.startsWith (ArtifactRoot.mount home .source).path = true := by
      show home.startsWith home.normalize = true
      rw [hh.normal]
      exact home.startsWith_self
    rw [List.find?_cons, inside]

theorem insertByDepth {r r' : ArtifactRoot} (hr : r.Relocated home home' r') {rs rs' : List ArtifactRoot}
    (h : List.Forall₂ (ArtifactRoot.Relocated home home') rs rs') :
    List.Forall₂ (ArtifactRoot.Relocated home home') (RootSet.insertByDepth r rs) (RootSet.insertByDepth r' rs') := by
  induction h with
  | nil => exact .cons hr .nil
  | cons first rest ih =>
    unfold RootSet.insertByDepth
    simp only [hr.path.depth_lt_iff first.path]
    split
    · exact .cons hr (.cons first rest)
    · exact .cons first ih

theorem add (h : Relocated home home' s s') {r r' : ArtifactRoot} (hr : r.Relocated home home' r') :
    Relocated home home' (s.add r) (s'.add r') := by
  have known : r ∈ s.roots ↔ r' ∈ s'.roots := forall₂_mem_iff (fun _ _ hq => hr.eq_iff hq) h.roots
  unfold RootSet.add
  by_cases mem : r ∈ s.roots
  · rw [dif_pos mem, dif_pos (known.1 mem)]
    exact h
  · rw [dif_neg mem, dif_neg (mt known.2 mem)]
    obtain ⟨q, found, kind⟩ := h.first
    refine ⟨insertByDepth hr h.roots, q, find?_insertByDepth (fun hit x hx => ?_) found, kind⟩
    -- a root that contains the home is the home, so it is no deeper than the others and comes after them
    obtain ⟨x', -, hx'⟩ := forall₂_exists h.roots x hx
    exact Nat.le_trans (Path.depth_le_of_startsWith hit) hx'.path.depth_le

end Relocated

/-- What a path is named by when a root contains it. -/
theorem resolve_eq {p : Path} {r : ArtifactRoot} (found : s.find? p.normalize = some r) :
    ∃ rel, p.normalize.below? r.path = some rel ∧ s.resolve p = .under r rel ∧ rel.normalize = rel ∧
      (rel = ⟨""⟩ ∨ (s.resolve p).path = p.normalize) := by
  have inside : p.normalize.startsWith r.path = true := by
    unfold find? at found
    simpa only using List.find?_some found
  obtain ⟨rel, below⟩ : ∃ rel, p.normalize.below? r.path = some rel := ⟨_, if_pos inside⟩
  have named : s.resolve p = .under r rel := by
    unfold resolve
    dsimp only
    rw [found]
    dsimp only
    rw [below]
  obtain ⟨normal, joined⟩ := Path.join_below r.path_normal p.normalize_normalize below
  refine ⟨rel, below, named, normal, joined.elim (fun joined => .inr ?_) fun whole => .inl whole.2⟩
  rw [named, Artifact.path_under, normal, joined]

theorem components_path_resolve (s : RootSet) (p : Path) : (s.resolve p).path.components = p.normalize.components := by
  have normal : s.resolve p.normalize = s.resolve p := by
    unfold resolve
    rw [p.normalize_normalize]
  rw [← normal]
  rcases s.path_resolve p.normalize_normalize with same | ⟨root, -, -, slash⟩
  · rw [same]
  · rw [slash, Path.components_join_nothing]

namespace Relocated

variable {p p' : Path}

/-- **A path and the moved path are named by twins.** -/
theorem twin_resolve (h : Relocated home home' s s') (hh : home.Anchored) (hh' : home'.Anchored)
    (moved : Path.Moved home home' p p') : Artifact.Twin home home' (s.resolve p) (s'.resolve p') := by
  have twin := Path.Twin.of_normalize hh hh' moved
  have roots := h.find? twin.moved
  obtain ⟨first, found, -⟩ := h.first
  have contained : p.normalize.startsWith first.path = true := by
    unfold RootSet.find? at found
    exact Path.startsWith_trans twin.moved.startsWith (by simpa only using List.find?_some found)
  generalize hr : s.find? p.normalize = there at roots
  generalize hr' : s'.find? p'.normalize = here at roots
  cases roots with
  | none => exact absurd contained (List.find?_eq_none.1 hr first (List.mem_of_find?_eq_some found))
  | some same =>
    obtain ⟨rel, below, named, fixed, spelled⟩ := resolve_eq hr
    obtain ⟨rel', below', named', -, spelled'⟩ := resolve_eq hr'
    rw [twin.moved.below?_eq same.path, below'] at below
    cases below
    constructor
    case relocated =>
      rw [named, named']
      exact ⟨same, rfl⟩
    case path => exact twin.moved.congr (s.components_path_resolve p) (s'.components_path_resolve p')
    case spelled =>
      rcases spelled with empty | spelled
      · rw [named]
        exact .inl (fixed.trans empty)
      · rcases spelled' with empty | spelled'
        · rw [named]
          exact .inl (fixed.trans empty)
        · rw [spelled, spelled']
          exact .inr twin

/-- **Only a source can be the home itself.** -/
theorem components_ne_of_output (h : Relocated home home' s s') (hh : home.Anchored)
    (output : (s.resolve p).root.kind = .output) : p.components ≠ home.components := by
  intro same
  obtain ⟨r, found, kind⟩ := h.first
  have normal : p.normalize = home := (Path.normalize_congr same).trans hh.normal
  obtain ⟨rel, -, named, -⟩ := resolve_eq (p := p) (by rw [normal]; exact found)
  rw [named] at output
  exact absurd (kind.symm.trans output) (by decide)

end Relocated
end RootSet
end IncludeClosure
