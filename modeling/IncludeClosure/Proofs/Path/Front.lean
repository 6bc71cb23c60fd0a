import IncludeClosure.Proofs.Path.Absorb
/-!
# Proofs.Path.Front — what a path in normal form is made of

A path in normal form begins at the root, or climbs some directories, and then takes names on the way down
(`exists_front_of_normal`).  So two of them that begin alike and have the same names are one path
(`BeginsLike.eq_of_names`).  With what a normal form inside a join does not show, these are the laws of the normal form
(`normalize_laws`).
-/
namespace IncludeClosure
namespace Path

variable {p q : Path}

/-- **The two paths begin alike:** at the root, or where relative paths begin and with as many `..`. -/
def BeginsLike (q p : Path) : Prop :=
  q.isAbsolute = p.isAbsolute ∧ q.components.count .parent = p.components.count .parent

/-- A settled stack has its names on top of the root, or on top of some `..`. -/
theorem reverse_of_settled : ∀ stack : List Component, Settled stack → ∃ (front : List Component) (names : List String),
    stack.reverse = front ++ names.map .name ∧ (front = [.root] ∨ ∃ k, front = List.replicate k .parent)
  | [], _ => ⟨[], [], rfl, .inr ⟨0, rfl⟩⟩
  | .current :: _, settled => settled.elim
  | .root :: below, settled => by
    obtain rfl : below = [] := settled
    exact ⟨[.root], [], rfl, .inl rfl⟩
  | .parent :: below, settled => by
    have parents : ∀ c ∈ Component.parent :: below, c = .parent := List.forall_mem_cons.2 ⟨rfl, settled⟩
    refine ⟨List.replicate (below.length + 1) .parent, [], ?_, .inr ⟨_, rfl⟩⟩
    rw [List.eq_replicate_of_mem parents, List.reverse_replicate]
    simp
  | .name text :: below, settled => by
    obtain ⟨front, names, split, begins⟩ := reverse_of_settled below settled
    refine ⟨front, names ++ [text], ?_, begins⟩
    rw [List.reverse_cons, split, List.append_assoc, List.map_append]
    rfl

theorem count_parent_map_name (names : List String) : (names.map Component.name).count .parent = 0 :=
  List.count_eq_zero.2 (by simp)

theorem exists_front_of_normal (normal : p.normalize = p) : ∃ (front : List Component) (names : List String),
    p.components = front ++ names.map .name ∧ (front = [.root] ∨ ∃ k, front = List.replicate k .parent) := by
  obtain ⟨front, names, split, begins⟩ := reverse_of_settled _ (settled_normalComponents p.wellFormed_components)
  exact ⟨front, names, (components_of_normal normal).symm.trans split, begins⟩

/-- An absolute path in normal form does not climb. -/
theorem count_parent_of_absolute (normal : p.normalize = p) (absolute : p.isAbsolute = true) :
    p.components.count .parent = 0 := by
  obtain ⟨front, names, whole, rfl | ⟨k, rfl⟩⟩ := exists_front_of_normal normal
  · simp [whole, count_parent_map_name]
  · have root := isAbsolute_iff_mem.1 absolute
    simp [whole] at root

theorem BeginsLike.ofAbsolute (normalQ : q.normalize = q) (normalP : p.normalize = p) (absoluteQ : q.isAbsolute = true)
    (absoluteP : p.isAbsolute = true) : q.BeginsLike p := by
  unfold BeginsLike
  rw [absoluteQ, absoluteP, count_parent_of_absolute normalQ absoluteQ, count_parent_of_absolute normalP absoluteP]
  exact ⟨rfl, rfl⟩

/-- **What a path in normal form names:** as many `..` as it has, and then names on the way down. -/
theorem exists_names_of_normal (normal : p.normalize = p) : ∃ names : List String,
    leading p.text.toList = (if p.isAbsolute then [.root] else []) ∧
    named p.text.toList = List.replicate (p.components.count .parent) .parent ++ names.map .name := by
  obtain ⟨front, names, whole, begins⟩ := exists_front_of_normal normal
  refine ⟨names, ?_⟩
  cases absolute : p.isAbsolute with
  | true =>
    have lead := (isAbsolute_iff p).1 absolute
    have root := isAbsolute_iff_mem.1 absolute
    rcases begins with rfl | ⟨k, rfl⟩
    · have rest : named p.text.toList = names.map .name := by
        rw [components_eq, lead] at whole
        exact List.append_cancel_left whole
      simp [lead, rest, count_parent_of_absolute normal absolute]
    · simp [whole] at root
  | false =>
    have root := root_notMem_components absolute
    rcases begins with rfl | ⟨k, rfl⟩
    · simp [whole] at root
    · have lead : leading p.text.toList = [] := by
        refine (leading_of_relative absolute).resolve_right fun dot => ?_
        have current : .current ∈ p.components := by rw [components_eq, dot]; exact List.mem_cons_self
        simp [whole] at current
      have rest : named p.text.toList = List.replicate k .parent ++ names.map .name := by
        rw [← whole, components_eq, lead]
        rfl
      simp [lead, rest, whole, count_parent_map_name]

theorem inner_of_named {front : List Component} {names : List String}
    (h : named p.text.toList = front ++ names.map .name) : ∀ name ∈ names, (Component.name name).Inner := by
  intro name mem
  refine inner_of_mem_pieces (show _ ∈ named p.text.toList from ?_)
  rw [h]
  exact List.mem_append_right _ (List.mem_map_of_mem mem)

theorem solid_of_named {names : List String}
    (h : named p.text.toList = List.replicate (p.components.count .parent) .parent ++ names.map .name) :
    solid (pieces p.text.toList) =
      List.replicate (p.components.count .parent) ['.', '.'] ++ names.map (·.toList) := by
  rw [solid_eq, show (pieces p.text.toList).filterMap Component.ofPiece? = _ from h]
  simp [Component.text]

/-- Paths in normal form that begin alike and have the same names are one path. -/
theorem BeginsLike.eq_of_names (h : q.BeginsLike p) (normalQ : q.normalize = q) (normalP : p.normalize = p)
    {names : List String}
    (ofQ : named q.text.toList = List.replicate (q.components.count .parent) .parent ++ names.map .name)
    (ofP : named p.text.toList = List.replicate (p.components.count .parent) .parent ++ names.map .name) : q = p := by
  obtain ⟨_, leadQ, -⟩ := exists_names_of_normal normalQ
  obtain ⟨_, leadP, -⟩ := exists_names_of_normal normalP
  refine eq_of_normal normalQ normalP ?_
  rw [components_eq, components_eq, leadQ, leadP, ofQ, ofP, h.1, h.2]

/-! ## The laws of the normal form -/

theorem exists_names_of_absolute (absolute : p.isAbsolute = true) :
    ∃ names : List String, p.normalize.components = .root :: names.map .name := by
  obtain ⟨front, names, whole, rfl | ⟨k, rfl⟩⟩ := exists_front_of_normal p.normalize_normalize
  · exact ⟨names, whole⟩
  · have root := isAbsolute_iff_mem.1 (p.isAbsolute_normalize.trans absolute)
    simp [whole] at root

theorem exists_climb_of_relative (relative : p.isAbsolute = false) :
    ∃ (k : Nat) (names : List String), p.normalize.components = List.replicate k .parent ++ names.map .name := by
  obtain ⟨front, names, whole, rfl | ⟨k, rfl⟩⟩ := exists_front_of_normal p.normalize_normalize
  · have root := root_notMem_components (p.isAbsolute_normalize.trans relative)
    simp [whole] at root
  · exact ⟨k, names, whole⟩

theorem current_notMem_normalize (p : Path) : .current ∉ p.normalize.components := by
  obtain ⟨front, names, whole, rfl | ⟨k, rfl⟩⟩ := exists_front_of_normal p.normalize_normalize <;> simp [whole]

/-- **The laws of the normal form.**  It has no `.`; that of an absolute path is the root and then names, without any
`..`, and that of a relative path has `..` only at its front.  It is its own normal form.  A directory may be put into
normal form before a path is joined to it, whatever both are: an empty directory, a chain of `..`, an absolute or an
empty path.  And two paths with the same components have the same normal form. -/
theorem normalize_laws (p q : Path) :
    .current ∉ p.normalize.components ∧
    (p.isAbsolute = true → ∃ names : List String, p.normalize.components = .root :: names.map .name) ∧
    (p.isAbsolute = false →
      ∃ (k : Nat) (names : List String), p.normalize.components = List.replicate k .parent ++ names.map .name) ∧
    p.normalize.normalize = p.normalize ∧
    (p.normalize.join q).normalize = (p.join q).normalize ∧
    (p.components = q.components → p.normalize = q.normalize) :=
  ⟨current_notMem_normalize p, exists_names_of_absolute, exists_climb_of_relative, p.normalize_normalize,
    normalize_normalize_join p q, normalize_congr⟩

/-- A path that goes above the root, one that goes above where it begins, and a directory that is nothing at all. -/
theorem normalize_laws_overshoot :
    (Path.mk "/a/./../../b").isAbsolute = true ∧
    (∃ names : List String, (Path.mk "/a/./../../b").normalize.components = .root :: names.map .name) ∧
    (Path.mk "../a/../../b").isAbsolute = false ∧
    (∃ (k : Nat) (names : List String),
      (Path.mk "../a/../../b").normalize.components = List.replicate k .parent ++ names.map .name) ∧
    (Path.mk "./a/..").normalize = ⟨""⟩ ∧
    ((Path.mk "./a/..").normalize.join ⟨"../b"⟩).normalize = ((Path.mk "./a/..").join ⟨"../b"⟩).normalize ∧
    (Path.mk "a//b/.").components = (Path.mk "a/b/").components ∧
    (Path.mk "a//b/.").normalize = (Path.mk "a/b/").normalize := by
  obtain ⟨-, absolute, -⟩ := normalize_laws ⟨"/a/./../../b"⟩ ⟨""⟩
  obtain ⟨-, -, relative, -⟩ := normalize_laws ⟨"../a/../../b"⟩ ⟨""⟩
  obtain ⟨-, -, -, -, joined, -⟩ := normalize_laws ⟨"./a/.."⟩ ⟨"../b"⟩
  obtain ⟨-, -, -, -, -, same⟩ := normalize_laws ⟨"a//b/."⟩ ⟨"a/b/"⟩
  have spelled : (Path.mk "a//b/.").components = (Path.mk "a/b/").components := by decide
  exact ⟨by decide, absolute (by decide), by decide, relative (by decide), by decide, joined, spelled, same spelled⟩

end Path
end IncludeClosure
