import IncludeClosure.Proofs.FileTree.Copy
/-!
# Proofs.Path.Absorb — a normal form inside a join does not show

To join and then take the normal form is to push what the name adds on the stack of the directory (`foldl_push_join`).
The components of a normal form push like those that it comes from, on any stack (`foldl_push_normalComponents`).  So
either side of a join may be put into normal form first.
-/
namespace IncludeClosure
namespace Path

theorem push_current (stack : List Component) : push stack .current = stack := by
  cases stack with
  | nil => rfl
  | cons top below => cases top <;> rfl

theorem mem_push {stack : List Component} {c x : Component} (mem : x ∈ push stack c) : x ∈ stack ∨ x = c := by
  unfold push at mem
  split at mem
  · exact .inl mem
  · exact .inl (List.mem_cons_of_mem _ mem)
  · exact .inl mem
  · exact (List.mem_cons.1 mem).symm

/-- **A stack that is pushed on another,** from its bottom, takes one more component where it is or there. -/
theorem foldl_push_push {own : List Component} {c : Component} (noRoot : .root ∉ own) (inner : c ≠ .root)
    (stack : List Component) : (push own c).reverse.foldl push stack = push (own.reverse.foldl push stack) c := by
  cases c with
  | root => exact absurd rfl inner
  | current => rw [push_current, push_current]
  | name text => rw [push_name, push_name, List.reverse_cons, List.foldl_append, List.foldl_cons, push_name]; rfl
  | parent =>
    cases own with
    | nil => rfl
    | cons top below =>
      cases top with
      | root => exact absurd List.mem_cons_self noRoot
      | name text =>
        rw [List.reverse_cons, List.foldl_append, List.foldl_cons, push_name]
        rfl
      | _ =>
        show (List.reverse (.parent :: _ :: below)).foldl push stack = _
        rw [List.reverse_cons, List.foldl_append]
        rfl

theorem foldl_push_foldl (stack : List Component) : ∀ (cs own : List Component), .root ∉ cs → .root ∉ own →
    (cs.foldl push own).reverse.foldl push stack = cs.foldl push (own.reverse.foldl push stack)
  | [], _, _, _ => rfl
  | c :: cs, own, noRoot, clean => by
    obtain ⟨inner, noRoot⟩ := List.ne_and_not_mem_of_not_mem_cons noRoot
    have clean' : .root ∉ push own c := fun mem => (mem_push mem).elim clean inner
    rw [List.foldl_cons, List.foldl_cons, foldl_push_foldl stack cs _ noRoot clean',
      foldl_push_push clean (Ne.symm inner)]

/-- **The components of a normal form** push like those that it comes from, on any stack. -/
theorem foldl_push_normalComponents {cs : List Component} (noRoot : .root ∉ cs) (stack : List Component) :
    (normalComponents cs).foldl push stack = cs.foldl push stack :=
  foldl_push_foldl stack cs [] noRoot List.not_mem_nil

theorem leading_of_relative {p : Path} (relative : p.isAbsolute = false) :
    leading p.text.toList = [] ∨ leading p.text.toList = [.current] := by
  have slash : ¬ p.text.toList.head? = some '/' := by simpa [isAbsolute] using relative
  unfold leading
  rw [if_neg slash]
  split
  · exact .inr rfl
  · exact .inl rfl

/-- What a relative path names is all that it pushes. -/
theorem foldl_push_named {p : Path} (relative : p.isAbsolute = false) (stack : List Component) :
    (named p.text.toList).foldl push stack = p.components.foldl push stack := by
  rw [components_eq, List.foldl_append]
  rcases leading_of_relative relative with front | front <;> rw [front]
  · rfl
  · rw [List.foldl_cons, push_current, List.foldl_nil]

theorem root_notMem_components {p : Path} (relative : p.isAbsolute = false) : .root ∉ p.components := by
  intro mem
  rw [components_eq] at mem
  rcases List.mem_append.1 mem with mem | mem
  · rcases leading_of_relative relative with front | front <;> simp [front] at mem
  · exact (inner_of_mem_pieces mem).ne_root rfl

theorem isAbsolute_iff_mem {p : Path} : p.isAbsolute = true ↔ .root ∈ p.components := by
  constructor
  · intro absolute
    rw [components_eq, (isAbsolute_iff p).1 absolute]
    exact List.mem_append_left _ List.mem_cons_self
  · intro mem
    cases relative : p.isAbsolute with
    | true => rfl
    | false => exact absurd mem (root_notMem_components relative)

/-- The root is never pushed off a stack. -/
theorem root_mem_push {stack : List Component} {c : Component} : .root ∈ push stack c ↔ .root ∈ stack ∨ c = .root := by
  refine ⟨fun mem => (mem_push mem).imp_right Eq.symm, ?_⟩
  rintro (mem | rfl)
  · unfold push
    split
    · exact mem
    · exact (List.mem_cons.1 mem).resolve_left nofun
    · exact mem
    · exact List.mem_cons_of_mem _ mem
  · cases stack with
    | nil => exact List.mem_cons_self
    | cons top below => cases top <;> exact List.mem_cons_self

theorem root_mem_foldl_push : ∀ {cs stack : List Component},
    .root ∈ cs.foldl push stack ↔ .root ∈ cs ∨ .root ∈ stack
  | [], stack => by simp
  | c :: cs, stack => by
    rw [List.foldl_cons, root_mem_foldl_push, root_mem_push, List.mem_cons]
    constructor
    · rintro (mem | mem | rfl)
      · exact .inl (.inr mem)
      · exact .inr mem
      · exact .inl (.inl rfl)
    · rintro ((rfl | mem) | mem)
      · exact .inr (.inr rfl)
      · exact .inl mem
      · exact .inr (.inl mem)

@[simp] theorem isAbsolute_normalize (p : Path) : p.normalize.isAbsolute = p.isAbsolute := by
  rw [Bool.eq_iff_iff, isAbsolute_iff_mem, isAbsolute_iff_mem, components_normalize, normalComponents,
    List.mem_reverse, root_mem_foldl_push]
  exact or_iff_left List.not_mem_nil

/-- **Joining is pushing:** first the directory and then what the name adds. -/
theorem foldl_push_join (base : Path) {other : Path} (relative : other.isAbsolute = false) :
    (base.join other).components.foldl push [] =
      (named other.text.toList).foldl push (base.components.foldl push []) := by
  by_cases empty : base.text = ""
  · have here : base.join other = other := by simp [join, relative, empty]
    rw [here, components_eq_nil.2 empty, foldl_push_named relative]
    rfl
  · rw [components_join empty relative, List.foldl_append]

theorem foldl_push_normalize (p : Path) : p.normalize.components.foldl push [] = p.components.foldl push [] := by
  rw [components_normalize, normalComponents, foldl_push_reverse _ (settled_normalComponents p.wellFormed_components)]

theorem normalize_eq_of_foldl {p q : Path} (h : p.components.foldl push [] = q.components.foldl push []) :
    p.normalize = q.normalize := by
  rw [normalize, normalize, normalComponents, normalComponents, h]

/-- **The directory of a join** may be put into normal form first. -/
theorem normalize_normalize_join (base other : Path) :
    (base.normalize.join other).normalize = (base.join other).normalize := by
  cases relative : other.isAbsolute with
  | true =>
    have itself (base : Path) : base.join other = other := if_pos relative
    rw [itself, itself]
  | false =>
    apply normalize_eq_of_foldl
    rw [foldl_push_join _ relative, foldl_push_join _ relative, foldl_push_normalize]

/-- **The name in a join** may be put into normal form first. -/
theorem normalize_join_normalize (base other : Path) :
    (base.join other.normalize).normalize = (base.join other).normalize := by
  cases relative : other.isAbsolute with
  | true =>
    have itself {other : Path} (absolute : other.isAbsolute = true) : base.join other = other := if_pos absolute
    rw [itself relative, itself (by rw [isAbsolute_normalize, relative]), normalize_normalize]
  | false =>
    have relative' : other.normalize.isAbsolute = false := by rw [isAbsolute_normalize, relative]
    apply normalize_eq_of_foldl
    rw [foldl_push_join _ relative, foldl_push_join _ relative', foldl_push_named relative, foldl_push_named relative',
      components_normalize, foldl_push_normalComponents (root_notMem_components relative)]

end Path
end IncludeClosure
