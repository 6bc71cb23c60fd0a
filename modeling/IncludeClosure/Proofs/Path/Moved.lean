import Mathlib.Data.Set.List
import IncludeClosure.Proofs.Artifact.Resolve
import IncludeClosure.Request.Relocation
/-!
# Proofs.Path.Moved — paths below two directories

A path below one directory and the path with the same names below another (`Moved`) cannot be told apart by anything
that looks at components: their order among such paths (`Moved.order_eq`), what lies below what (`Moved.startsWith_eq`),
what is left there (`Moved.below?_eq`), which of two is deeper.  Inward names lead from such paths to such paths again
(`Moved.join`), and so does going up, but not from the directory itself (`Moved.parent?`).
-/
namespace IncludeClosure
namespace Component

theorem Inner.eq_name {c : Component} (h : c.Inner) (notParent : c ≠ .parent) : ∃ text, c = .name text := by
  cases c with
  | root => exact absurd rfl h.ne_root
  | current => exact absurd (by decide) h.text_ne_dot
  | parent => exact absurd rfl notParent
  | name text => exact ⟨text, rfl⟩

end Component

namespace Path

/-! ## The normal form -/

theorem push_name (stack : List Component) (text : String) : push stack (.name text) = .name text :: stack := by
  cases stack with
  | nil => rfl
  | cons top below => cases top <;> rfl

theorem foldl_push_names : ∀ (names : List String) (stack : List Component),
    (names.map .name).foldl push stack = (names.map .name).reverse ++ stack
  | [], _ => rfl
  | text :: names, stack => by
    rw [List.map_cons, List.foldl_cons, push_name, foldl_push_names names, List.reverse_cons, List.append_assoc]
    rfl

/-- Names below a directory in normal form are in normal form. -/
theorem normalComponents_append {home : Path} (normal : home.normalize = home) (names : List String) :
    normalComponents (home.components ++ names.map .name) = home.components ++ names.map .name := by
  have front : (home.components.foldl push []).reverse = home.components := components_of_normal normal
  unfold normalComponents
  rw [List.foldl_append, foldl_push_names, List.reverse_append, List.reverse_reverse, front]

/-- The pieces of a path in normal form are its components. -/
theorem pieces_of_normal {p : Path} (normal : p.normalize = p) (filled : p.components ≠ [])
    (notTop : p.components ≠ [.root]) : pieces p.text.toList = p.components.map (·.text.toList) := by
  have spelled := toList_ofComponents notTop
  rw [ofComponents_components normal] at spelled
  rw [spelled]
  refine pieces_joinPieces _ (by simpa using filled) fun piece mem => ?_
  obtain ⟨c, hc, rfl⟩ := List.mem_map.1 mem
  obtain ⟨front, inner, split, hf, hi⟩ := p.wellFormed_components
  rw [split] at hc
  rcases List.mem_append.1 hc with hc | hc
  · rcases hf with rfl | rfl | rfl
    · exact absurd hc List.not_mem_nil
    · rw [List.mem_singleton.1 hc]
      decide
    · rw [List.mem_singleton.1 hc]
      decide
  · exact (hi c hc).1

theorem WellFormed.dropLast {cs : List Component} (h : WellFormed cs) : WellFormed cs.dropLast := by
  obtain ⟨front, inner, rfl, hf, hi⟩ := h
  by_cases more : inner = []
  · refine ⟨[], [], ?_, .inl rfl, nofun⟩
    rcases hf with rfl | rfl | rfl <;> rw [more] <;> rfl
  · exact ⟨front, inner.dropLast, List.dropLast_append_of_ne_nil more, hf,
      fun c hc => hi c (List.dropLast_subset _ hc)⟩

/-! ## Inward paths -/

/-- **An inward path names what lies on the way down.** -/
theorem Inward.exists_names {p : Path} (h : p.Inward) : ∃ names : List String, named p.text.toList = names.map .name := by
  have each (c : Component) (mem : c ∈ named p.text.toList) : ∃ text, .name text = c := by
    have notParent : c ≠ .parent := by
      rintro rfl
      exact h.2 (List.mem_append_right _ mem)
    obtain ⟨text, e⟩ := (inner_of_mem_pieces mem).eq_name notParent
    exact ⟨text, e.symm⟩
  have range : named p.text.toList ∈ Set.range (List.map Component.name) := by
    rw [Set.range_list_map]
    exact each
  obtain ⟨names, e⟩ := range
  exact ⟨names, e.symm⟩

theorem name_notMem_leading (name : String) (text : List Char) : .name name ∉ leading text := by
  unfold leading
  split
  · simp
  · split <;> simp

namespace Anchored

variable {home : Path}

theorem components_eq (h : home.Anchored) : ∃ rest ≠ [], home.components = .root :: rest := by
  have lead := (isAbsolute_iff home).1 h.absolute
  have split : home.components = .root :: named home.text.toList := by rw [Path.components_eq, lead]; rfl
  refine ⟨_, fun empty => h.notTop ?_, split⟩
  rw [empty] at split
  rw [← ofComponents_components h.normal, split]
  rfl

theorem components_ne_nil (h : home.Anchored) : home.components ≠ [] := by
  obtain ⟨rest, -, e⟩ := h.components_eq
  rw [e]
  exact List.cons_ne_nil _ _

theorem text_ne_empty (h : home.Anchored) {p : Path} {rest : List Component}
    (below : p.components = home.components ++ rest) : p.text ≠ "" := fun empty => by
  rw [components_eq_nil.2 empty] at below
  exact h.components_ne_nil (List.append_eq_nil_iff.1 below.symm).1

theorem components_join (h : home.Anchored) {target : Path} (inward : target.Inward) :
    (home.join target).components = home.components ++ named target.text.toList :=
  Path.components_join (h.text_ne_empty (List.append_nil _).symm) inward.1

/-- **Below such a directory** the path without its last component is a place, and so it is for the directory. -/
theorem parent?_isSome (h : home.Anchored) {p : Path} {rest : List Component}
    (below : p.components = home.components ++ rest) : p.parent?.isSome = true := by
  obtain ⟨front, more, e⟩ := h.components_eq
  rw [e, List.cons_append] at below
  have inner := inner_of_append (show p.components = [.root] ++ (front ++ rest) from below) (List.cons_ne_nil _ _)
  have filled : front ++ rest ≠ [] := fun empty => more (List.append_eq_nil_iff.1 empty).1
  have last : p.components.getLast? = some ((front ++ rest).getLast filled) := by
    rw [below, List.getLast?_cons, List.getLast?_eq_some_getLast filled]
    rfl
  have notRoot := (inner _ (List.getLast_mem filled)).ne_root
  unfold parent?
  rw [last]
  split
  · rename_i none
    cases none
  · rename_i root
    exact absurd (Option.some.inj root) notRoot
  · rfl

end Anchored

/-! ## Below two directories -/

theorem compareLex_append_left {α : Type} (cmp : α → α → Ordering) [Std.ReflCmp cmp] (xs ys : List α) :
    ∀ front : List α, List.compareLex cmp (front ++ xs) (front ++ ys) = List.compareLex cmp xs ys
  | [] => rfl
  | a :: front => by
    rw [List.cons_append, List.cons_append, List.compareLex_cons_cons, @Std.ReflCmp.compare_self _ cmp,
      compareLex_append_left cmp xs ys front]
    rfl

namespace Moved

variable {home home' p p' q q' : Path}

theorem symm (h : Moved home home' p p') : Moved home' home p' p :=
  let ⟨names, e, e'⟩ := h
  ⟨names, e', e⟩

/-- The directories themselves. -/
theorem start (home home' : Path) : Moved home home' home home' :=
  ⟨[], (List.append_nil _).symm, (List.append_nil _).symm⟩

theorem congr (h : Moved home home' p p') (e : q.components = p.components) (e' : q'.components = p'.components) :
    Moved home home' q q' := by
  obtain ⟨names, hp, hp'⟩ := h
  exact ⟨names, e.trans hp, e'.trans hp'⟩

theorem components_normalize (h : Moved home home' p p') (normal : home.normalize = home) :
    p.normalize.components = p.components := by
  obtain ⟨names, e, -⟩ := h
  rw [Path.components_normalize, e, normalComponents_append normal]

theorem normalize (h : Moved home home' p p') (hh : home.Anchored) (hh' : home'.Anchored) :
    Moved home home' p.normalize p'.normalize :=
  h.congr (h.components_normalize hh.normal) (h.symm.components_normalize hh'.normal)

/-- **An inward name** leads further down. -/
theorem join (h : Moved home home' p p') (hh : home.Anchored) (hh' : home'.Anchored) {target : Path}
    (inward : target.Inward) : Moved home home' (p.join target) (p'.join target) := by
  obtain ⟨names, e, e'⟩ := h
  obtain ⟨more, he⟩ := inward.exists_names
  refine ⟨names ++ more, ?_, ?_⟩
  · rw [components_join (hh.text_ne_empty e) inward.1, he, e, List.map_append, List.append_assoc]
  · rw [components_join (hh'.text_ne_empty e') inward.1, he, e', List.map_append, List.append_assoc]

/-- **Going up** from below the directories. -/
theorem parent? (h : Moved home home' p p') (below : p.components ≠ home.components) :
    Option.Rel (Moved home home') p.parent? p'.parent? := by
  obtain ⟨names, e, e'⟩ := h
  rcases List.eq_nil_or_concat names with rfl | ⟨init, last, rfl⟩
  · exact absurd (e.trans (List.append_nil _)) below
  · have up {start q : Path} (hq : q.components = start.components ++ (init.concat last).map .name) :
        ∃ r, q.parent? = some r ∧ r.components = start.components ++ init.map .name := by
      rw [List.concat_eq_append, List.map_append, ← List.append_assoc] at hq
      refine ⟨Path.ofComponents q.components.dropLast, ?_, ?_⟩
      · unfold Path.parent?
        rw [hq, List.map_singleton, List.getLast?_concat]
      · rw [components_ofComponents q.wellFormed_components.dropLast, hq, List.map_singleton, List.dropLast_concat]
    obtain ⟨r, hr, er⟩ := up e
    obtain ⟨r', hr', er'⟩ := up e'
    rw [hr, hr']
    exact .some ⟨init, er, er'⟩

/-- **The order of two paths** is the order of their names. -/
theorem order_eq (hp : Moved home home' p p') (hq : Moved home home' q q') : p.order q = p'.order q' := by
  obtain ⟨names, ep, ep'⟩ := hp
  obtain ⟨names', eq, eq'⟩ := hq
  unfold Path.order
  rw [ep, ep', eq, eq', compareLex_append_left, compareLex_append_left]

theorem components_eq_iff (hp : Moved home home' p p') (hq : Moved home home' q q') :
    p.components = q.components ↔ p'.components = q'.components := by
  rw [← order_eq_iff, ← order_eq_iff, hp.order_eq hq]

theorem startsWith_eq (hp : Moved home home' p p') (hq : Moved home home' q q') : p.startsWith q = p'.startsWith q' := by
  obtain ⟨names, ep, ep'⟩ := hp
  obtain ⟨names', eq, eq'⟩ := hq
  unfold Path.startsWith
  rw [Bool.eq_iff_iff, List.isPrefixOf_iff_prefix, List.isPrefixOf_iff_prefix, ep, ep', eq, eq',
    List.prefix_append_right_inj, List.prefix_append_right_inj]

/-- **What is left below another** such path. -/
theorem below?_eq (hp : Moved home home' p p') (hq : Moved home home' q q') : p.below? q = p'.below? q' := by
  have inside := hp.startsWith_eq hq
  obtain ⟨names, ep, ep'⟩ := hp
  obtain ⟨names', eq, eq'⟩ := hq
  unfold Path.below?
  rw [inside, ep, ep', eq, eq', List.length_append, List.length_append, List.drop_length_add_append,
    List.drop_length_add_append]

theorem depth_lt_iff (hp : Moved home home' p p') (hq : Moved home home' q q') :
    q.depth < p.depth ↔ q'.depth < p'.depth := by
  obtain ⟨names, ep, ep'⟩ := hp
  obtain ⟨names', eq, eq'⟩ := hq
  unfold Path.depth
  rw [ep, ep', eq, eq']
  simp only [List.length_append]
  omega

end Moved

/-- **One place below two directories,** spelled in normal form on both sides. -/
structure Twin (home home' p p' : Path) : Prop where
  moved : Moved home home' p p'
  normal : p.normalize = p
  normal' : p'.normalize = p'

namespace Twin

variable {home home' p p' : Path}

theorem symm (h : Twin home home' p p') : Twin home' home p' p where
  moved := h.moved.symm
  normal := h.normal'
  normal' := h.normal

theorem of_normalize (hh : home.Anchored) (hh' : home'.Anchored) (h : Moved home home' p p') :
    Twin home home' p.normalize p'.normalize where
  moved := h.normalize hh hh'
  normal := p.normalize_normalize
  normal' := p'.normalize_normalize

end Twin
end Path
end IncludeClosure
