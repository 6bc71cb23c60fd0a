import IncludeClosure.Artifact.RootSet
import IncludeClosure.Proofs.FileTree.Spelling
import IncludeClosure.Proofs.Path.Join
/-!
# Proofs.Artifact.Resolve — the artifact at a path lies at that path

What is left of a path in normal form below one of its directories is in normal form, and joining it to the directory
spells the path again (`join_below`).  So the artifact at a path in normal form lies at that very path, with one
exception: a root that **is** the path leaves nothing to name the file by, and joining nothing adds a slash
(`path_resolve`).  The slash names no component, so in either case the artifact is the one at its own path
(`resolve_path_resolve`).
-/
namespace IncludeClosure
namespace Path

theorem settled_of_append {below : List Component} : ∀ top : List Component, Settled (top ++ below) → Settled top
  | [], _ => trivial
  | .current :: _, h => h.elim
  | .root :: _, h => (List.append_eq_nil_iff.1 h).1
  | .parent :: _, h => fun c hc => h c (List.mem_append_left _ hc)
  | .name _ :: top, h => settled_of_append top h

theorem components_of_normal {p : Path} (hp : p.normalize = p) : normalComponents p.components = p.components := by
  rw [← components_normalize, hp]

theorem ofComponents_components {p : Path} (hp : p.normalize = p) : ofComponents p.components = p := by
  rw [← components_of_normal hp]
  exact hp

/-- **What is left below a directory is in normal form.** -/
theorem normal_of_append {p : Path} (hp : p.normalize = p) {front rest : List Component}
    (split : p.components = front ++ rest) :
    (ofComponents rest).components = rest ∧ (ofComponents rest).normalize = ofComponents rest := by
  have stack : p.components.foldl push [] = rest.reverse ++ front.reverse := by
    have e : (p.components.foldl push []).reverse = p.components := components_of_normal hp
    rw [← List.reverse_append, ← split, ← e, List.reverse_reverse, e]
  have settled := settled_normalComponents p.wellFormed_components
  have inner := inner_normalComponents p.wellFormed_components
  rw [stack] at settled inner
  have top := settled_of_append rest.reverse settled
  have wf := wellFormed_reverse_of_settled rest.reverse top fun c hc => inner c (List.mem_append_left _ hc)
  rw [List.reverse_reverse] at wf
  have read := components_ofComponents wf
  refine ⟨read, ?_⟩
  have fixed := foldl_push_reverse rest.reverse top
  rw [List.reverse_reverse] at fixed
  unfold normalize normalComponents
  rw [read, fixed, List.reverse_reverse]

theorem joinPieces_append : ∀ {xs ys : List (List Char)}, xs ≠ [] → ys ≠ [] →
    joinPieces (xs ++ ys) = joinPieces xs ++ '/' :: joinPieces ys
  | [], _, h, _ => absurd rfl h
  | [x], [], _, h => absurd rfl h
  | [x], y :: ys, _, _ => rfl
  | x :: x' :: xs, ys, _, h => by
    have ih := joinPieces_append (List.cons_ne_nil x' xs) h
    show x ++ '/' :: joinPieces (x' :: xs ++ ys) = (x ++ '/' :: joinPieces (x' :: xs)) ++ '/' :: joinPieces ys
    rw [ih, List.append_assoc]
    rfl

/-- A spelling ends as its last piece does. -/
theorem getLast?_joinPieces : ∀ {ps : List (List Char)} {piece : List Char}, piece ≠ [] →
    (joinPieces (ps ++ [piece])).getLast? = piece.getLast?
  | [], _, _ => rfl
  | p :: ps, piece, h => by
    have split : joinPieces (p :: ps ++ [piece]) = joinPieces (p :: ps) ++ '/' :: piece :=
      joinPieces_append (List.cons_ne_nil _ _) (List.cons_ne_nil _ _)
    rw [split, List.getLast?_append, List.getLast?_cons]
    cases e : piece.getLast? with
    | none => exact absurd (List.getLast?_eq_none_iff.1 e) h
    | some c => rfl

theorem toList_ofComponents {cs : List Component} (h : cs ≠ [.root]) :
    (ofComponents cs).text.toList = joinPieces (cs.map (·.text.toList)) := by
  unfold ofComponents
  split
  · exact absurd rfl h
  · exact String.toList_ofList

theorem not_isAbsolute_of_inner {cs : List Component} (read : (ofComponents cs).components = cs)
    (inner : ∀ c ∈ cs, c.Inner) : (ofComponents cs).isAbsolute = false := by
  rw [Bool.eq_false_iff]
  intro absolute
  have first := (isAbsolute_iff _).1 absolute
  rw [leading_eq, read] at first
  have mem : Component.root ∈ cs.takeWhile (fun c => decide (c = .root ∨ c = .current)) := by
    rw [first]
    exact List.mem_cons_self
  exact (inner _ ((List.takeWhile_sublist _).subset mem)).ne_root rfl

/-- The spelling of a directory in normal form ends in a slash only at the root. -/
theorem getLast?_text {base : Path} (hb : base.normalize = base) (filled : base.components ≠ [])
    (notRoot : base.components ≠ [.root]) : ∃ c, base.text.toList.getLast? = some c ∧ c ≠ '/' := by
  obtain ⟨front, inner, split, hf, hi⟩ := base.wellFormed_components
  have named : ∃ init last, base.components = init ++ [last] ∧ '/' ∉ last.text.toList ∧ last.text.toList ≠ [] := by
    rcases List.eq_nil_or_concat inner with rfl | ⟨init, last, rfl⟩
    · rw [List.append_nil] at split
      rcases hf with rfl | rfl | rfl
      · exact absurd split filled
      · exact absurd split notRoot
      · exact ⟨[], .current, split, by decide, by decide⟩
    · rw [List.concat_eq_append] at split hi
      have hl := hi last (List.mem_append_right _ (List.mem_singleton_self _))
      exact ⟨front ++ init, last, by rw [split, List.append_assoc], hl.1, hl.text_ne_nil⟩
  obtain ⟨init, last, e, slash, some⟩ := named
  have text := toList_ofComponents notRoot
  rw [ofComponents_components hb, e, List.map_append] at text
  have ends : (joinPieces (init.map (·.text.toList) ++ [last.text.toList])).getLast? = last.text.toList.getLast? :=
    getLast?_joinPieces some
  rw [List.getLast?_eq_some_getLast some] at ends
  refine ⟨last.text.toList.getLast some, ?_, fun h => slash ?_⟩
  · rw [text]
    exact ends
  · rw [← h]
    exact List.getLast_mem some

/-- **Joining spells the components one after another.** -/
theorem join_ofComponents {base : Path} (hb : base.normalize = base) (filled : base.components ≠ [])
    {rest : List Component} (inner : ∀ c ∈ rest, c.Inner) (more : rest ≠ []) :
    base.join (ofComponents rest) = ofComponents (base.components ++ rest) := by
  have read : (ofComponents rest).components = rest := components_ofComponents ⟨[], rest, rfl, .inl rfl, inner⟩
  have relative := not_isAbsolute_of_inner read inner
  have notRoot : rest ≠ [.root] := fun e => (inner .root (by rw [e]; exact List.mem_cons_self)).ne_root rfl
  have longer : base.components ++ rest ≠ [.root] := by
    intro e
    have hl := congrArg List.length e
    rw [List.length_append, List.length_singleton] at hl
    have some := List.length_pos_iff.2 filled
    have others := List.length_pos_iff.2 more
    omega
  have whole : (ofComponents (base.components ++ rest)).text.toList =
      joinPieces (base.components.map (·.text.toList)) ++ '/' :: (ofComponents rest).text.toList := by
    rw [toList_ofComponents longer, toList_ofComponents notRoot, List.map_append]
    exact joinPieces_append (by simpa using filled) (by simpa using more)
  have text : (base.join (ofComponents rest)).text.toList =
      joinPieces (base.components.map (·.text.toList)) ++ '/' :: (ofComponents rest).text.toList := by
    unfold join
    rw [if_neg (by rw [relative]; decide)]
    by_cases top : base.components = [.root]
    · have spelled : base = ⟨"/"⟩ := by rw [← ofComponents_components hb, top]; rfl
      subst spelled
      simp [top, joinPieces, Component.text]
    · obtain ⟨c, last, hc⟩ := getLast?_text hb filled top
      have spelled := toList_ofComponents top
      rw [ofComponents_components hb] at spelled
      rw [last]
      split
      · rename_i e
        cases e
      · rename_i e
        exact absurd (Option.some.inj e) hc
      · rw [← spelled]
        simp
  exact congrArg Path.mk (String.toList_inj.1 (text.trans whole.symm))

/-- What is left of a path below a directory that is not empty has no root in it. -/
theorem inner_of_append {p : Path} {front rest : List Component} (split : p.components = front ++ rest)
    (some : front ≠ []) : ∀ c ∈ rest, c.Inner := by
  obtain ⟨lead, inner, e, hl, hi⟩ := p.wellFormed_components
  obtain ⟨c, cs, rfl⟩ := List.exists_cons_of_ne_nil some
  rw [e] at split
  have tail : ∃ before, inner = before ++ rest := by
    rcases hl with rfl | rfl | rfl
    · exact ⟨c :: cs, split⟩
    · exact ⟨cs, (List.cons.inj split).2⟩
    · exact ⟨cs, (List.cons.inj split).2⟩
  obtain ⟨before, rfl⟩ := tail
  exact fun d hd => hi d (List.mem_append_right _ hd)

theorem join_empty_base {base : Path} (h : base.components = []) (other : Path) : base.join other = other := by
  have text : base.text.toList = [] := String.toList_eq_nil_iff.2 (components_eq_nil.1 h)
  unfold join
  rw [text]
  split
  · rfl
  · rfl

/-- Joining nothing adds a slash at most. -/
theorem components_join_nothing (p : Path) : (p.join ⟨""⟩).components = p.components := by
  by_cases empty : p.text = ""
  · rw [join_empty_base (components_eq_nil.2 empty), components_eq_nil.2 empty]
    decide
  · rw [components_join empty (by decide)]
    exact List.append_nil _

/-- **A path that lies below a directory** is the directory joined with what is left, unless nothing is left. -/
theorem join_below {base p rel : Path} (hb : base.normalize = base) (hp : p.normalize = p)
    (h : p.below? base = some rel) :
    rel.normalize = rel ∧ (base.join rel = p ∨ base = p ∧ rel = ⟨""⟩) := by
  unfold below? at h
  split at h
  · rename_i inside
    obtain ⟨rest, split⟩ := List.isPrefixOf_iff_prefix.1 inside
    have dropped : p.components.drop base.components.length = rest := by rw [← split, List.drop_left]
    rw [dropped] at h
    obtain rfl : ofComponents rest = rel := Option.some.inj h
    refine ⟨(normal_of_append hp split.symm).2, ?_⟩
    by_cases filled : base.components = []
    · rw [join_empty_base filled]
      rw [filled, List.nil_append] at split
      rw [split, ofComponents_components hp]
      exact .inl rfl
    · by_cases more : rest = []
      · -- joining nothing would add a slash, so the path is the directory and not the join
        subst more
        rw [List.append_nil] at split
        exact .inr ⟨eq_of_normal hb hp split, rfl⟩
      · rw [join_ofComponents hb filled (inner_of_append split.symm filled) more, split, ofComponents_components hp]
        exact .inl rfl
  · cases h

end Path

namespace Artifact

theorem path_under (root : ArtifactRoot) (rel : Path) : (under root rel).path = root.path.join rel.normalize := rfl

variable {p : Path}

theorem path_absolute (hp : p.normalize = p) : (Artifact.absolute p).path = p := by
  have top : (topOf p).normalize = topOf p := by
    unfold topOf
    split <;> decide
  have inside : p.startsWith (topOf p) = true := by
    unfold Path.startsWith topOf
    by_cases absolute : p.isAbsolute = true
    · have first := (Path.isAbsolute_iff p).1 absolute
      rw [if_pos absolute, p.components_eq, first]
      rfl
    · rw [if_neg absolute]
      rfl
  have below : p.below? (topOf p) = some (Path.ofComponents (p.components.drop (topOf p).components.length)) :=
    if_pos inside
  obtain ⟨normal, joined⟩ := Path.join_below top hp below
  have lies : (Artifact.absolute p).path =
      (topOf p).join (Path.ofComponents (p.components.drop (topOf p).components.length)) := by
    unfold Artifact.absolute
    dsimp only
    rw [hp, below, path_under, Option.getD_some, normal]
    exact congrArg (Path.join · _) top
  rw [lies]
  rcases joined with joined | ⟨whole, empty⟩
  · exact joined
  · rw [empty, whole]
    unfold topOf at whole
    split at whole
    · rw [← whole]
      decide
    · rw [← whole]
      decide

end Artifact

namespace RootSet

theorem resolve_congr (s : RootSet) {p q : Path} (h : p.components = q.components) : s.resolve p = s.resolve q := by
  unfold resolve
  rw [Path.normalize_congr h]

/-- **The artifact at a path lies at that path,** unless the path is a registered root. -/
theorem path_resolve (s : RootSet) {p : Path} (hp : p.normalize = p) :
    (s.resolve p).path = p ∨ ∃ root ∈ s.roots, root.path = p ∧ (s.resolve p).path = p.join ⟨""⟩ := by
  unfold resolve
  rw [hp]
  dsimp only
  cases found : s.find? p with
  | none => exact .inl (Artifact.path_absolute hp)
  | some root =>
    dsimp only
    cases below : p.below? root.path with
    | none => exact .inl (Artifact.path_absolute hp)
    | some rel =>
      obtain ⟨normal, joined⟩ := Path.join_below root.path_normal hp below
      have lies : (Artifact.under root rel).path = root.path.join rel := by rw [Artifact.path_under, normal]
      rcases joined with joined | ⟨rfl, rfl⟩
      · exact .inl (lies.trans joined)
      · exact .inr ⟨root, List.mem_of_find?_eq_some found, rfl, lies⟩

/-- **The artifact at a path is the one at its own path.** -/
theorem resolve_path_resolve (s : RootSet) (p : Path) : s.resolve (s.resolve p).path = s.resolve p := by
  have normal : s.resolve p.normalize = s.resolve p := by
    unfold resolve
    rw [p.normalize_normalize]
  rw [← normal]
  rcases s.path_resolve p.normalize_normalize with same | ⟨root, -, -, slash⟩
  · rw [same]
  · rw [slash]
    exact s.resolve_congr (Path.components_join_nothing _)

end RootSet
end IncludeClosure
