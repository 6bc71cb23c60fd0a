import IncludeClosure.Proofs.FileTree.Copy
/-!
# Proofs.FileTree.Ending — spellings of a path that end in a name

A piece that names nothing has to be taken in a directory, and so has every other piece.  In front of another piece it
therefore changes nothing, not even what a walk is refused for (`follow_concat_of_sheds`); only at the end of a path it
does.  A regular file is named by paths that end in a name, and that are not too long for the system
(`mayNameFile_of_isFile`).  All spellings of a path that are such lead to the same node or to the same error, on every
tree (`find_congr`).
-/
namespace IncludeClosure
namespace Path

/-- Whether a path ends in something that it names, and not in a slash or a `.`. -/
def endsNamed (p : Path) : Bool :=
  ((pieces p.text.toList).getLast?.bind Component.ofPiece?).isSome

/-- **A path that some file may have:** it ends in a name, and the system takes it. -/
structure MayNameFile (p : Path) : Prop where
  named : p.endsNamed = true
  short : p.text.utf8ByteSize ≤ FileTree.longestPath

theorem endsNamed_iff {p : Path} : p.endsNamed = true ↔
    ∃ front piece, pieces p.text.toList = front ++ [piece] ∧ (Component.ofPiece? piece).isSome = true := by
  unfold endsNamed
  constructor
  · intro named
    cases last : (pieces p.text.toList).getLast? with
    | none =>
      rw [last] at named
      cases named
    | some piece =>
      rw [last] at named
      obtain ⟨front, split⟩ := List.getLast?_eq_some_iff.1 last
      exact ⟨front, piece, split, named⟩
  · rintro ⟨front, piece, split, named⟩
    rw [split, List.getLast?_concat]
    exact named

/-- A character in a path, slashes apart, is in one of the pieces that name something, unless it is a dot. -/
theorem mem_text_iff_solid {c : Char} (slash : c ≠ '/') (dot : c ≠ '.') (text : List Char) :
    c ∈ text ↔ ∃ piece ∈ solid (pieces text), c ∈ piece := by
  rw [mem_text_iff slash]
  refine exists_congr fun piece => and_congr_left fun mem => ?_
  have named : (Component.ofPiece? piece).isSome = true := by
    cases piece with
    | nil => cases mem
    | cons d rest =>
      cases taken : Component.ofPiece? (d :: rest) with
      | some _ => rfl
      | none =>
        obtain ⟨rfl, rfl⟩ := eq_dot_of_ofPiece? taken
        exact absurd (List.mem_singleton.1 mem) dot
  exact ⟨fun h => List.mem_filter.2 ⟨h, named⟩, fun h => (List.mem_filter.1 h).1⟩

end Path

namespace FileTree

variable {t : FileTree} {p q : Path}

theorem walkLeg_outside {node : Node} (other : node ≠ .directory) (position : Position) (pieces : List (List Char)) :
    t.walkLeg position node pieces = if pieces = [] then .arrived position node else .refused .notDirectory := by
  cases pieces with
  | nil => rfl
  | cons _ _ =>
    cases node with
    | directory => exact absurd rfl other
    | file _ => rfl
    | link _ => rfl

/-- **A leg that is refused** is refused with fewer pieces too, or it comes to where a piece that names nothing was
refused: to a node that is no directory. -/
theorem refused_of_sheds (t : FileTree) {ps qs : List (List Char)} (h : Sheds ps qs) :
    ∀ (position : Position) (node : Node) (e : OsError), t.walkLeg position node ps = .refused e →
      t.walkLeg position node qs = .refused e ∨
        e = .notDirectory ∧ ∃ place last, t.walkLeg position node qs = .arrived place last ∧ last ≠ .directory := by
  induction h with
  | nil =>
    intro _ _ _ refused
    cases refused
  | @keep piece ps qs rest ih =>
    intro position node e
    cases node with
    | file _ => exact .inl
    | link _ => exact .inl
    | directory =>
      simp only [walkLeg]
      split
      · exact ih _ _ e
      · split
        · exact .inl
        · split
          · exact .inl
          · intro refused
            cases refused
          · exact ih _ _ e
      · exact ih _ _ e
  | @shed piece ps qs blank rest ih =>
    intro position node e
    rcases eq_or_ne node .directory with rfl | other
    · simpa only [walkLeg, blank] using ih position .directory e
    · rw [walkLeg_outside other, walkLeg_outside other, if_neg (List.cons_ne_nil _ _)]
      intro refused
      cases refused
      split
      · exact .inr ⟨rfl, position, node, rfl, other⟩
      · exact .inl rfl

/-- **Pieces that name nothing change nothing in front of a last piece,** not even what the walk is refused for. -/
theorem follow_concat_of_sheds (t : FileTree) (last : List Char) : ∀ (links : Nat) (start : Position)
    {ps qs : List (List Char)}, Sheds ps qs → t.follow links start (ps ++ [last]) = t.follow links start (qs ++ [last])
  | links, start, ps, qs, h => by
    have alike := t.walkLeg_of_sheds h start .directory
    unfold follow
    rw [walkLeg_append, walkLeg_append]
    cases leg : t.walkLeg start .directory ps with
    | arrived position node =>
      rw [leg] at alike
      rw [show t.walkLeg start .directory qs = _ from alike]
    | redirected here target rest =>
      rw [leg] at alike
      obtain ⟨rest', leg', sheds⟩ := alike
      rw [leg']
      cases links with
      | zero => rfl
      | succ links =>
        have longer := sheds.append_left (Path.pieces target.text.toList)
        have ih := follow_concat_of_sheds t last links (startOf here target) longer
        rw [List.append_assoc, List.append_assoc] at ih
        exact ih
    | refused e =>
      rcases t.refused_of_sheds h start .directory e leg with same | ⟨rfl, place, node, leg', other⟩
      · rw [same]
      · have ends : t.walkLeg place node [last] = .refused .notDirectory := walkLeg_outside other place [last]
        rw [leg', Leg.andThen, Leg.andThen, ends]

/-- **A path that names a regular file** ends in a name, and the system takes it. -/
theorem mayNameFile_of_isFile (file : t.isFile p = true) : p.MayNameFile := by
  obtain ⟨position, f, found⟩ := isFile_iff_find.1 file
  refine ⟨?_, size_le_of_find found⟩
  obtain ⟨-, -, -, walk⟩ := find_ok_iff.1 found
  rcases List.eq_nil_or_concat (Path.pieces p.text.toList) with none | ⟨front, piece, split⟩
  · exact absurd none (Path.pieces_ne_nil _)
  · rw [List.concat_eq_append] at split
    refine Path.endsNamed_iff.2 ⟨front, piece, split, ?_⟩
    cases taken : Component.ofPiece? piece with
    | some c => rfl
    | none =>
      rw [split] at walk
      cases follow_blank taken _ _ _ walk

theorem find_of_mayNameFile (h : p.MayNameFile) : t.find p =
    if '\x00' ∈ p.text.toList then .error .embeddedNul
    else t.follow mostLinks (startOf t.workingDirectory p) (Path.solid (Path.pieces p.text.toList)) := by
  obtain ⟨front, piece, split, named⟩ := Path.endsNamed_iff.1 h.named
  have filled : ¬ p.text.isEmpty = true := by
    intro empty
    have ends := h.named
    unfold Path.endsNamed at ends
    rw [String.isEmpty_iff.1 empty] at ends
    exact absurd ends (by decide)
  have kept : Path.solid [piece] = [piece] := List.filter_cons_of_pos named
  have solid : Path.solid (front ++ [piece]) = Path.solid front ++ [piece] :=
    (List.filter_append front [piece]).trans (congrArg (Path.solid front ++ ·) kept)
  unfold find
  rw [if_neg filled, if_neg (Nat.not_lt.2 h.short), split, solid, t.follow_concat_of_sheds piece _ _ (.solid front)]

/-- **All spellings of a path that a file may have** lead to the same node, or to the same error. -/
theorem find_congr (hp : p.MayNameFile) (hq : q.MayNameFile) (same : p.components = q.components) :
    t.find p = t.find q := by
  obtain ⟨absolute, solid⟩ := Path.solid_eq_of_components same
  have nul : '\x00' ∈ p.text.toList ↔ '\x00' ∈ q.text.toList := by
    rw [Path.mem_text_iff_solid (by decide) (by decide), solid, ← Path.mem_text_iff_solid (by decide) (by decide)]
  rw [find_of_mayNameFile hp, find_of_mayNameFile hq, solid]
  unfold startOf
  rw [absolute]
  simp only [nul]

end FileTree
end IncludeClosure
