import IncludeClosure.FileTree.Disk
import IncludeClosure.Path.Spelling
/-!
# Proofs.FileTree.Spelling — two spellings of a path lead to one node

A piece between slashes that is empty or `.` names nothing, but it has to be taken in a directory.  So a walk that
arrives also arrives, at the same node, when such pieces are left out (`follow_of_sheds`); and two spellings of one path
that both lead somewhere lead to the same node (`find_eq_of_components`).  That one of them leads nowhere is possible:
`a/` asks for a directory where `a` may be a file.
-/
namespace IncludeClosure
namespace Component

theorem text_of_ofPiece? {piece : List Char} {c : Component} (h : ofPiece? piece = some c) : c.text.toList = piece := by
  unfold ofPiece? at h
  split at h
  · cases h
  · cases h
  · cases h; rfl
  · cases h; simp [text]

end Component

namespace Path

/-- The pieces that name something. -/
def solid (ps : List (List Char)) : List (List Char) :=
  ps.filter (fun piece => (Component.ofPiece? piece).isSome)

/-- The pieces that name something are read back from what they name. -/
theorem solid_eq : ∀ ps : List (List Char),
    solid ps = (ps.filterMap Component.ofPiece?).map (·.text.toList)
  | [] => rfl
  | piece :: ps => by
    have ih := solid_eq ps
    unfold solid at ih ⊢
    cases e : Component.ofPiece? piece with
    | none => simp [e, ih]
    | some c => simp [e, ih, Component.text_of_ofPiece? e]

theorem inner_of_mem_pieces {text : List Char} {c : Component}
    (h : c ∈ (pieces text).filterMap Component.ofPiece?) : c.Inner := by
  obtain ⟨piece, hp, hc⟩ := List.mem_filterMap.1 h
  exact Component.inner_of_ofPiece? (slash_notMem_of_mem_pieces _ _ hp) hc

/-- How a path begins, read off its components. -/
theorem leading_eq (p : Path) :
    leading p.text.toList = p.components.takeWhile (fun c => decide (c = .root ∨ c = .current)) := by
  have hi : ((pieces p.text.toList).filterMap Component.ofPiece?).takeWhile
      (fun c => decide (c = .root ∨ c = .current)) = [] := by
    cases e : (pieces p.text.toList).filterMap Component.ofPiece? with
    | nil => rfl
    | cons c rest =>
      have hc : c.Inner := inner_of_mem_pieces (by rw [e]; exact List.mem_cons_self)
      have h1 : c ≠ .root := hc.ne_root
      have h2 : c ≠ .current := by rintro rfl; exact absurd hc.text_ne_dot (by decide)
      simp [h1, h2]
  unfold components
  rw [List.takeWhile_append_of_pos, hi, List.append_nil]
  intro c hc
  unfold leading at hc
  split at hc
  · simp at hc; simp [hc]
  · split at hc
    · simp at hc; simp [hc]
    · cases hc

theorem isAbsolute_iff (p : Path) : p.isAbsolute = true ↔ leading p.text.toList = [.root] := by
  unfold isAbsolute leading
  by_cases h : p.text.toList.head? = some '/'
  · simp [h]
  · simp only [h, if_false]
    split <;> simp

/-- **Two spellings of one path** start at the same place and name the same things on the way. -/
theorem solid_eq_of_components {p q : Path} (h : p.components = q.components) :
    p.isAbsolute = q.isAbsolute ∧ solid (pieces p.text.toList) = solid (pieces q.text.toList) := by
  have hl : leading p.text.toList = leading q.text.toList := by rw [leading_eq, leading_eq, h]
  refine ⟨?_, ?_⟩
  · rw [Bool.eq_iff_iff, isAbsolute_iff, isAbsolute_iff, hl]
  · unfold components at h
    rw [hl] at h
    rw [solid_eq, solid_eq, List.append_cancel_left h]

end Path

namespace FileTree

/-- **Some pieces that name nothing are left out.** -/
inductive Sheds : List (List Char) → List (List Char) → Prop where
  | nil : Sheds [] []
  | keep (piece : List Char) {ps qs : List (List Char)} (rest : Sheds ps qs) : Sheds (piece :: ps) (piece :: qs)
  | shed {piece : List Char} {ps qs : List (List Char)} (blank : Component.ofPiece? piece = none)
      (rest : Sheds ps qs) : Sheds (piece :: ps) qs

namespace Sheds

theorem refl : ∀ ps : List (List Char), Sheds ps ps
  | [] => .nil
  | piece :: ps => .keep piece (refl ps)

theorem append_left {ps qs : List (List Char)} (h : Sheds ps qs) : ∀ front, Sheds (front ++ ps) (front ++ qs)
  | [] => h
  | piece :: front => .keep piece (h.append_left front)

theorem solid : ∀ ps : List (List Char), Sheds ps (Path.solid ps)
  | [] => .nil
  | piece :: ps => by
    have ih := solid ps
    unfold Path.solid at ih ⊢
    cases e : Component.ofPiece? piece with
    | none => rw [List.filter_cons_of_neg (by simp [e])]; exact .shed e ih
    | some c => rw [List.filter_cons_of_pos (by simp [e])]; exact .keep piece ih

end Sheds

/-- **What two legs of a walk have in common** when the second has fewer pieces before it: the end, or the link and, up
to pieces that name nothing, what is left after it.  A leg that is refused promises nothing. -/
def SameLeg : Leg → Leg → Prop
  | .arrived position node, leg => leg = .arrived position node
  | .redirected start target rest, leg => ∃ rest', leg = .redirected start target rest' ∧ Sheds rest rest'
  | .refused _, _ => True

theorem walkLeg_of_sheds (t : FileTree) {ps qs : List (List Char)} (h : Sheds ps qs) :
    ∀ (position : Position) (node : Node), SameLeg (t.walkLeg position node ps) (t.walkLeg position node qs) := by
  induction h with
  | nil =>
    intro position node
    simp [walkLeg, SameLeg]
  | @keep piece ps qs rest ih =>
    intro position node
    cases node with
    | file _ => simp [walkLeg, SameLeg]
    | link _ => simp [walkLeg, SameLeg]
    | directory =>
      simp only [walkLeg]
      split
      · exact ih _ _
      · split
        · trivial
        · split
          · trivial
          · exact ⟨_, rfl, rest⟩
          · exact ih _ _
      · exact ih _ _
  | @shed piece ps qs blank rest ih =>
    -- a piece that names nothing is refused outside a directory, and in one the walk goes on from where it is
    intro position node
    cases node with
    | file _ => simp [walkLeg, SameLeg]
    | link _ => simp [walkLeg, SameLeg]
    | directory => simpa only [walkLeg, blank] using ih position .directory

/-- **A walk that arrives also arrives without pieces that name nothing.** -/
theorem follow_of_sheds (t : FileTree) : ∀ (links : Nat) (start : Position) {ps qs : List (List Char)}
    {place : Position × Node}, Sheds ps qs → t.follow links start ps = .ok place → t.follow links start qs = .ok place
  | links, start, ps, qs, place, h, hp => by
    have hl := t.walkLeg_of_sheds h start .directory
    unfold follow at hp ⊢
    cases e : t.walkLeg start .directory ps with
    | arrived position node =>
      rw [e] at hp hl
      rw [show t.walkLeg start .directory qs = _ from hl]
      exact hp
    | refused error => rw [e] at hp; cases hp
    | redirected here target rest =>
      rw [e] at hp hl
      obtain ⟨rest', hq, hr⟩ := hl
      rw [hq]
      cases links with
      | zero => cases hp
      | succ links => exact follow_of_sheds t links _ (hr.append_left _) hp

theorem follow_of_find {t : FileTree} {p : Path} {place : Position × Node} (h : t.find p = .ok place) :
    t.follow mostLinks (startOf t.workingDirectory p) (Path.solid (Path.pieces p.text.toList)) = .ok place := by
  unfold find at h
  split at h
  · cases h
  · split at h
    · cases h
    · split at h
      · cases h
      · exact t.follow_of_sheds _ _ (.solid _) h

/-- **Two spellings of one path that lead somewhere lead to the same node.** -/
theorem find_eq_of_components {t : FileTree} {p q : Path} (h : p.components = q.components) {x y : Position × Node}
    (hp : t.find p = .ok x) (hq : t.find q = .ok y) : x = y := by
  obtain ⟨hs, hw⟩ := Path.solid_eq_of_components h
  have hp := follow_of_find hp
  have hq := follow_of_find hq
  unfold startOf at hp hq
  rw [hs, hw, hq] at hp
  cases hp; rfl

/-- The system takes a path that leads somewhere, so it is short enough. -/
theorem size_le_of_find {t : FileTree} {p : Path} {place : Position × Node} (h : t.find p = .ok place) :
    p.text.utf8ByteSize ≤ longestPath := by
  unfold find at h
  split at h
  · cases h
  · split at h
    · cases h
    · split at h
      · cases h
      · exact Nat.not_lt.1 ‹_›

end FileTree
end IncludeClosure
