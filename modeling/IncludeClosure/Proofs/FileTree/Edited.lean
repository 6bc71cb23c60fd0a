import IncludeClosure.FileTree.Disk
import IncludeClosure.Proofs.FileTree.Leg
/-!
# Proofs.FileTree.Edited — what a path names when some files have been edited

An edit of files in place (`EditedAt`) leaves every walk where it was: it arrives at the same node, or at a file that was
edited (`EditedAt.find`).  So the same paths name regular files (`EditedAt.isFile`), and a path that leads to no edited
file names the same thing with the same contents (`EditedAt.find_eq`).
-/
namespace IncludeClosure
namespace FileTree

/-- **The trees differ in nothing but the bytes and times of change of files** at the positions `edited`, and in whether
these can be read. -/
structure EditedAt (edited : Position → Prop) (t t' : FileTree) : Prop where
  workingDirectory : t'.workingDirectory = t.workingDirectory
  node : ∀ position, t'.node? position = t.node? position ∨
    edited position ∧ ∃ f f', t.node? position = some (.file f) ∧ t'.node? position = some (.file f')

variable {edited : Position → Prop} {t t' : FileTree}

theorem EditedAt.refl (t : FileTree) : t.EditedAt edited t where
  workingDirectory := rfl
  node _ := .inl rfl

theorem EditedAt.mono {more : Position → Prop} (h : t.EditedAt edited t')
    (hm : ∀ position, edited position → more position) : t.EditedAt more t' where
  workingDirectory := h.workingDirectory
  node position := (h.node position).imp_right (And.imp_left (hm position))

/-- A leg of a walk is the same, or arrives at an edited file. -/
theorem EditedAt.walkLeg (h : t.EditedAt edited t') (pieces : List (List Char)) (position : Position) (node : Node) :
    t'.walkLeg position node pieces = t.walkLeg position node pieces ∨
      ∃ here f f', edited here ∧ t.walkLeg position node pieces = .arrived here (.file f) ∧
        t'.walkLeg position node pieces = .arrived here (.file f') := by
  refine walkLeg_cases (fun leg leg' => ∃ here f f', edited here ∧ leg = .arrived here (.file f) ∧
    leg' = .arrived here (.file f')) (fun position name piece rest taken => ?_) pieces position node
  refine (h.node (position ++ [name])).imp_right fun ⟨he, f, f', hf, hf'⟩ => ?_
  simp only [FileTree.walkLeg, taken, hf, hf']
  by_cases long : longestName < name.utf8ByteSize
  · rw [if_pos long, if_pos long]
    exact .inl rfl
  · rw [if_neg long, if_neg long]
    -- the walk ends at the file, or is refused there whatever the file holds
    cases rest with
    | nil => exact .inr ⟨position ++ [name], f, f', he, rfl, rfl⟩
    | cons next rest => exact .inl rfl

theorem EditedAt.follow (h : t.EditedAt edited t') : ∀ (links : Nat) (start : Position) (pieces : List (List Char)),
    t'.follow links start pieces = t.follow links start pieces ∨
      ∃ here f f', edited here ∧ t.follow links start pieces = .ok (here, .file f) ∧
        t'.follow links start pieces = .ok (here, .file f')
  | links, start, pieces => by
    unfold FileTree.follow
    rcases h.walkLeg pieces start .directory with same | ⟨here, f, f', he, leg, leg'⟩
    · rw [same]
      cases leg : t.walkLeg start .directory pieces with
      | arrived position node => exact .inl rfl
      | refused e => exact .inl rfl
      | redirected here target rest =>
        cases links with
        | zero => exact .inl rfl
        | succ links => exact h.follow links _ _
    · rw [leg, leg']
      exact .inr ⟨here, f, f', he, rfl, rfl⟩

/-- **A path leads where it led,** or to a file that was edited. -/
theorem EditedAt.find (h : t.EditedAt edited t') (p : Path) :
    t'.find p = t.find p ∨
      ∃ here f f', edited here ∧ t.find p = .ok (here, .file f) ∧ t'.find p = .ok (here, .file f') := by
  unfold FileTree.find
  by_cases nul : '\x00' ∈ p.text.toList
  · rw [if_pos nul, if_pos nul]
    exact .inl rfl
  · rw [if_neg nul, if_neg nul]
    by_cases empty : p.text.isEmpty = true
    · rw [if_pos empty, if_pos empty]
      exact .inl rfl
    · rw [if_neg empty, if_neg empty]
      by_cases long : longestPath < p.text.utf8ByteSize
      · rw [if_pos long, if_pos long]
        exact .inl rfl
      · rw [if_neg long, if_neg long, h.workingDirectory]
        exact h.follow _ _ _

/-- **A path that leads to no edited file** leads to the same node. -/
theorem EditedAt.find_eq (h : t.EditedAt edited t') {p : Path}
    (kept : ∀ position f, t.find p = .ok (position, .file f) → ¬ edited position) : t'.find p = t.find p := by
  rcases h.find p with same | ⟨here, f, f', he, hf, -⟩
  · exact same
  · exact absurd he (kept here f hf)

theorem EditedAt.isFile (h : t.EditedAt edited t') (p : Path) : t'.isFile p = t.isFile p := by
  unfold FileTree.isFile status
  rcases h.find p with same | ⟨here, f, f', -, hf, hf'⟩
  · rw [same]
  · rw [hf, hf']

end FileTree
end IncludeClosure
