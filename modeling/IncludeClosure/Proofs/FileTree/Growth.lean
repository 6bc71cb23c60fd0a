import IncludeClosure.FileTree.Disk
import IncludeClosure.Proofs.FileTree.Leg
/-!
# Proofs.FileTree.Growth — what a path names on a tree that has got more nodes

New nodes at positions that were free leave every walk that arrived as it was (`Grows.find`).  So each path that named a
file names the same file.
-/
namespace IncludeClosure
namespace FileTree

/-- **The tree has got more nodes,** and all that it had are still there. -/
structure Grows (before after : FileTree) : Prop where
  workingDirectory : before.workingDirectory = after.workingDirectory
  node : ∀ position node, before.node? position = some node → after.node? position = some node

theorem grows_append (t : FileTree) (more : List (Position × Node)) :
    t.Grows { t with nodes := t.nodes ++ more } where
  workingDirectory := rfl
  node position node h := by
    cases position with
    | nil => exact h
    | cons name rest =>
      obtain ⟨entry, he, rfl⟩ := Option.map_eq_some_iff.1 h
      show ((t.nodes ++ more).find? (·.1 == name :: rest)).map (·.2) = some entry.2
      rw [List.find?_append, he]
      rfl

variable {before after : FileTree}

/-- A leg of a walk is the same, unless it is refused. -/
theorem Grows.walkLeg (h : before.Grows after) (pieces : List (List Char)) (position : Position) (node : Node) :
    after.walkLeg position node pieces = before.walkLeg position node pieces ∨
      ∃ e, before.walkLeg position node pieces = .refused e := by
  refine walkLeg_cases (fun leg _ => ∃ e, leg = .refused e) (fun position name piece rest taken => ?_) pieces position node
  cases hn : before.node? (position ++ [name]) with
  | some node => exact .inl (h.node _ _ hn)
  | none =>
    refine .inr (.inr ?_)
    simp only [FileTree.walkLeg, taken, hn]
    by_cases long : longestName < name.utf8ByteSize
    · exact ⟨_, if_pos long⟩
    · exact ⟨_, if_neg long⟩

theorem Grows.follow (h : before.Grows after) : ∀ (links : Nat) (start : Position) {pieces : List (List Char)}
    {place : Position × Node}, before.follow links start pieces = .ok place → after.follow links start pieces = .ok place
  | links, start, pieces, place, hp => by
    unfold FileTree.follow at hp ⊢
    rcases h.walkLeg pieces start .directory with hw | ⟨e, hw⟩
    · rw [hw]
      cases leg : before.walkLeg start .directory pieces with
      | arrived position node =>
        rw [leg] at hp
        exact hp
      | refused e =>
        rw [leg] at hp
        cases hp
      | redirected here target rest =>
        rw [leg] at hp
        cases links with
        | zero => cases hp
        | succ links => exact h.follow links _ hp
    · rw [hw] at hp
      cases hp

/-- **A path that leads somewhere** leads there when the tree has grown. -/
theorem Grows.find (h : before.Grows after) {p : Path} {place : Position × Node} (hp : before.find p = .ok place) :
    after.find p = .ok place := by
  unfold FileTree.find at hp ⊢
  split
  · rw [if_pos ‹_›] at hp
    cases hp
  · rw [if_neg ‹_›] at hp
    split
    · rw [if_pos ‹_›] at hp
      cases hp
    · rw [if_neg ‹_›] at hp
      split
      · rw [if_pos ‹_›] at hp
        cases hp
      · rw [if_neg ‹_›] at hp
        rw [← h.workingDirectory]
        exact h.follow _ _ hp

end FileTree
end IncludeClosure
