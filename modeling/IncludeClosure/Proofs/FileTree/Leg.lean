import IncludeClosure.FileTree.Walk
/-!
# Proofs.FileTree.Leg — one leg of a walk on two trees

A leg of a walk looks at a tree only where it takes a name.  So two trees have the same legs as long as every name leads
to the same node on both, and what is said about a name that does not is said about the whole leg (`walkLeg_cases`).
When more pieces follow, a leg goes on from where it has come (`walkLeg_append`), and when it comes to a file then that
file stands there (`node?_of_walkLeg_file`).
-/
namespace IncludeClosure
namespace FileTree

/-- **What becomes of a leg** when more pieces follow. -/
def Leg.andThen (t : FileTree) (more : List (List Char)) : Leg → Leg
  | .arrived position node => t.walkLeg position node more
  | .redirected start target rest => .redirected start target (rest ++ more)
  | .refused error => .refused error

theorem walkLeg_append (t : FileTree) (more : List (List Char)) : ∀ (pieces : List (List Char)) (position : Position)
    (node : Node), t.walkLeg position node (pieces ++ more) = (t.walkLeg position node pieces).andThen t more
  | [], _, _ => rfl
  | _ :: _, _, .file _ => rfl
  | _ :: _, _, .link _ => rfl
  | piece :: rest, position, .directory => by
    rw [List.cons_append]
    simp only [walkLeg]
    split
    · exact walkLeg_append t more rest _ _
    · split
      · rfl
      · split
        · rfl
        · rfl
        · exact walkLeg_append t more rest _ _
    · exact walkLeg_append t more rest _ _

/-- **Two trees on which every name leads to the same node,** or else to legs that are equal or `apart`, have legs that
are equal or `apart`. -/
theorem walkLeg_cases (apart : Leg → Leg → Prop) {t t' : FileTree}
    (next : ∀ position name piece rest, Component.ofPiece? piece = some (.name name) →
      t'.node? (position ++ [name]) = t.node? (position ++ [name]) ∨
      t'.walkLeg position .directory (piece :: rest) = t.walkLeg position .directory (piece :: rest) ∨
      apart (t.walkLeg position .directory (piece :: rest)) (t'.walkLeg position .directory (piece :: rest))) :
    ∀ (pieces : List (List Char)) (position : Position) (node : Node),
      t'.walkLeg position node pieces = t.walkLeg position node pieces ∨
        apart (t.walkLeg position node pieces) (t'.walkLeg position node pieces)
  | [], _, _ => .inl rfl
  | piece :: rest, position, .file _ => .inl rfl
  | piece :: rest, position, .link _ => .inl rfl
  | piece :: rest, position, .directory => by
    have ih := walkLeg_cases apart next rest
    cases taken : Component.ofPiece? piece with
    | none =>
      simp only [walkLeg, taken]
      exact ih position .directory
    | some c =>
      cases c with
      | root =>
        simp only [walkLeg, taken]
        exact ih position .directory
      | current =>
        simp only [walkLeg, taken]
        exact ih position .directory
      | parent =>
        simp only [walkLeg, taken]
        exact ih position.dropLast .directory
      | name name =>
        rcases next position name piece rest taken with same | other
        · simp only [walkLeg, taken, same]
          by_cases long : longestName < name.utf8ByteSize
          · rw [if_pos long, if_pos long]
            exact .inl rfl
          · rw [if_neg long, if_neg long]
            cases t.node? (position ++ [name]) with
            | none => exact .inl rfl
            | some node =>
              cases node with
              | link target => exact .inl rfl
              | directory => exact ih (position ++ [name]) .directory
              | file f => exact ih (position ++ [name]) (.file f)
        · exact other

/-! ## Walks to a file -/

section

variable {t : FileTree} {place : Position} {f : File}

/-- **A leg that comes to a file** comes to where the file stands, if that is so where it begins. -/
theorem node?_of_walkLeg_file : ∀ (pieces : List (List Char)) (position : Position) {node : Node},
    (∀ g, node = .file g → t.node? position = some node) →
    t.walkLeg position node pieces = .arrived place (.file f) → t.node? place = some (.file f)
  | [], _, _, stands, h => by
    cases h
    exact stands f rfl
  | _ :: _, _, .file _, _, h => nomatch h
  | _ :: _, _, .link _, _, h => nomatch h
  | piece :: rest, position, .directory, _, h => by
    simp only [walkLeg] at h
    split at h
    · exact node?_of_walkLeg_file rest _ (by nofun) h
    · split at h
      · cases h
      · split at h
        · cases h
        · cases h
        · rename_i found
          exact node?_of_walkLeg_file rest _ (fun _ _ => found) h
    · exact node?_of_walkLeg_file rest _ (by nofun) h

theorem node?_of_follow_file : ∀ (links : Nat) (start : Position) {pieces : List (List Char)},
    t.follow links start pieces = .ok (place, .file f) → t.node? place = some (.file f)
  | links, start, pieces, h => by
    unfold follow at h
    cases leg : t.walkLeg start .directory pieces with
    | arrived position node =>
      rw [leg] at h
      cases h
      exact node?_of_walkLeg_file pieces start (by nofun) leg
    | refused error =>
      rw [leg] at h
      cases h
    | redirected here target rest =>
      rw [leg] at h
      cases links with
      | zero => cases h
      | succ links => exact node?_of_follow_file links _ h

end

end FileTree
end IncludeClosure
