import Mathlib.Data.List.Flatten
import IncludeClosure.Proofs.Path.Absorb
import IncludeClosure.Proofs.Scan.Memo
import IncludeClosure.Proofs.Text.Utf8
/-!
# Proofs.FileTree.Plain — the plainest spelling of a path leads to its file

A path in normal form is spelled by its beginning and the pieces that name something (`pieces_eq_lead_solid`).  Any
other spelling has these pieces too, and more, so the normal form of a path is part of its text
(`text_normalize_sublist`): the system takes it when it takes the path.  If a spelling of a path in normal form leads to
a file, then the plainest leads to it (`isFile_of_normal`).
-/
namespace IncludeClosure

theorem Text.size_le_of_sublist {a b : String} (h : a.toList.Sublist b.toList) : a.utf8ByteSize ≤ b.utf8ByteSize := by
  have bytes : (utf8Bytes a).Sublist (utf8Bytes b) := by
    rw [utf8Bytes_eq_flatMap, utf8Bytes_eq_flatMap]
    exact h.flatMap String.utf8EncodeChar
  exact bytes.length_le

namespace Path

/-- **Joining with slashes undoes cutting at the slashes.** -/
theorem joinPieces_pieces : ∀ text : List Char, joinPieces (pieces text) = text
  | [] => rfl
  | c :: rest => by
    have ih := joinPieces_pieces rest
    unfold pieces
    cases e : pieces rest with
    | nil => exact absurd e (pieces_ne_nil rest)
    | cons piece others =>
      rw [e] at ih
      split
      · rename_i slash
        rw [slash, ← ih]
        rfl
      · rw [← ih]
        cases others <;> rfl

theorem joinPieces_sublist {ps qs : List (List Char)} (h : ps.Sublist qs) : (joinPieces ps).Sublist (joinPieces qs) := by
  induction h with
  | slnil => exact .slnil
  | @cons ps qs piece sub ih =>
    cases qs with
    | nil =>
      rw [List.sublist_nil.1 sub]
      exact List.nil_sublist _
    | cons q qs => exact ih.trans ((List.sublist_cons_self _ _).trans (List.sublist_append_right _ _))
  | @cons_cons ps qs piece sub ih =>
    cases qs with
    | nil =>
      rw [List.sublist_nil.1 sub]
    | cons q qs =>
      cases ps with
      | nil => exact List.sublist_append_left _ _
      | cons p ps => exact (ih.cons_cons '/').append_left piece

/-- How a path begins, in pieces: an empty one before a slash, a `.` or none. -/
def lead (p : Path) : List (List Char) :=
  (leading p.text.toList).map (·.text.toList)

/-- What a path names is spelled by its beginning and the pieces that name something. -/
theorem map_text_components (p : Path) :
    p.components.map (·.text.toList) = p.lead ++ solid (pieces p.text.toList) :=
  calc p.components.map (·.text.toList) = p.lead ++ (named p.text.toList).map (·.text.toList) := List.map_append
    _ = p.lead ++ solid (pieces p.text.toList) := congrArg (p.lead ++ ·) (solid_eq _).symm

/-- **The pieces of a path in normal form** are its beginning and those that name something. -/
theorem pieces_eq_lead_solid {p : Path} (normal : p.normalize = p) (filled : p.components ≠ [])
    (notRoot : p.components ≠ [.root]) : pieces p.text.toList = p.lead ++ solid (pieces p.text.toList) :=
  (pieces_of_normal normal filled notRoot).trans p.map_text_components

/-- Every spelling has its beginning and the pieces that name something. -/
theorem lead_solid_sublist (p : Path) : (p.lead ++ solid (pieces p.text.toList)).Sublist (pieces p.text.toList) := by
  unfold lead leading
  split
  case isTrue slash =>
    obtain ⟨rest, text⟩ := List.head?_eq_some_iff.1 slash
    rw [text]
    show ([] :: solid (pieces rest)).Sublist ([] :: pieces rest)
    exact List.filter_sublist.cons_cons []
  case isFalse =>
    split
    case isTrue dot =>
      obtain ⟨rest, cut⟩ := List.head?_eq_some_iff.1 dot
      rw [cut]
      show (['.'] :: solid rest).Sublist (['.'] :: rest)
      exact List.filter_sublist.cons_cons ['.']
    case isFalse => exact List.filter_sublist

/-! ## The normal form is part of every spelling -/

theorem reverse_push_sublist (stack : List Component) (c : Component) :
    (push stack c).reverse.Sublist (stack.reverse ++ [c]) := by
  unfold push
  split
  · exact List.sublist_append_left _ _
  · rw [List.reverse_cons, List.append_assoc]
    exact List.sublist_append_left _ _
  · exact List.sublist_append_left _ _
  · rw [List.reverse_cons]

theorem reverse_foldl_push_sublist : ∀ (cs stack : List Component),
    (cs.foldl push stack).reverse.Sublist (stack.reverse ++ cs)
  | [], stack => by rw [List.append_nil, List.foldl_nil]
  | c :: cs, stack => by
    rw [List.append_cons]
    exact (reverse_foldl_push_sublist cs (push stack c)).trans ((reverse_push_sublist stack c).append_right cs)

/-- **The normal form drops components** and adds none. -/
theorem components_normalize_sublist (p : Path) : p.normalize.components.Sublist p.components := by
  rw [components_normalize]
  exact reverse_foldl_push_sublist p.components []

/-- **The normal form is part of every spelling.** -/
theorem text_normalize_sublist (p : Path) : p.normalize.text.toList.Sublist p.text.toList := by
  have components := p.components_normalize
  by_cases top : p.normalize.components = [.root]
  · -- the root is spelled by a slash, which is what an absolute path begins with
    have absolute : p.isAbsolute = true :=
      isAbsolute_iff_mem.2 (p.components_normalize_sublist.subset (by rw [top]; exact List.mem_cons_self))
    obtain ⟨rest, begins⟩ := List.head?_eq_some_iff.1 (of_decide_eq_true absolute)
    rw [← ofComponents_components p.normalize_normalize, top, begins]
    exact (List.nil_sublist rest).cons_cons '/'
  · have sub : (p.normalize.components.map (·.text.toList)).Sublist (pieces p.text.toList) := by
      refine (p.components_normalize_sublist.map _).trans ?_
      rw [map_text_components]
      exact p.lead_solid_sublist
    have joined := joinPieces_sublist sub
    rwa [joinPieces_pieces, ← toList_ofComponents top, ofComponents_components p.normalize_normalize] at joined

end Path

namespace FileTree

variable {t : FileTree} {p q : Path}

/-- How a path begins names nothing on the way. -/
theorem follow_lead (t : FileTree) (links : Nat) (start : Position) (p : Path) (ps : List (List Char)) :
    t.follow links start (p.lead ++ ps) = t.follow links start ps := by
  have leg : t.walkLeg start .directory (p.lead ++ ps) = t.walkLeg start .directory ps := by
    unfold Path.lead Path.leading
    split
    · rfl
    · split <;> rfl
  unfold follow
  rw [leg]

/-- **A path in normal form names a regular file** if one of its spellings does. -/
theorem isFile_of_normal (normal : p.normalize = p) (same : q.components = p.components) (file : t.isFile q = true) :
    t.isFile p = true := by
  obtain ⟨position, f, found⟩ := isFile_iff_find.1 file
  have led := follow_of_find found
  obtain ⟨absolute, solid⟩ := Path.solid_eq_of_components same
  -- a path that names nothing on its way ends in a directory
  have some : Path.solid (Path.pieces q.text.toList) ≠ [] := by
    intro none
    rw [none] at led
    cases led
  have spelled := Path.ofComponents_components normal
  have filled : p.components ≠ [] := by
    intro e
    rw [e] at spelled
    rw [solid, ← spelled] at some
    exact some (by decide)
  have notRoot : p.components ≠ [.root] := by
    intro e
    rw [e] at spelled
    rw [solid, ← spelled] at some
    exact some (by decide)
  have sub : p.text.toList.Sublist q.text.toList := by
    have folded := q.text_normalize_sublist
    rwa [Path.normalize_congr same, normal] at folded
  have found' : t.find p = .ok (position, .file f) := by
    unfold find at found ⊢
    split at found
    · cases found
    · split at found
      · cases found
      · split at found
        · cases found
        · rename_i clean _ short
          rw [if_neg fun nul => clean (sub.subset nul), if_neg (fun empty => filled ?_),
            if_neg fun long => short (Nat.lt_of_lt_of_le long (Text.size_le_of_sublist sub)),
            Path.pieces_eq_lead_solid normal filled notRoot, follow_lead, ← solid]
          · unfold startOf at led ⊢
            rwa [absolute] at led
          · exact Path.components_eq_nil.2 (String.isEmpty_iff.1 empty)
  exact isFile_iff_find.2 ⟨position, f, found'⟩

end FileTree
end IncludeClosure
