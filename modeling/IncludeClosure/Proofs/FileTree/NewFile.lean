import Mathlib.Logic.Function.Iterate
import IncludeClosure.Proofs.FileTree.Copy
import IncludeClosure.Proofs.FileTree.Growth
import IncludeClosure.Proofs.FileTree.Plain
import IncludeClosure.Proofs.Path.Front
/-!
# Proofs.FileTree.NewFile — a tree with one more file

A path in normal form climbs some directories and then takes names on the way down.  On a tree without links this tells
where it ends (`exists_names_of_find`), so two such paths that begin alike and lead to one file are one path
(`eq_of_find`).  When a tree gains a file, and the directories for it, a path in normal form that leads to a file led
there before, or leads to the new file (`Gains.find_cases`).
-/
namespace IncludeClosure
namespace FileTree

variable {t before after : FileTree} {p q : Path} {place position : Position} {file f : File}

/-- **No link stands on the tree.** -/
def LinkFree (t : FileTree) : Prop :=
  ∀ position target, t.node? position ≠ some (.link target)

/-- **A tree gains a file,** at a place that was free, and maybe directories where nothing was. -/
structure Gains (before after : FileTree) (place : Position) (file : File) : Prop where
  workingDirectory : before.workingDirectory = after.workingDirectory
  free : before.node? place = none
  new : after.node? place = some (.file file)
  same : ∀ position, position ≠ place → after.node? position = before.node? position ∨
    (∀ below, before.node? (position ++ below) = none) ∧ after.node? position = some .directory

theorem linkFree_of_nodes (h : ∀ entry ∈ t.nodes, ∀ target, entry.2 ≠ .link target) : t.LinkFree := by
  intro position target stands
  rcases mem_of_node? stands with ⟨-, root⟩ | mem
  · cases root
  · exact h _ mem target rfl

theorem node?_put (t : FileTree) (node : Node) (below : place ≠ []) (position : Position) :
    (t.put place node).node? position = if position = place then some node else t.node? position := by
  cases position with
  | nil => rw [if_neg below.symm]; rfl
  | cons name rest =>
    by_cases here : place = name :: rest
    · simp [node?, put, here]
    · have others : (t.nodes.filter (·.1 != place)).find? (·.1 == name :: rest) =
          t.nodes.find? (·.1 == name :: rest) := by
        rw [List.find?_filter]
        congr 1
        funext entry
        by_cases same : entry.1 = name :: rest
        · simp [same, Ne.symm here]
        · simp [same]
      simp [node?, put, here, Ne.symm here, others]

theorem gains_put (file : File) (below : place ≠ []) (free : t.node? place = none) :
    t.Gains (t.put place (.file file)) place file where
  workingDirectory := rfl
  free := free
  new := by rw [node?_put t _ below, if_pos rfl]
  same position other := by rw [node?_put t _ below, if_neg other]; exact .inl rfl

/-- A file can be put in a directory that is made for it. -/
theorem Gains.ofMade {made : Position} (h : (before.put made .directory).Gains after place file) (below : made ≠ [])
    (missing : ∀ entry ∈ before.nodes, ¬ made <+: entry.1) : before.Gains after place file where
  workingDirectory := h.workingDirectory
  free := by
    have free := h.free
    rw [node?_put _ _ below] at free
    split at free
    · cases free
    · exact free
  new := h.new
  same position other := by
    have same := h.same position other
    rw [node?_put _ _ below] at same
    by_cases here : position = made
    · subst here
      have directory : after.node? position = some .directory := by
        rw [if_pos rfl] at same
        exact same.elim id And.right
      refine .inr ⟨fun names => ?_, directory⟩
      cases stands : before.node? (position ++ names) with
      | none => rfl
      | some node =>
        rcases mem_of_node? stands with ⟨root, -⟩ | mem
        · exact absurd (List.append_eq_nil_iff.1 root).1 below
        · exact absurd (List.prefix_append _ _) (missing _ mem)
    · rw [if_neg here] at same
      refine same.imp_right fun ⟨empty, directory⟩ => ⟨fun names => ?_, directory⟩
      have none := empty names
      rw [node?_put _ _ below] at none
      split at none
      · cases none
      · exact none

theorem Gains.grows (h : before.Gains after place file) : before.Grows after where
  workingDirectory := h.workingDirectory
  node position node stands := by
    have other : position ≠ place := by
      rintro rfl
      rw [h.free] at stands
      cases stands
    rcases h.same position other with same | ⟨empty, -⟩
    · rw [same, stands]
    · have none := empty []
      rw [List.append_nil, stands] at none
      cases none

theorem Gains.linkFree (h : before.Gains after place file) (linkFree : before.LinkFree) : after.LinkFree := by
  intro position target stands
  by_cases here : position = place
  · rw [here, h.new] at stands
    cases stands
  · rcases h.same position here with same | ⟨-, directory⟩
    · rw [same] at stands
      exact linkFree position target stands
    · rw [directory] at stands
      cases stands

/-- A file that is not the new one stood there before. -/
theorem Gains.node?_before (h : before.Gains after place file) (other : position ≠ place)
    (stands : after.node? position = some (.file f)) : before.node? position = some (.file f) := by
  rcases h.same position other with same | ⟨-, directory⟩
  · rw [← same, stands]
  · rw [directory] at stands
    cases stands

/-! ## Walks without links -/

theorem LinkFree.walkLeg_ne_redirected (linkFree : t.LinkFree) {here : Position} {target : Path}
    {rest : List (List Char)} (pieces : List (List Char)) (position : Position) (node : Node) :
    t.walkLeg position node pieces ≠ .redirected here target rest := by
  induction pieces generalizing position node with
  | nil => simp [walkLeg]
  | cons piece pieces ih =>
    cases node with
    | file => simp [walkLeg]
    | link => simp [walkLeg]
    | directory =>
      simp only [walkLeg]
      split
      · exact ih _ _
      · split
        · simp
        · split
          · simp
          · rename_i link
            exact absurd link (linkFree _ _)
          · exact ih _ _
      · exact ih _ _

theorem LinkFree.follow_ok_iff (linkFree : t.LinkFree) {links : Nat} {start : Position} {pieces : List (List Char)}
    {node : Node} : t.follow links start pieces = .ok (position, node) ↔
      t.walkLeg start .directory pieces = .arrived position node := by
  unfold follow
  cases leg : t.walkLeg start .directory pieces with
  | arrived there found => simp
  | refused error => simp
  | redirected here target rest => exact absurd leg (linkFree.walkLeg_ne_redirected _ _ _)

/-- Where a path climbs to before it goes down. -/
def climb (t : FileTree) (p : Path) : Position :=
  List.dropLast^[p.components.count .parent] (startOf t.workingDirectory p)

theorem walkLeg_parents (t : FileTree) (more : List (List Char)) : ∀ (k : Nat) (position : Position),
    t.walkLeg position .directory (List.replicate k ['.', '.'] ++ more) =
      t.walkLeg (List.dropLast^[k] position) .directory more
  | 0, _ => rfl
  | k + 1, position => by
    rw [Function.iterate_succ_apply, ← walkLeg_parents t more k]
    rfl

/-- **Where a path in normal form leads,** without links: from where it climbs to, down its names. -/
theorem exists_names_of_find (linkFree : t.LinkFree) (normal : p.normalize = p)
    (found : t.find p = .ok (position, .file f)) : ∃ names : List String,
    Path.named p.text.toList = List.replicate (p.components.count .parent) .parent ++ names.map .name ∧
    t.walkLeg (t.climb p) .directory (names.map (·.toList)) = .arrived position (.file f) ∧
    position = t.climb p ++ names ∧ t.node? position = some (.file f) := by
  obtain ⟨names, -, named⟩ := Path.exists_names_of_normal normal
  have walk := linkFree.follow_ok_iff.1 (follow_of_find found)
  rw [Path.solid_of_named named, walkLeg_parents] at walk
  obtain ⟨below, ⟨-, directory⟩ | stands⟩ := node?_of_arrived walk (Path.inner_of_named named)
  · cases directory
  · exact ⟨names, named, walk, below, stands⟩

/-- A path in normal form leads where its names do, if the system takes it. -/
theorem find_of_walkLeg (linkFree : t.LinkFree) (normal : p.normalize = p) {names : List String}
    (named : Path.named p.text.toList = List.replicate (p.components.count .parent) .parent ++ names.map .name)
    (taken : '\x00' ∉ p.text.toList ∧ p.text ≠ "" ∧ p.text.utf8ByteSize ≤ longestPath)
    (walk : t.walkLeg (t.climb p) .directory (names.map (·.toList)) = .arrived position (.file f)) :
    t.find p = .ok (position, .file f) := by
  obtain ⟨clean, filled, short⟩ := taken
  have filled' : p.components ≠ [] := fun none => filled (Path.components_eq_nil.1 none)
  have notRoot : p.components ≠ [.root] := by
    intro root
    -- the root has no names, so the walk would end in a directory
    have absolute : p.isAbsolute = true := Path.isAbsolute_of_components root
    rw [Path.components_eq, (Path.isAbsolute_iff p).1 absolute, named] at root
    have none : p.components.count .parent = 0 ∧ names = [] := by simpa using root
    rw [none.2] at walk
    cases walk
  refine find_ok_iff.2 ⟨clean, filled, short, ?_⟩
  rw [Path.pieces_eq_lead_solid normal filled' notRoot, follow_lead, Path.solid_of_named named, linkFree.follow_ok_iff,
    walkLeg_parents]
  exact walk

/-- **Two paths to one file are one,** if they are in normal form and begin alike. -/
theorem eq_of_find (linkFree : t.LinkFree) (normalQ : q.normalize = q) (normalP : p.normalize = p)
    (begins : q.BeginsLike p) {g : File} (foundQ : t.find q = .ok (position, .file g))
    (foundP : t.find p = .ok (position, .file f)) : q = p := by
  obtain ⟨namesQ, namedQ, -, placeQ, -⟩ := exists_names_of_find linkFree normalQ foundQ
  obtain ⟨namesP, namedP, -, placeP, -⟩ := exists_names_of_find linkFree normalP foundP
  have climbs : t.climb q = t.climb p := by
    unfold climb startOf
    rw [begins.1, begins.2]
  rw [placeQ, climbs] at placeP
  rw [← List.append_cancel_left placeP] at namedP
  exact begins.eq_of_names normalQ normalP namedQ namedP

/-! ## What leads to a file after one was gained -/

/-- A walk that takes one more name after this one comes through a directory. -/
theorem directory_of_arrived {name : String} {above : Position} {piece : List Char} {rest : List (List Char)}
    {node : Node} (taken : Component.ofPiece? name.toList = some (.name name))
    (walk : t.walkLeg above .directory (name.toList :: piece :: rest) = .arrived position node) :
    t.node? (above ++ [name]) = some .directory := by
  simp only [walkLeg, taken] at walk
  by_cases long : longestName < name.utf8ByteSize
  · rw [if_pos long] at walk
    cases walk
  · rw [if_neg long] at walk
    cases next : t.node? (above ++ [name]) with
    | none =>
      rw [next] at walk
      cases walk
    | some node =>
      rw [next] at walk
      cases node with
      | directory => rfl
      | file => cases walk
      | link => cases walk

/-- A way down to a file that stood there before was there before. -/
theorem Gains.walkLeg_before (h : before.Gains after place file) :
    ∀ {names : List String} {above : Position}, (∀ name ∈ names, (Component.name name).Inner) → names ≠ [] →
      before.node? (above ++ names) = some (.file f) →
      after.walkLeg above .directory (names.map (·.toList)) = .arrived (above ++ names) (.file f) →
      before.walkLeg above .directory (names.map (·.toList)) = .arrived (above ++ names) (.file f)
  | [], _, _, filled, _, _ => absurd rfl filled
  | [name], above, inner, _, stands, walk => by
    have taken : Component.ofPiece? name.toList = some (.name name) := (inner name List.mem_cons_self).2
    simp only [List.map_cons, List.map_nil, walkLeg, taken] at walk ⊢
    by_cases long : longestName < name.utf8ByteSize
    · rw [if_pos long] at walk
      cases walk
    · rw [if_neg long, stands]
  | name :: next :: names, above, inner, _, stands, walk => by
    have taken : Component.ofPiece? name.toList = some (.name name) := (inner name List.mem_cons_self).2
    have directory : after.node? (above ++ [name]) = some .directory := directory_of_arrived taken walk
    rw [List.append_cons] at stands walk ⊢
    have stood : before.node? (above ++ [name]) = some .directory := by
      have other : above ++ [name] ≠ place := by
        rintro rfl
        rw [h.new] at directory
        cases directory
      rcases h.same _ other with same | ⟨empty, -⟩
      · rw [← same, directory]
      · rw [empty] at stands
        cases stands
    rw [List.map_cons] at walk ⊢
    simp only [walkLeg, taken, directory, stood] at walk ⊢
    by_cases long : longestName < name.utf8ByteSize
    · rw [if_pos long] at walk
      cases walk
    · rw [if_neg long] at walk ⊢
      exact h.walkLeg_before (fun n mem => inner n (List.mem_cons_of_mem _ mem)) (List.cons_ne_nil _ _) stands walk

/-- **A path in normal form that leads to a file** led there before the tree gained one, or it leads to the new one. -/
theorem Gains.find_cases (h : before.Gains after place file) (linkFree : before.LinkFree) (normal : q.normalize = q)
    (found : after.find q = .ok (position, .file f)) :
    before.find q = .ok (position, .file f) ∨ after.find q = .ok (place, .file file) := by
  obtain ⟨names, named, walk, below, stands⟩ := exists_names_of_find (h.linkFree linkFree) normal found
  by_cases new : position = place
  · rw [new, h.new] at stands
    cases stands
    exact .inr (new ▸ found)
  · have filled : names ≠ [] := by
      rintro rfl
      cases walk
    have climbs : after.climb q = before.climb q := by rw [climb, climb, h.workingDirectory]
    rw [climbs] at walk below
    subst below
    have stood := h.node?_before new stands
    have walk := h.walkLeg_before (Path.inner_of_named named) filled stood walk
    obtain ⟨clean, text, short, -⟩ := find_ok_iff.1 found
    exact .inl (find_of_walkLeg linkFree normal named ⟨clean, text, short⟩ walk)

end FileTree
end IncludeClosure
