import IncludeClosure.Proofs.FileTree.NewFile
import IncludeClosure.Proofs.Scan.Lookup
/-!
# Proofs.FileTree.Normal — without links a path leads where its normal form leads

A walk from the root takes the pieces of a path one after another, each in a directory (`Walks`).  The names on its way
are a stack: a name is pushed, `..` takes the last one away, and nothing is below the root.  This is the stack of the
normal form (`Walks.folds`), and every directory above the node was passed, so the normal form leads there too.  The
system refuses texts that are too long, but it takes the normal form when it takes the path (`Taken.normalize`); on a
tree without links what it finds is where the walk leads (`find_ok_iff_leadsTo`).
-/
namespace IncludeClosure

namespace Path

/-- The stack of a path from the root down some names. -/
def stackOf (names : List String) : List Component :=
  (names.map .name).reverse ++ [.root]

theorem push_stackOf_name (names : List String) (name : String) :
    push (stackOf names) (.name name) = stackOf (names ++ [name]) := by
  rw [push_name]
  simp [stackOf]

/-- A `..` takes the last name away; at the root there is none. -/
theorem push_stackOf_parent (names : List String) : push (stackOf names) .parent = stackOf names.dropLast := by
  rcases List.eq_nil_or_concat names with rfl | ⟨init, last, rfl⟩
  · rfl
  · simp [stackOf, push]

/-- **A path that the system takes:** it has no NUL, and neither it nor a name in it is too long. -/
structure Taken (p : Path) : Prop where
  clean : '\x00' ∉ p.text.toList
  short : p.text.utf8ByteSize ≤ FileTree.longestPath
  names : ∀ name, .name name ∈ p.components → name.utf8ByteSize ≤ FileTree.longestName

/-- **The system takes the normal form** of a path that it takes. -/
theorem Taken.normalize {p : Path} (h : p.Taken) : p.normalize.Taken where
  clean nul := h.clean (p.text_normalize_sublist.subset nul)
  short := (Text.size_le_of_sublist p.text_normalize_sublist).trans h.short
  names name mem := h.names name (p.components_normalize_sublist.subset mem)

end Path

namespace FileTree

open Component (ofPiece?)

variable {t : FileTree} {p : Path} {position place : Position} {node : Node} {pieces : List (List Char)}

/-- **A walk along some pieces** ends where they do.  Each is taken in a directory, also a piece that names nothing; a
`..` leads to the directory above, and from the root to the root. -/
inductive Walks (t : FileTree) (place : Position) (node : Node) : Position → List (List Char) → Prop where
  | here (stands : t.node? place = some node) : Walks t place node place []
  | stay {position : Position} {piece : List Char} {pieces : List (List Char)}
      (directory : t.node? position = some .directory) (nothing : ofPiece? piece = none)
      (rest : Walks t place node position pieces) : Walks t place node position (piece :: pieces)
  | up {position : Position} {piece : List Char} {pieces : List (List Char)}
      (directory : t.node? position = some .directory) (parent : ofPiece? piece = some .parent)
      (rest : Walks t place node position.dropLast pieces) : Walks t place node position (piece :: pieces)
  | down {position : Position} {piece : List Char} {pieces : List (List Char)} {name : String}
      (directory : t.node? position = some .directory) (named : ofPiece? piece = some (.name name))
      (rest : Walks t place node (position ++ [name]) pieces) : Walks t place node position (piece :: pieces)

/-- **The walk of an absolute path** from the root. -/
def LeadsTo (t : FileTree) (p : Path) (place : Position) (node : Node) : Prop :=
  t.Walks place node [] (Path.pieces p.text.toList)

/-- **All that lies above a place** is a directory. -/
def Reachable (t : FileTree) (place : Position) : Prop :=
  ∀ above, above <+: place → above ≠ place → t.node? above = some .directory

theorem reachable_root (t : FileTree) : t.Reachable [] := by
  intro above higher other
  exact absurd (List.prefix_nil.1 higher) other

theorem Reachable.concat (h : t.Reachable place) (directory : t.node? place = some .directory) (name : String) :
    t.Reachable (place ++ [name]) := by
  intro above higher other
  have higher := (List.prefix_concat_iff.1 higher).resolve_left other
  by_cases same : above = place
  · rw [same, directory]
  · exact h above higher same

theorem Reachable.dropLast (h : t.Reachable place) : t.Reachable place.dropLast := by
  intro above higher other
  refine h above (higher.trans (List.dropLast_prefix place)) ?_
  rintro rfl
  exact other (higher.eq_of_length_le (by simp))

/-- The directory above a directory is one, also the one above the root. -/
theorem Reachable.directory_dropLast (h : t.Reachable place) (directory : t.node? place = some .directory) :
    t.node? place.dropLast = some .directory := by
  by_cases top : place.dropLast = place
  · rw [top, directory]
  · exact h _ (List.dropLast_prefix place) top

/-! ## The two stacks -/

/-- **A walk goes where the stack of the normal form says,** and only through directories. -/
theorem Walks.folds (walk : t.Walks place node position pieces) (reach : t.Reachable position) :
    t.Reachable place ∧ t.node? place = some node ∧
      (pieces.filterMap ofPiece?).foldl Path.push (Path.stackOf position) = Path.stackOf place := by
  induction walk with
  | here stands => exact ⟨reach, stands, rfl⟩
  | stay _ nothing _ ih =>
    rw [List.filterMap_cons_none nothing]
    exact ih reach
  | up _ parent _ ih =>
    rw [List.filterMap_cons_some parent, List.foldl_cons, Path.push_stackOf_parent]
    exact ih reach.dropLast
  | down directory named _ ih =>
    rw [List.filterMap_cons_some named, List.foldl_cons, Path.push_stackOf_name]
    exact ih (reach.concat directory _)

/-- The names on the way down from a directory lead to what stands at their end. -/
theorem Reachable.walks : ∀ {names : List String} {above : Position}, t.Reachable (above ++ names) →
    t.node? (above ++ names) = some node → (∀ name ∈ names, (Component.name name).Inner) →
      t.Walks (above ++ names) node above (names.map (·.toList))
  | [], above, _, stands, _ => by
    rw [List.append_nil] at stands ⊢
    exact .here stands
  | name :: names, above, reach, stands, inner => by
    have directory : t.node? above = some .directory := reach above (List.prefix_append _ _) (by simp)
    have taken : ofPiece? name.toList = some (.name name) := (inner name List.mem_cons_self).2
    rw [List.append_cons] at reach stands ⊢
    exact .down directory taken (reach.walks stands fun n mem => inner n (List.mem_cons_of_mem _ mem))

/-- A path from the root down some names leads to what stands there. -/
theorem Reachable.leadsTo (reach : t.Reachable place) (stands : t.node? place = some node) (normal : p.normalize = p)
    (names : p.components = .root :: place.map .name) : t.LeadsTo p place node := by
  unfold LeadsTo
  by_cases top : place = []
  · subst top
    obtain rfl : p = ⟨"/"⟩ := (Path.ofComponents_components normal).symm.trans (by rw [names]; rfl)
    cases stands
    exact .stay rfl rfl (.stay rfl rfl (.here rfl))
  · have below : p.components ≠ [.root] := by simpa [names] using top
    rw [Path.pieces_of_normal normal (by simp [names]) below, names, List.map_cons, List.map_map]
    have named : Path.named p.text.toList = [] ++ place.map .name := by
      have whole := names
      rw [Path.components_eq, (Path.isAbsolute_iff p).1 (Path.isAbsolute_of_components names)] at whole
      exact (List.cons.inj whole).2
    have walk : t.Walks ([] ++ place) node [] (place.map (·.toList)) := reach.walks stands (Path.inner_of_named named)
    -- the empty piece before the first slash is taken at the root
    exact .stay rfl rfl walk

/-- **The normal form leads where the path leads.** -/
theorem LeadsTo.normalize (leads : t.LeadsTo p place node) (absolute : p.isAbsolute = true) :
    t.LeadsTo p.normalize place node := by
  obtain ⟨reach, stands, folded⟩ := Walks.folds leads t.reachable_root
  refine reach.leadsTo stands p.normalize_normalize ?_
  rw [Path.components_normalize, Path.normalComponents, Path.components_eq, (Path.isAbsolute_iff p).1 absolute,
    List.foldl_append]
  show (List.foldl Path.push (Path.stackOf []) (Path.named p.text.toList)).reverse = _
  rw [show List.foldl Path.push (Path.stackOf []) (Path.named p.text.toList) = Path.stackOf place from folded,
    Path.stackOf]
  simp

/-! ## The walk of the system -/

/-- **What a leg arrives at** is where the walk leads, and no name on the way is too long. -/
theorem walks_of_walkLeg : ∀ {pieces : List (List Char)} {position : Position} {start : Node},
    (∀ piece ∈ pieces, '/' ∉ piece) → t.Reachable position → t.node? position = some start →
      t.walkLeg position start pieces = .arrived place node → t.Walks place node position pieces ∧
        ∀ name, .name name ∈ pieces.filterMap ofPiece? → name.utf8ByteSize ≤ longestName
  | [], position, start, _, _, stands, leg => by
    cases leg
    exact ⟨.here stands, by simp⟩
  | piece :: pieces, position, .file _, _, _, _, leg => by cases leg
  | piece :: pieces, position, .link _, _, _, _, leg => by cases leg
  | piece :: pieces, position, .directory, plain, reach, directory, leg => by
    have plain' : ∀ piece ∈ pieces, '/' ∉ piece := fun q mem => plain q (List.mem_cons_of_mem _ mem)
    cases taken : ofPiece? piece with
    | none =>
      simp only [walkLeg, taken] at leg
      obtain ⟨rest, short⟩ := walks_of_walkLeg plain' reach directory leg
      rw [List.filterMap_cons_none taken]
      exact ⟨.stay directory taken rest, short⟩
    | some c =>
      rw [List.filterMap_cons_some taken]
      by_cases climbs : c = .parent
      · subst climbs
        simp only [walkLeg, taken] at leg
        obtain ⟨rest, short⟩ := walks_of_walkLeg plain' reach.dropLast (reach.directory_dropLast directory) leg
        exact ⟨.up directory taken rest, by simpa using short⟩
      · obtain ⟨name, rfl⟩ := (Component.inner_of_ofPiece? (plain piece List.mem_cons_self) taken).eq_name climbs
        simp only [walkLeg, taken] at leg
        by_cases long : longestName < name.utf8ByteSize
        · rw [if_pos long] at leg
          cases leg
        · rw [if_neg long] at leg
          split at leg
          · cases leg
          · cases leg
          · rename_i stands
            obtain ⟨rest, short⟩ := walks_of_walkLeg plain' (reach.concat directory name) stands leg
            refine ⟨.down directory taken rest, fun n mem => ?_⟩
            rcases List.mem_cons.1 mem with same | mem
            · cases same
              exact Nat.le_of_not_lt long
            · exact short n mem

theorem Walks.exists_node (walk : t.Walks place node position pieces) : ∃ start, t.node? position = some start := by
  cases walk with
  | here stands => exact ⟨_, stands⟩
  | stay directory => exact ⟨_, directory⟩
  | up directory => exact ⟨_, directory⟩
  | down directory => exact ⟨_, directory⟩

/-- **A leg arrives where the walk leads** on a tree without links, if no name on the way is too long. -/
theorem Walks.walkLeg_eq (linkFree : t.LinkFree) (walk : t.Walks place node position pieces)
    (reach : t.Reachable position)
    (short : ∀ name, .name name ∈ pieces.filterMap ofPiece? → name.utf8ByteSize ≤ longestName) :
    ∀ {start : Node}, t.node? position = some start → t.walkLeg position start pieces = .arrived place node := by
  induction walk with
  | here stands =>
    intro start from'
    rw [stands] at from'
    cases from'
    rfl
  | stay directory nothing _ ih =>
    intro start from'
    rw [directory] at from'
    cases from'
    simp only [walkLeg, nothing]
    rw [List.filterMap_cons_none nothing] at short
    exact ih reach short directory
  | up directory parent _ ih =>
    intro start from'
    rw [directory] at from'
    cases from'
    simp only [walkLeg, parent]
    rw [List.filterMap_cons_some parent] at short
    exact ih reach.dropLast (fun name mem => short name (List.mem_cons_of_mem _ mem))
      (reach.directory_dropLast directory)
  | @down position piece pieces name directory named rest ih =>
    intro start from'
    rw [directory] at from'
    cases from'
    rw [List.filterMap_cons_some named] at short
    simp only [walkLeg, named, if_neg (Nat.not_lt.2 (short name List.mem_cons_self))]
    obtain ⟨next, stands⟩ := rest.exists_node
    rw [stands]
    have onward := ih (reach.concat directory name) (fun n mem => short n (List.mem_cons_of_mem _ mem)) stands
    cases next with
    | link target => exact absurd stands (linkFree _ _)
    | directory => exact onward
    | file f => exact onward

/-- **What the system finds** on a tree without links: it takes the path, and the walk leads there. -/
theorem find_ok_iff_leadsTo (linkFree : t.LinkFree) (absolute : p.isAbsolute = true) :
    t.find p = .ok (place, node) ↔ p.Taken ∧ t.LeadsTo p place node := by
  have start : startOf t.workingDirectory p = [] := if_pos absolute
  have named : p.components = .root :: (Path.pieces p.text.toList).filterMap ofPiece? := by
    rw [Path.components_eq, (Path.isAbsolute_iff p).1 absolute]
    rfl
  have same (name : String) :
      .name name ∈ p.components ↔ .name name ∈ (Path.pieces p.text.toList).filterMap ofPiece? := by
    simp [named]
  rw [find_ok_iff, start, linkFree.follow_ok_iff]
  constructor
  · rintro ⟨clean, -, short, leg⟩
    obtain ⟨walk, names⟩ := walks_of_walkLeg (Path.slash_notMem_of_mem_pieces _) t.reachable_root rfl leg
    exact ⟨⟨clean, short, fun name mem => names name ((same name).1 mem)⟩, walk⟩
  · rintro ⟨taken, walk⟩
    have filled : p.text ≠ "" := fun none => by simp [Path.components_eq_nil.2 none] at named
    exact ⟨taken.clean, filled, taken.short, Walks.walkLeg_eq linkFree walk t.reachable_root
      (fun name mem => taken.names name ((same name).2 mem)) rfl⟩

theorem find_normalize (linkFree : t.LinkFree) (absolute : p.isAbsolute = true) (found : t.find p = .ok (place, node)) :
    t.find p.normalize = .ok (place, node) := by
  obtain ⟨taken, leads⟩ := (find_ok_iff_leadsTo linkFree absolute).1 found
  exact (find_ok_iff_leadsTo linkFree (p.isAbsolute_normalize.trans absolute)).2
    ⟨taken.normalize, leads.normalize absolute⟩

/-- A path that names a regular file has a normal form that names it. -/
theorem isFile_normalize (linkFree : t.LinkFree) (absolute : p.isAbsolute = true) (file : t.isFile p = true) :
    t.isFile p.normalize = true := by
  obtain ⟨place, f, found⟩ := isFile_iff_find.1 file
  exact isFile_iff_find.2 ⟨place, f, find_normalize linkFree absolute found⟩

end FileTree

/-- Where a compiler opens a header below a search directory, the folded path is a candidate for its name. -/
theorem SearchDirs.normalize_join_mem_candidates {dirs : SearchDirs} {beside : Option Path} {form : IncludeForm}
    {dir : Path} (searched : dir ∈ dirs.forForm beside form) (name : String) :
    (dir.join ⟨name⟩).normalize ∈ dirs.candidates beside form name := by
  unfold candidates
  dsimp only
  split
  · rename_i absolute
    rw [Path.join, if_pos absolute]
    exact List.mem_singleton_self _
  · exact List.mem_map_of_mem searched

namespace FileTree

/-- **Without links a path leads where its normal form leads.**  What a walk from the root reaches, the normal form
reaches too, and what the system finds it finds under the normal form.  So a header that a compiler opens below a search
directory exists where the scan looks for it, and its name means something. -/
theorem leadsTo_normalize (t : FileTree) (linkFree : t.LinkFree) :
    (∀ (p : Path) (place : Position) (node : Node), p.isAbsolute = true → t.LeadsTo p place node →
      t.LeadsTo p.normalize place node) ∧
    (∀ (p : Path) (place : Position) (node : Node), p.isAbsolute = true → t.find p = .ok (place, node) →
      t.find p.normalize = .ok (place, node)) ∧
    ∀ (l : Lookup) (beside : Option Path) (form : IncludeForm) (name : String), ∀ dir ∈ l.dirs.forForm beside form,
      (dir.join ⟨name⟩).isAbsolute = true → t.isFile (dir.join ⟨name⟩) = true →
      (dir.join ⟨name⟩).normalize ∈ l.dirs.candidates beside form name ∧
      (l.existingOn? t (dir.join ⟨name⟩).normalize).isSome ∧
      ∃ a, Scan.Gives t (l.find? beside form name) (some a) := by
  refine ⟨fun p place node absolute leads => leads.normalize absolute,
    fun p place node absolute found => find_normalize linkFree absolute found, ?_⟩
  intro l beside form name dir searched absolute file
  have candidate := SearchDirs.normalize_join_mem_candidates searched name
  have stands : (l.existingOn? t (dir.join ⟨name⟩).normalize).isSome := by
    unfold Lookup.existingOn?
    split
    · rfl
    · rw [if_pos (isFile_normalize linkFree absolute file)]
      rfl
  have means : (l.meaning? t beside form name).isSome := List.findSome?_isSome_iff.2 ⟨_, candidate, stands⟩
  obtain ⟨a, meaning⟩ := Option.isSome_iff_exists.1 means
  exact ⟨candidate, stands, a, meaning ▸ l.gives_find beside form name⟩

end FileTree

namespace Sample

/-- A header beside the directory that is searched for it. -/
def headersTree : FileTree where
  nodes :=
    [(["w"], .directory),
     (["w", "inc"], .directory),
     (["w", "inc", "sys"], .directory),
     (["w", "inc", "h.h"], .file { bytes := [], modified := 0 })]
  workingDirectory := ["w"]

def headersLookup : Lookup where
  dirs := { quote := [], angle := [⟨"/../w/inc/sys/"⟩] }
  generated := .empty
  context := .ofExecRoot ⟨"/w"⟩

/-- The header, as a compiler opens it. -/
def hPath : Path :=
  (⟨"/../w/inc/sys/"⟩ : Path).join ⟨"./..//h.h"⟩

theorem linkFree_headersTree : headersTree.LinkFree :=
  FileTree.linkFree_of_nodes (by simp [headersTree])

end Sample

namespace FileTree

/-- A path that goes above the root, and back from a search directory. -/
theorem leadsTo_normalize_headers :
    Sample.headersTree.LinkFree ∧ Sample.hPath.isAbsolute = true ∧ Sample.hPath.normalize = ⟨"/w/inc/h.h"⟩ ∧
    Sample.headersTree.LeadsTo Sample.hPath ["w", "inc", "h.h"] (.file { bytes := [], modified := 0 }) ∧
    Sample.headersTree.LeadsTo ⟨"/w/inc/h.h"⟩ ["w", "inc", "h.h"] (.file { bytes := [], modified := 0 }) ∧
    Sample.headersTree.find Sample.hPath = .ok (["w", "inc", "h.h"], .file { bytes := [], modified := 0 }) ∧
    Sample.headersTree.find ⟨"/w/inc/h.h"⟩ = .ok (["w", "inc", "h.h"], .file { bytes := [], modified := 0 }) ∧
    ⟨"/../w/inc/sys/"⟩ ∈ Sample.headersLookup.dirs.forForm none .angle ∧
    Sample.headersTree.isFile Sample.hPath = true ∧
    ⟨"/w/inc/h.h"⟩ ∈ Sample.headersLookup.dirs.candidates none .angle "./..//h.h" ∧
    (Sample.headersLookup.existingOn? Sample.headersTree ⟨"/w/inc/h.h"⟩).isSome ∧
    ∃ a, Scan.Gives Sample.headersTree (Sample.headersLookup.find? none .angle "./..//h.h") (some a) := by
  have absolute : Sample.hPath.isAbsolute = true := by decide
  have folded : Sample.hPath.normalize = ⟨"/w/inc/h.h"⟩ := by decide
  have found : Sample.headersTree.find Sample.hPath =
      .ok (["w", "inc", "h.h"], .file { bytes := [], modified := 0 }) := by decide
  have leads := ((find_ok_iff_leadsTo Sample.linkFree_headersTree absolute).1 found).2
  have searched : ⟨"/../w/inc/sys/"⟩ ∈ Sample.headersLookup.dirs.forForm none .angle := List.mem_singleton_self _
  have file : Sample.headersTree.isFile Sample.hPath = true := by decide
  obtain ⟨walk, find, header⟩ := leadsTo_normalize Sample.headersTree Sample.linkFree_headersTree
  have walked := walk _ _ _ absolute leads
  have found' := find _ _ _ absolute found
  obtain ⟨candidate, stands, means⟩ := header Sample.headersLookup none .angle "./..//h.h" _ searched absolute file
  rw [folded] at walked found'
  exact ⟨Sample.linkFree_headersTree, absolute, folded, leads, walked, found, found', searched, file,
    folded ▸ candidate, folded ▸ stands, means⟩

end FileTree
end IncludeClosure
