import IncludeClosure.Proofs.FileTree.Leg
import IncludeClosure.Proofs.Path.Moved
import IncludeClosure.Proofs.Scan.Memo
/-!
# Proofs.FileTree.Copy — copies of one tree below two directories

The walk along a path in normal form first comes to the directory where a copy of a project stands and then takes the
names below it, as the project itself would (`walkLeg_below`).  The project has no links, so the walk does not leave the
copy any more, and the path names a regular file just when the project has one there (`Holds.hasFile_iff`).  Two trees
that hold copies of one project then mirror each other (`Holds.mirrors`).
-/
namespace IncludeClosure
namespace Path

theorem mem_text_iff {c : Char} (hc : c ≠ '/') : ∀ text : List Char, c ∈ text ↔ ∃ piece ∈ pieces text, c ∈ piece
  | [] => by simp [pieces]
  | d :: text => by
    have ih := mem_text_iff hc text
    rw [List.mem_cons, ih, pieces]
    by_cases slash : d = '/'
    · simp [slash, hc]
    · cases e : pieces text with
      | nil => exact absurd e (pieces_ne_nil text)
      | cons piece others => simp [slash, or_assoc]

theorem isAbsolute_of_components {p : Path} {rest : List Component} (h : p.components = .root :: rest) :
    p.isAbsolute = true := by
  have split : leading p.text.toList ++ named p.text.toList = .root :: rest := h
  rw [isAbsolute_iff]
  unfold leading at split ⊢
  by_cases slash : p.text.toList.head? = some '/'
  · rw [if_pos slash]
  · rw [if_neg slash] at split
    by_cases dot : (pieces p.text.toList).head? = some ['.']
    · rw [if_pos dot] at split
      cases (List.cons.inj split).1
    · rw [if_neg dot, List.nil_append] at split
      have mem : .root ∈ named p.text.toList := by rw [split]; exact List.mem_cons_self
      exact absurd rfl (inner_of_mem_pieces mem).ne_root

section

variable {home p : Path} {names : List String}

/-- The pieces of a path below a directory are those of the directory, and then the names. -/
theorem pieces_below (anchored : home.Anchored) (normal : p.normalize = p)
    (below : p.components = home.components ++ names.map .name) :
    pieces p.text.toList = pieces home.text.toList ++ names.map (·.toList) := by
  obtain ⟨rest, more, top⟩ := anchored.components_eq
  have root : home.components ≠ [.root] := by rw [top]; simpa using more
  have notRoot : p.components ≠ [.root] := by rw [below, top]; simp [more]
  have filled : p.components ≠ [] := by rw [below, top]; simp
  rw [pieces_of_normal normal filled notRoot, below, List.map_append,
    pieces_of_normal anchored.normal anchored.components_ne_nil root, List.map_map]
  rfl

theorem isAbsolute_below (anchored : home.Anchored) {rest : List Component}
    (below : p.components = home.components ++ rest) : p.isAbsolute = true := by
  obtain ⟨more, -, top⟩ := anchored.components_eq
  exact isAbsolute_of_components (by rw [below, top]; rfl)

/-- A character that is not in the directory is in the path when it is in one of the names. -/
theorem mem_text_below (anchored : home.Anchored) (normal : p.normalize = p)
    (below : p.components = home.components ++ names.map .name) {c : Char} (hc : c ≠ '/')
    (clean : c ∉ home.text.toList) : c ∈ p.text.toList ↔ ∃ name ∈ names, c ∈ name.toList := by
  rw [mem_text_iff hc] at clean ⊢
  rw [pieces_below anchored normal below]
  constructor
  · rintro ⟨piece, mem, hn⟩
    rcases List.mem_append.1 mem with mem | mem
    · exact absurd ⟨piece, mem, hn⟩ clean
    · obtain ⟨name, given, rfl⟩ := List.mem_map.1 mem
      exact ⟨name, given, hn⟩
  · rintro ⟨name, mem, hn⟩
    exact ⟨name.toList, List.mem_append_right _ (List.mem_map_of_mem mem), hn⟩

end

/-- Joining nothing ends in a slash. -/
theorem exists_join_nothing (p : Path) (filled : (p.join ⟨""⟩).text ≠ "") :
    ∃ front, (p.join ⟨""⟩).text.toList = front ++ ['/'] := by
  unfold join at filled ⊢
  rw [if_neg (by decide)] at filled ⊢
  split
  · rename_i e
    rw [e] at filled
    exact absurd rfl filled
  · rename_i e
    obtain ⟨front, e⟩ := List.getLast?_eq_some_iff.1 e
    exact ⟨front, by simpa using e⟩
  · exact ⟨p.text.toList, by simp⟩

end Path

namespace FileTree

variable {t : FileTree} {p : Path}

theorem find_ok_iff {place : Position × Node} : t.find p = .ok place ↔
    '\x00' ∉ p.text.toList ∧ p.text ≠ "" ∧ p.text.utf8ByteSize ≤ longestPath ∧
      t.follow mostLinks (startOf t.workingDirectory p) (Path.pieces p.text.toList) = .ok place := by
  unfold find
  split
  · simp [*]
  · split
    · simp_all
    · split
      · simp_all
      · simp_all

/-- **The path names a regular file,** and this is what a reader gets from it. -/
def HasFile (t : FileTree) (p : Path) (held : Except OsError Bytes) : Prop :=
  ∃ position f, t.find p = .ok (position, .file f) ∧ f.read = held

theorem isFile_iff_hasFile : t.isFile p = true ↔ ∃ held, t.HasFile p held := by
  rw [isFile_iff_find]
  constructor
  · rintro ⟨position, f, found⟩
    exact ⟨f.read, position, f, found, rfl⟩
  · rintro ⟨held, position, f, found, -⟩
    exact ⟨position, f, found⟩

/-! ## Longer walks -/

/-- The end of a walk, if the leg is its last one. -/
def Leg.end? : Leg → Option (Except OsError (Position × Node))
  | .arrived position node => some (.ok (position, node))
  | .redirected _ _ _ => none
  | .refused error => some (.error error)

/-- **A walk goes on from where it has come,** and ends there if no link is met any more. -/
theorem follow_append {position : Position} {node : Node} {more : List (List Char)}
    {place : Except OsError (Position × Node)} (last : (t.walkLeg position node more).end? = some place) :
    ∀ (links : Nat) (start : Position) (pieces : List (List Char)), t.follow links start pieces = .ok (position, node) →
      t.follow links start (pieces ++ more) = place
  | links, start, pieces, h => by
    unfold follow at h ⊢
    rw [walkLeg_append]
    cases leg : t.walkLeg start .directory pieces with
    | arrived position' node' =>
      rw [leg] at h
      cases h
      rw [Leg.andThen]
      cases e : t.walkLeg position node more <;> rw [e] at last <;> cases last <;> rfl
    | refused error =>
      rw [leg] at h
      cases h
    | redirected here target rest =>
      rw [leg] at h
      cases links with
      | zero => cases h
      | succ links =>
        have next := follow_append last links _ _ h
        rw [List.append_assoc] at next
        exact next

/-- A walk that ends in a piece that names nothing leads to a directory. -/
theorem follow_blank {blank : List Char} (nothing : Component.ofPiece? blank = none) {position : Position} {node : Node} :
    ∀ (links : Nat) (start : Position) (pieces : List (List Char)),
      t.follow links start (pieces ++ [blank]) = .ok (position, node) → node = .directory
  | links, start, pieces, h => by
    unfold follow at h
    rw [walkLeg_append] at h
    cases leg : t.walkLeg start .directory pieces with
    | arrived position' node' =>
      rw [leg] at h
      cases node' with
      | directory =>
        simp only [Leg.andThen, walkLeg, nothing] at h
        cases h
        rfl
      | file f => cases h
      | link target => cases h
    | refused error =>
      rw [leg] at h
      cases h
    | redirected here target rest =>
      rw [leg] at h
      cases links with
      | zero => cases h
      | succ links =>
        have longer : t.follow links (startOf here target) ((Path.pieces target.text.toList ++ rest) ++ [blank])
            = .ok (position, node) := by
          rw [List.append_assoc]
          exact h
        exact follow_blank nothing links _ _ longer

/-- **A path that ends in a slash cannot be read.** -/
theorem read_join_nothing (bytes : Bytes) : t.read (p.join ⟨""⟩) ≠ .ok bytes := by
  intro h
  obtain ⟨position, f, found, -⟩ := read_ok_iff.1 h
  obtain ⟨-, filled, -, walk⟩ := find_ok_iff.1 found
  obtain ⟨front, e⟩ := p.exists_join_nothing filled
  rw [e, Path.pieces_slash] at walk
  cases follow_blank rfl _ _ _ walk

/-! ## A copy of a project -/

variable {project : FileTree} {home : Path}

/-- **A leg in a copy below `position`** ends as the leg in the project does. -/
inductive Leg.Below (position : Position) : Leg → Leg → Prop where
  | arrived {below : Position} {node node' : Node} (alike : node.Alike node') :
      Below position (.arrived (position ++ below) node) (.arrived below node')
  | refused (error : OsError) : Below position (.refused error) (.refused error)

theorem walkLeg_below {position : Position} (linkFree : ∀ below target, project.node? below ≠ some (.link target))
    (copy : ∀ below ≠ [], Option.Rel Node.Alike (t.node? (position ++ below)) (project.node? below)) :
    ∀ (names : List String), (∀ name ∈ names, (Component.name name).Inner) → ∀ (below : Position) {node node' : Node},
      node.Alike node' → Leg.Below position (t.walkLeg (position ++ below) node (names.map (·.toList)))
        (project.walkLeg below node' (names.map (·.toList)))
  | [], _, below, _, _, alike => .arrived alike
  | name :: names, inner, below, _, _, .file _ => .refused _
  | name :: names, inner, below, _, _, .link _ => .refused _
  | name :: names, inner, below, _, _, .directory => by
    have taken : Component.ofPiece? name.toList = some (.name name) := (inner name List.mem_cons_self).2
    have next := copy (below ++ [name]) (by simp)
    have notLink := linkFree (below ++ [name])
    rw [← List.append_assoc] at next
    simp only [List.map_cons, walkLeg, taken]
    by_cases long : longestName < name.utf8ByteSize
    · rw [if_pos long, if_pos long]
      exact .refused _
    · rw [if_neg long, if_neg long]
      generalize t.node? (position ++ below ++ [name]) = there at next ⊢
      generalize project.node? (below ++ [name]) = here at next notLink ⊢
      cases next with
      | none => exact .refused _
      | some alike =>
        have inner' (n : String) (hn : n ∈ names) := inner n (List.mem_cons_of_mem _ hn)
        have rest := walkLeg_below linkFree copy names inner' (below ++ [name]) alike
        rw [← List.append_assoc] at rest
        cases alike with
        | directory => exact rest
        | file bytes => exact rest
        | link target => exact absurd rfl (notLink target)

/-- **Where the names lead in the project.** -/
theorem node?_of_arrived : ∀ {names : List String} {below place : Position} {node end' : Node},
    project.walkLeg below node (names.map (·.toList)) = .arrived place end' →
    (∀ name ∈ names, (Component.name name).Inner) →
    place = below ++ names ∧ (names = [] ∧ end' = node ∨ project.node? place = some end')
  | [], _, _, _, _, h, _ => by
    cases h
    exact ⟨(List.append_nil _).symm, .inl ⟨rfl, rfl⟩⟩
  | name :: names, _, _, .file _, _, h, _ => by cases h
  | name :: names, _, _, .link _, _, h, _ => by cases h
  | name :: names, below, _, .directory, _, h, inner => by
    have taken : Component.ofPiece? name.toList = some (.name name) := (inner name List.mem_cons_self).2
    simp only [List.map_cons, walkLeg, taken] at h
    split at h
    · cases h
    · split at h
      · cases h
      · cases h
      · rename_i found
        obtain ⟨rfl, last⟩ := node?_of_arrived h fun n hn => inner n (List.mem_cons_of_mem _ hn)
        refine ⟨List.append_assoc .., .inr ?_⟩
        rcases last with ⟨rfl, rfl⟩ | last
        · rw [List.append_nil]
          exact found
        · exact last

/-- **The project has a file** that the names lead to from its top, and this is what a reader gets from it. -/
def Stores (project : FileTree) (names : List String) (held : Except OsError Bytes) : Prop :=
  (∀ name ∈ names, '\x00' ∉ name.toList) ∧
    ∃ place f, project.walkLeg [] .directory (names.map (·.toList)) = .arrived place (.file f) ∧ f.read = held

theorem Stores.node? {names : List String} {held : Except OsError Bytes} (h : project.Stores names held)
    (inner : ∀ name ∈ names, (Component.name name).Inner) :
    ∃ f, project.node? names = some (.file f) ∧ f.read = held := by
  obtain ⟨-, place, f, arrived, reads⟩ := h
  obtain ⟨rfl, ⟨-, e⟩ | found⟩ := node?_of_arrived arrived inner
  · cases e
  · exact ⟨f, found, reads⟩

/-- **A path below the directory of a copy** names a regular file just when the project has one under its names, and it is
read alike. -/
theorem Holds.hasFile_iff (h : t.Holds home project) (linkFree : ∀ below target, project.node? below ≠ some (.link target))
    (anchored : home.Anchored) (normal : p.normalize = p) {names : List String}
    (below : p.components = home.components ++ names.map .name) (held : Except OsError Bytes) :
    t.HasFile p held ↔ project.Stores names held := by
  obtain ⟨position, found, copy⟩ := h.copy
  obtain ⟨clean, -, -, walk⟩ := find_ok_iff.1 found
  have inner (name : String) (mem : name ∈ names) : (Component.name name).Inner :=
    Path.inner_of_append below anchored.components_ne_nil _ (List.mem_map_of_mem mem)
  have pieces := Path.pieces_below anchored normal below
  have nul := Path.mem_text_below anchored normal below (by decide) clean
  have start : startOf t.workingDirectory p = startOf t.workingDirectory home := by
    unfold startOf
    rw [anchored.absolute, Path.isAbsolute_below anchored below]
  have leg := walkLeg_below linkFree copy names inner [] .directory
  rw [List.append_nil] at leg
  constructor
  · rintro ⟨place, f, found', rfl⟩
    obtain ⟨noNul', -, -, walk'⟩ := find_ok_iff.1 found'
    rw [pieces, start] at walk'
    refine ⟨fun name mem hn => noNul' (nul.2 ⟨name, mem, hn⟩), ?_⟩
    generalize ends : t.walkLeg position .directory (names.map (·.toList)) = reached at leg
    generalize project.walkLeg [] .directory (names.map (·.toList)) = reached' at leg ⊢
    cases leg with
    | refused error =>
      rw [follow_append (by rw [ends]; rfl) _ _ _ walk] at walk'
      cases walk'
    | arrived alike =>
      rw [follow_append (by rw [ends]; rfl) _ _ _ walk] at walk'
      cases walk'
      cases alike with
      | file same => exact ⟨_, _, rfl, same.symm⟩
  · intro stores
    obtain ⟨g, there, -⟩ := stores.node? inner
    obtain ⟨noNul, place, f, arrived, rfl⟩ := stores
    generalize ends : t.walkLeg position .directory (names.map (·.toList)) = reached at leg
    rw [arrived] at leg
    cases leg with
    | arrived alike =>
      cases alike with
      | file same =>
        refine ⟨position ++ place, _, find_ok_iff.2 ⟨fun hn => ?_, anchored.text_ne_empty below, ?_, ?_⟩,
          same⟩
        · obtain ⟨name, mem, hn⟩ := nul.1 hn
          exact noNul name mem hn
        · have fits := h.fits names g there
          rw [← below, Path.ofComponents_components normal] at fits
          exact fits
        · rw [pieces, start]
          exact follow_append (by rw [ends]; rfl) _ _ _ walk

theorem mem_of_node? {position : Position} {node : Node} (h : t.node? position = some node) :
    position = [] ∧ node = .directory ∨ (position, node) ∈ t.nodes := by
  cases position with
  | nil =>
    cases h
    exact .inl ⟨rfl, rfl⟩
  | cons name rest =>
    obtain ⟨entry, found, rfl⟩ := Option.map_eq_some_iff.1 h
    have same := List.find?_some found
    rw [beq_iff_eq] at same
    rw [← same]
    exact .inr (List.mem_of_find?_eq_some found)

/-- The regular files of a tree. -/
def files (t : FileTree) : List File :=
  t.nodes.filterMap fun
    | (_, .file f) => some f
    | _ => none

theorem mem_files_of_find {position : Position} {f : File} (found : t.find p = .ok (position, .file f)) :
    f ∈ t.files := by
  obtain ⟨-, -, -, walk⟩ := find_ok_iff.1 found
  rcases mem_of_node? (node?_of_follow_file _ _ walk) with ⟨-, e⟩ | mem
  · cases e
  · exact List.mem_filterMap.2 ⟨_, mem, rfl⟩

/-- **Stamps tell contents apart** if two files with one stamp, wherever they are, are read alike when the first can be
read. -/
theorem stampsTell_of_files {before after : FileTree}
    (apart : ∀ f ∈ before.files, ∀ g ∈ after.files, f.stamp = g.stamp → f.read.isOk → g.read = f.read) :
    before.StampsTell after := by
  intro p stamp bytes was now held
  obtain ⟨position, f, found, rfl⟩ := status_file_iff.1 was
  obtain ⟨position', g, found', same⟩ := status_file_iff.1 now
  obtain ⟨_, _, again, had⟩ := read_ok_iff.1 held
  rw [found] at again
  cases again
  refine read_ok_iff.2 ⟨position', g, found', ?_⟩
  rw [apart f (mem_files_of_find found) g (mem_files_of_find found') same.symm (by rw [had]; rfl), had]

theorem node?_ne_none {entry : Position × Node} (mem : entry ∈ t.nodes) : t.node? entry.1 ≠ none := by
  obtain ⟨position, node⟩ := entry
  cases position with
  | nil => exact nofun
  | cons name rest =>
    intro missing
    have none := List.find?_eq_none.1 (Option.map_eq_none_iff.1 missing) _ mem
    exact none (beq_self_eq_true _)

/-- **A copy is told by the nodes listed:** each one of the project has its copy, and below the directory nothing else
is listed. -/
theorem holds_of_nodes (position : Position) (found : t.find home = .ok (position, .directory))
    (copied : ∀ entry ∈ project.nodes, Option.Rel Node.Alike (t.node? (position ++ entry.1)) (some entry.2))
    (fits : ∀ entry ∈ project.nodes,
      (Path.ofComponents (home.components ++ entry.1.map .name)).text.utf8ByteSize ≤ longestPath)
    (others : ∀ entry ∈ t.nodes, position.isPrefixOf entry.1 = true →
      entry.1.drop position.length ∈ [] :: project.nodes.map Prod.fst) : t.Holds home project where
  copy := by
    refine ⟨position, found, fun below more => ?_⟩
    cases there : project.node? below with
    | some node =>
      rcases mem_of_node? there with ⟨e, -⟩ | mem
      · exact absurd e more
      · exact copied _ mem
    | none =>
      cases here : t.node? (position ++ below) with
      | none => exact .none
      | some node =>
        rcases mem_of_node? here with ⟨e, -⟩ | mem
        · exact absurd (List.append_eq_nil_iff.1 e).2 more
        · have listed := others _ mem (List.isPrefixOf_iff_prefix.2 (List.prefix_append _ _))
          rw [List.drop_left] at listed
          obtain ⟨entry, given, rfl⟩ := List.mem_map.1 ((List.mem_cons.1 listed).resolve_left more)
          exact absurd there (node?_ne_none given)
  fits below f there := by
    rcases mem_of_node? there with ⟨-, e⟩ | mem
    · cases e
    · exact fits (below, .file f) mem

/-! ## Two copies -/

/-- **Two trees mirror each other** below two directories: one path names a regular file where the other does, both are
read alike, and directives lead nowhere else. -/
structure Mirrors (home home' : Path) (t t' : FileTree) : Prop where
  hasFile_iff : ∀ {p p' : Path}, Path.Twin home home' p p' → ∀ held, t.HasFile p held ↔ t'.HasFile p' held
  inward : ∀ {p p' : Path}, Path.Twin home home' p p' → ∀ bytes, t.HasFile p (.ok bytes) →
    ∀ d ∈ Directive.extract bytes, Path.Inward ⟨d.target⟩
  notFile : ∀ held, ¬ t.HasFile home held

namespace Mirrors

variable {t' : FileTree} {home' p' : Path}

theorem symm (h : Mirrors home home' t t') (anchored : home.Anchored) (anchored' : home'.Anchored) :
    Mirrors home' home t' t where
  hasFile_iff twin held := (h.hasFile_iff twin.symm held).symm
  inward twin bytes there := h.inward twin.symm bytes ((h.hasFile_iff twin.symm _).2 there)
  notFile held there :=
    h.notFile held ((h.hasFile_iff ⟨.start home home', anchored.normal, anchored'.normal⟩ held).2 there)

theorem isFile_eq (h : Mirrors home home' t t') (twin : Path.Twin home home' p p') : t.isFile p = t'.isFile p' := by
  rw [Bool.eq_iff_iff, isFile_iff_hasFile, isFile_iff_hasFile]
  exact exists_congr (h.hasFile_iff twin)

/-- **The directives of a file** are those of the file at the other place, and they are inward. -/
theorem directives (h : Mirrors home home' t t') (twin : Path.Twin home home' p p') {ds : List Directive}
    (hd : t.directives p = .ok ds) : t'.directives p' = .ok ds ∧ ∀ d ∈ ds, Path.Inward ⟨d.target⟩ := by
  obtain ⟨bytes, read, rfl⟩ := directives_ok_iff.1 hd
  have there : t.HasFile p (.ok bytes) := read_ok_iff.1 read
  exact ⟨directives_ok_iff.2 ⟨bytes, read_ok_iff.2 ((h.hasFile_iff twin _).1 there), rfl⟩, h.inward twin bytes there⟩

end Mirrors

/-- **Trees that hold copies of one project** mirror each other. -/
theorem Holds.mirrors {t' : FileTree} {home' : Path} (h : t.Holds home project) (h' : t'.Holds home' project)
    (contained : project.SelfContained) (anchored : home.Anchored) (anchored' : home'.Anchored) :
    Mirrors home home' t t' where
  hasFile_iff twin held := by
    obtain ⟨names, e, e'⟩ := twin.moved
    rw [h.hasFile_iff contained.linkFree anchored twin.normal e,
      h'.hasFile_iff contained.linkFree anchored' twin.normal' e']
  inward twin bytes there := by
    obtain ⟨names, e, -⟩ := twin.moved
    have stores := (h.hasFile_iff contained.linkFree anchored twin.normal e _).1 there
    obtain ⟨f, stored, reads⟩ := stores.node? fun name mem =>
      Path.inner_of_append e anchored.components_ne_nil _ (List.mem_map_of_mem mem)
    obtain ⟨-, rfl⟩ := File.read_ok_iff.1 reads
    exact contained.inward names f stored
  notFile held there := by
    obtain ⟨position, found, -⟩ := h.copy
    obtain ⟨place, f, found', -⟩ := there
    rw [found] at found'
    cases found'

end FileTree
end IncludeClosure
