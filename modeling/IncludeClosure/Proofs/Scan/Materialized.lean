import IncludeClosure.Proofs.FileTree.NewFile
import IncludeClosure.Proofs.Scan.Priority
import IncludeClosure.Proofs.Scan.Session
/-!
# Proofs.Scan.Materialized — a generated file that gets written only adds inputs

A tree gains a file where generated files are written.  A generated file lies elsewhere than it is written, and means
the same at every candidate whether it is written or not, so the names of a scan mean what they meant
(`meaning_eq`), as long as no other candidate leads to the new file.  What was read is read again, and the only other
directives are those of the new file (`directivesOn_cases`).  So all that was found is found again, and the rest comes
from these (`found_of_gains`).

A candidate may lead to the new file without being its path when one is relative and the other is not; then the new
file can come before what was found (`found_lost_of_gains`).
-/
namespace IncludeClosure

theorem GeneratedFiles.mem_of_written? {g : GeneratedFiles} {a : Artifact} {w : Path} (h : g.written? a = some w) :
    (a, w) ∈ g.entries := by
  obtain ⟨entry, found, rfl⟩ := Option.map_eq_some_iff.1 h
  have same : entry.1 = a := by simpa using List.find?_some found
  rw [← same]
  exact List.mem_of_find?_eq_some found

namespace Lookup

variable {before after : FileTree} {place : Position} {file : File} {p : Path} {l : Lookup}
  {mainSource : Artifact} {sources : List Artifact} {forced : List String}

/-- **A candidate of some lookup** that a scan makes on a tree. -/
inductive LooksAt (l : Lookup) (t : FileTree) (mainSource : Artifact) (sources : List Artifact) (forced : List String)
    (q : Path) : Prop where
  | forced {name : String} (given : name ∈ forced)
      (candidate : q ∈ l.dirs.candidates mainSource.path.parent? .quote name) : LooksAt l t mainSource sources forced q
  | directive {a : Artifact} {ds : List Directive} {d : Directive} (reached : l.Reach t mainSource sources forced a)
      (directives : l.directivesOn t a = .ok ds) (mem : d ∈ ds)
      (candidate : q ∈ l.dirs.candidates a.path.parent? d.form d.target) : LooksAt l t mainSource sources forced q

theorem LooksAt.normal {t : FileTree} {q : Path} (looked : l.LooksAt t mainSource sources forced q) :
    q.normalize = q := by
  cases looked with
  | forced _ candidate => exact normalize_of_mem_candidates candidate
  | directive _ _ _ candidate => exact normalize_of_mem_candidates candidate

/-- **What the directives of a new file add:** what is reached from one of them, seen from where a generated file lies
that is written at `p`. -/
def AddedBy (l : Lookup) (after : FileTree) (mainSource : Artifact) (file : File) (p : Path) (a : Artifact) : Prop :=
  ∃ g d b, (g, p) ∈ l.generated.entries ∧ d ∈ Directive.extract file.bytes ∧ l.target? after g d = some b ∧
    l.Reach after mainSource [b] [] a

theorem findSome?_congr {β : Type} {f g : Path → Option β} : ∀ {ps : List Path}, (∀ p ∈ ps, f p = g p) →
    ps.findSome? f = ps.findSome? g
  | [], _ => rfl
  | p :: ps, same => by
    rw [List.findSome?_cons, List.findSome?_cons, same p List.mem_cons_self,
      findSome?_congr fun q mem => same q (List.mem_cons_of_mem _ mem)]

section

variable (gains : before.Gains after place file) (linkFree : before.LinkFree)
include gains linkFree

/-- A path in normal form names a file as before, or it leads to the new one. -/
theorem isFile_cases {q : Path} (normal : q.normalize = q) :
    after.isFile q = before.isFile q ∨ after.find q = .ok (place, .file file) := by
  cases was : before.isFile q with
  | true => exact .inl (gains.grows.keeps.isFile q was)
  | false =>
    cases is : after.isFile q with
    | false => exact .inl rfl
    | true =>
      obtain ⟨position, f, found⟩ := FileTree.isFile_iff_find.1 is
      refine .inr ((gains.find_cases linkFree normal found).resolve_left fun stood => ?_)
      have isFile : before.isFile q = true := FileTree.isFile_iff_find.2 ⟨position, f, stood⟩
      rw [was] at isFile
      cases isFile

/-- **A candidate counts as before,** if a generated file lies there or it does not lead to the new file. -/
theorem existingOn_eq {q : Path} (normal : q.normalize = q)
    (covered : after.find q = .ok (place, .file file) → ∃ g, l.generated.Lies g q) :
    l.existingOn? after q = l.existingOn? before q := by
  unfold existingOn?
  cases lies : l.generated.lyingAt? q with
  | some g => rfl
  | none =>
    rcases isFile_cases gains linkFree normal with same | leads
    · simp only [same]
    · obtain ⟨g, there⟩ := covered leads
      exact absurd there (GeneratedFiles.lyingAt?_eq_none_iff.1 lies g)

theorem meaning_eq {beside : Option Path} {form : IncludeForm} {name : String}
    (covered : ∀ q ∈ l.dirs.candidates beside form name, after.find q = .ok (place, .file file) →
      ∃ g, l.generated.Lies g q) : l.meaning? after beside form name = l.meaning? before beside form name :=
  findSome?_congr fun q mem =>
    existingOn_eq gains linkFree (normalize_of_mem_candidates mem) (covered q mem)

/-- **What could be read** is read as before, unless it is a generated file that was not written and now is; then it has
the directives of the new file, if that can be read. -/
theorem directivesOn_cases (placed : l.generated.Placed) {a : Artifact} {ds : List Directive}
    (was : l.directivesOn before a = .ok ds) :
    l.directivesOn after a = .ok ds ∨ ds = [] ∧ ∃ w, (a, w) ∈ l.generated.entries ∧
      after.find w = .ok (place, .file file) ∧
      ∀ new, l.directivesOn after a = .ok new → new = Directive.extract file.bytes := by
  have keeps {q : Path} {ds : List Directive} (held : before.directives q = .ok ds) : after.directives q = .ok ds := by
    obtain ⟨bytes, read, rfl⟩ := FileTree.directives_ok_iff.1 held
    obtain ⟨position, f, found, same⟩ := FileTree.read_ok_iff.1 read
    exact FileTree.directives_ok_iff.2 ⟨bytes, FileTree.read_ok_iff.2 ⟨position, f, gains.grows.find found, same⟩, rfl⟩
  unfold directivesOn at was ⊢
  cases written : l.generated.written? a with
  | none =>
    rw [written] at was
    exact .inl (keeps was)
  | some w =>
    rw [written] at was
    dsimp only at was ⊢
    have mem : (a, w) ∈ l.generated.entries := GeneratedFiles.mem_of_written? written
    by_cases stood : before.isFile w = true
    · rw [if_pos stood] at was
      rw [if_pos (gains.grows.keeps.isFile w stood)]
      exact .inl (keeps was)
    · rw [if_neg stood] at was
      cases was
      rcases isFile_cases gains linkFree (placed _ mem) with same | leads
      · rw [same, if_neg stood]
        exact .inl rfl
      · refine .inr ⟨rfl, w, mem, leads, fun new given => ?_⟩
        rw [if_pos (FileTree.isFile_iff_find.2 ⟨place, file, leads⟩)] at given
        obtain ⟨bytes, read, rfl⟩ := FileTree.directives_ok_iff.1 given
        obtain ⟨position, f, found, held⟩ := FileTree.read_ok_iff.1 read
        rw [leads] at found
        cases found
        rw [(File.read_ok_iff.1 held).2]

end

section

variable (gains : before.Gains after place file) (linkFree : before.LinkFree)
  (placed : l.generated.Placed)
  (covered : ∀ q, l.LooksAt before mainSource sources forced q → after.find q = .ok (place, .file file) →
    ∃ g, l.generated.Lies g q)
include gains linkFree placed covered

/-- **What was reached** is reached when the tree has gained the file. -/
theorem Reach.ofGains {a : Artifact} (reach : l.Reach before mainSource sources forced a) :
    l.Reach after mainSource sources forced a := by
  induction reach with
  | source entry => exact .source entry
  | forced given meaning =>
    refine .forced given ?_
    rw [meaning_eq gains linkFree fun q mem => covered q (.forced given mem)]
    exact meaning
  | directive reached directives mem target ih =>
    rcases directivesOn_cases gains linkFree placed directives with same | ⟨rfl, -⟩
    · refine .directive ih same mem ?_
      unfold target? at target ⊢
      rw [meaning_eq gains linkFree fun q here => covered q (.directive reached directives mem here)]
      exact target
    · cases mem

/-- **What is reached** was reached, or the new file adds it. -/
theorem reach_or_added (written : ∀ g w, (g, w) ∈ l.generated.entries → after.find w = .ok (place, .file file) → w = p)
    (readable : ∀ a, l.Reach before mainSource sources forced a → ∃ ds, l.directivesOn before a = .ok ds)
    {a : Artifact} (reach : l.Reach after mainSource sources forced a) :
    l.Reach before mainSource sources forced a ∨ l.AddedBy after mainSource file p a := by
  induction reach with
  | source entry => exact .inl (.source entry)
  | forced given meaning =>
    rw [meaning_eq gains linkFree fun q mem => covered q (.forced given mem)] at meaning
    exact .inl (.forced given meaning)
  | @directive a b ds d reached directives mem target ih =>
    rcases ih with reached | ⟨g, e, c, entry, given, first, further⟩
    · obtain ⟨held, was⟩ := readable a reached
      rcases directivesOn_cases gains linkFree placed was with same | ⟨-, w, entry, leads, new⟩
      · rw [directives] at same
        cases same
        unfold target? at target
        rw [meaning_eq gains linkFree fun q here => covered q (.directive reached was mem here)] at target
        exact .inl (.directive reached was mem target)
      · cases new ds directives
        rw [written a w entry leads] at entry
        exact .inr ⟨a, d, b, entry, mem, target, .source List.mem_cons_self⟩
    · exact .inr ⟨g, e, c, entry, given, first, .directive further directives mem target⟩

end

/-! ## Closures that end well -/

section

variable {t : FileTree} {s : ScanStore} (fresh : s.cache.memo = .empty) (running : l.context.interrupted = false)
  (placed : l.generated.Placed)
include fresh running placed

theorem exists_closes : ∃ recorded,
    l.Closes t mainSource sources forced [] recorded (Scan.runOn t (l.closure mainSource sources forced) s).1 ∧
    ∀ a, a ∈ (Scan.runOn t (l.closure mainSource sources forced) s).2.found ↔ a ∈ s.found ∨ a ∈ recorded := by
  have traced : s.cache.memo.Traced [t] := by
    rw [fresh]
    exact FileMemo.traced_empty [t]
  obtain ⟨recorded, closes, -, found⟩ := Scan.runOn_ensures (.self t) (ensures_closure running placed) traced
  exact ⟨recorded, closes, found⟩

theorem mem_found_iff (ended : (Scan.runOn t (l.closure mainSource sources forced) s).1 = .ok ()) (a : Artifact) :
    a ∈ (Scan.runOn t (l.closure mainSource sources forced) s).2.found ↔
      a ∈ s.found ∨ l.Reach t mainSource sources forced a := by
  obtain ⟨recorded, closes, found⟩ := exists_closes fresh running placed
  rw [found]
  refine or_congr_right ⟨closes.reached a, fun reach => ?_⟩
  exact (closes.complete ended a reach).1.resolve_left List.not_mem_nil

theorem readable_of_ended (ended : (Scan.runOn t (l.closure mainSource sources forced) s).1 = .ok ()) {a : Artifact}
    (reach : l.Reach t mainSource sources forced a) : ∃ ds, l.directivesOn t a = .ok ds := by
  obtain ⟨recorded, closes, -⟩ := exists_closes fresh running placed
  exact (closes.complete ended a reach).2

theorem ended_of_readable (readable : ∀ a, l.Reach t mainSource sources forced a → ∃ ds, l.directivesOn t a = .ok ds) :
    (Scan.runOn t (l.closure mainSource sources forced) s).1 = .ok () := by
  obtain ⟨recorded, closes, -⟩ := exists_closes fresh running placed
  cases outcome : (Scan.runOn t (l.closure mainSource sources forced) s).1 with
  | ok => rfl
  | error e =>
    obtain ⟨a, cause, reach, unread, -⟩ := closes.failed e outcome
    obtain ⟨ds, read⟩ := readable a reach
    rw [unread] at read
    cases read

end

/-! ## Scans that stay in a list -/

/-- **A scan stays in a list of artifacts,** all of which can be read, and looks at such candidates only. -/
structure Confined (l : Lookup) (t : FileTree) (mainSource : Artifact) (sources : List Artifact) (forced : List String)
    (list : List Artifact) (looks : Path → Prop) : Prop where
  sources : ∀ a ∈ sources, a ∈ list
  forced : ∀ name ∈ forced, (∀ a ∈ l.meaning? t mainSource.path.parent? .quote name, a ∈ list) ∧
    ∀ q ∈ l.dirs.candidates mainSource.path.parent? .quote name, looks q
  read : ∀ a ∈ list, ∃ ds, l.directivesOn t a = .ok ds ∧ ∀ d ∈ ds, (∀ b ∈ l.target? t a d, b ∈ list) ∧
    ∀ q ∈ l.dirs.candidates a.path.parent? d.form d.target, looks q

section

variable {t : FileTree} {list : List Artifact} {looks : Path → Prop} {s : ScanStore}
  (h : l.Confined t mainSource sources forced list looks)
include h

theorem Confined.mem {a : Artifact} (reach : l.Reach t mainSource sources forced a) : a ∈ list := by
  induction reach with
  | source entry => exact h.sources _ entry
  | forced given meaning => exact (h.forced _ given).1 _ meaning
  | @directive a b ds d _ directives mem target ih =>
    obtain ⟨_, read, leads⟩ := h.read a ih
    rw [directives] at read
    cases read
    exact (leads d mem).1 b target

theorem Confined.looksAt {q : Path} (looked : l.LooksAt t mainSource sources forced q) : looks q := by
  cases looked with
  | forced given candidate => exact (h.forced _ given).2 q candidate
  | @directive a ds d reached directives mem candidate =>
    obtain ⟨_, read, leads⟩ := h.read a (h.mem reached)
    rw [directives] at read
    cases read
    exact (leads d mem).2 q candidate

/-- Such a scan ends well. -/
theorem Confined.ended (fresh : s.cache.memo = .empty) (running : l.context.interrupted = false)
    (placed : l.generated.Placed) : (Scan.runOn t (l.closure mainSource sources forced) s).1 = .ok () :=
  ended_of_readable fresh running placed fun a reach => (h.read a (h.mem reach)).imp fun _ => And.left

end

/-! ## A generated file that gets written -/

/-- **A generated file that gets written only adds inputs.**  A tree without links gains a file at `p`, where no lookup
looks unless a generated file lies there.  A candidate that leads to the new file begins like `p` if no generated file
lies at it, and so do the places where generated files are written; all do when every path is absolute.  If the scan
ends well on both trees, then all that it found before is found, and the rest is added by the directives of the new
file. -/
theorem found_of_gains (before after : FileTree) (place : Position) (file : File) (p : Path) (l : Lookup)
    (mainSource : Artifact) (sources : List Artifact) (forced : List String) (s s' : ScanStore)
    (gains : before.Gains after place file) (linkFree : before.LinkFree)
    (normal : p.normalize = p) (leads : after.find p = .ok (place, .file file))
    (placed : l.generated.Placed) (running : l.context.interrupted = false)
    (covered : ∀ q, l.LooksAt before mainSource sources forced q → q.components = p.components →
      ∃ g, l.generated.Lies g q)
    (begins : ∀ q, l.LooksAt before mainSource sources forced q → after.find q = .ok (place, .file file) →
      q.BeginsLike p ∨ ∃ g, l.generated.Lies g q)
    (begins' : ∀ g q, (g, q) ∈ l.generated.entries → after.find q = .ok (place, .file file) → q.BeginsLike p)
    (fresh : s.cache.memo = .empty) (fresh' : s'.cache.memo = .empty) (found : s.found = s'.found)
    (ended : (Scan.runOn before (l.closure mainSource sources forced) s).1 = .ok ())
    (ended' : (Scan.runOn after (l.closure mainSource sources forced) s').1 = .ok ()) :
    (∀ a ∈ (Scan.runOn before (l.closure mainSource sources forced) s).2.found,
      a ∈ (Scan.runOn after (l.closure mainSource sources forced) s').2.found) ∧
    ∀ a ∈ (Scan.runOn after (l.closure mainSource sources forced) s').2.found,
      a ∈ (Scan.runOn before (l.closure mainSource sources forced) s).2.found ∨
        l.AddedBy after mainSource file p a := by
  have linkFree' := gains.linkFree linkFree
  have covered' : ∀ q, l.LooksAt before mainSource sources forced q → after.find q = .ok (place, .file file) →
      ∃ g, l.generated.Lies g q := by
    intro q looked there
    rcases begins q looked there with alike | lies
    · have same := FileTree.eq_of_find linkFree' looked.normal normal alike there leads
      exact covered q looked (by rw [same])
    · exact lies
  have written : ∀ g w, (g, w) ∈ l.generated.entries → after.find w = .ok (place, .file file) → w = p :=
    fun g w entry there =>
      FileTree.eq_of_find linkFree' (placed (g, w) entry) normal (begins' g w entry there) there leads
  have readable (a : Artifact) : l.Reach before mainSource sources forced a → ∃ ds, l.directivesOn before a = .ok ds :=
    readable_of_ended fresh running placed ended
  constructor
  · intro a mem
    rw [mem_found_iff fresh running placed ended, found] at mem
    rw [mem_found_iff fresh' running placed ended']
    exact mem.imp_right (Reach.ofGains gains linkFree placed covered')
  · intro a mem
    rw [mem_found_iff fresh' running placed ended', ← found] at mem
    rw [mem_found_iff fresh running placed ended]
    rcases mem with mem | reach
    · exact .inl (.inl mem)
    · exact (reach_or_added gains linkFree placed covered' written readable reach).imp_left .inr

end Lookup

namespace Sample

/-- The generated header, when it is written: it includes what the source includes. -/
def header : File :=
  { bytes := Text.utf8Bytes "#include \"../b.h\"\n", modified := 1 }

def writtenTree : FileTree :=
  (tree.put ["tmp"] .directory).put ["tmp", "g.h"] (.file header)

theorem gains_writtenTree : tree.Gains writtenTree ["tmp", "g.h"] header :=
  .ofMade (FileTree.gains_put header (by decide) (by decide)) (by decide) (by decide)

theorem linkFree_tree : tree.LinkFree :=
  FileTree.linkFree_of_nodes (by simp [treeWith])

/-- A candidate that is absolute and is not where the header is written. -/
def Aside (q : Path) : Prop :=
  q.isAbsolute = true ∧ q.components ≠ (⟨"/tmp/g.h"⟩ : Path).components

theorem confined_tree : lookup.Confined tree aCc [] ["g.h"] [gH] Aside where
  sources := nofun
  forced := by
    unfold Aside
    decide
  read := by
    simp only [List.forall_mem_singleton]
    exact ⟨[], rfl, nofun⟩

theorem confined_writtenTree : lookup.Confined writtenTree aCc [] ["g.h"] [gH, bH, aCc] Aside where
  sources := nofun
  forced := by
    unfold Aside
    decide
  read := by
    unfold Aside
    simp only [List.forall_mem_cons]
    refine ⟨⟨_, rfl, ?_⟩, ⟨_, rfl, ?_⟩, ⟨_, rfl, ?_⟩, List.forall_mem_nil _⟩
    · decide
    · decide
    · decide

end Sample

theorem Lookup.found_of_gains_written :
    Sample.tree.Gains Sample.writtenTree ["tmp", "g.h"] Sample.header ∧ Sample.tree.LinkFree ∧
    Sample.writtenTree.find ⟨"/tmp/g.h"⟩ = .ok (["tmp", "g.h"], .file Sample.header) ∧
    (∀ q, Sample.lookup.LooksAt Sample.tree Sample.aCc [] ["g.h"] q → Sample.Aside q) ∧
    (Scan.runOn Sample.tree (Sample.lookup.closure Sample.aCc [] ["g.h"]) .empty).1 = .ok () ∧
    (Scan.runOn Sample.writtenTree (Sample.lookup.closure Sample.aCc [] ["g.h"]) .empty).1 = .ok () ∧
    (∀ a ∈ (Scan.runOn Sample.tree (Sample.lookup.closure Sample.aCc [] ["g.h"]) .empty).2.found,
      a ∈ (Scan.runOn Sample.writtenTree (Sample.lookup.closure Sample.aCc [] ["g.h"]) .empty).2.found) ∧
    Sample.aCc ∈ (Scan.runOn Sample.writtenTree (Sample.lookup.closure Sample.aCc [] ["g.h"]) .empty).2.found ∧
    Sample.lookup.AddedBy Sample.writtenTree Sample.aCc Sample.header ⟨"/tmp/g.h"⟩ Sample.aCc := by
  have looks : ∀ q, Sample.lookup.LooksAt Sample.tree Sample.aCc [] ["g.h"] q → Sample.Aside q :=
    fun q => Sample.confined_tree.looksAt
  have fresh : ScanStore.empty.cache.memo = .empty := rfl
  have leads : Sample.writtenTree.find ⟨"/tmp/g.h"⟩ = .ok (["tmp", "g.h"], .file Sample.header) := rfl
  have ended := Sample.confined_tree.ended fresh rfl Sample.placed_lookup
  have ended' := Sample.confined_writtenTree.ended fresh rfl Sample.placed_lookup
  obtain ⟨kept, added⟩ := found_of_gains Sample.tree Sample.writtenTree ["tmp", "g.h"] Sample.header ⟨"/tmp/g.h"⟩
    Sample.lookup Sample.aCc [] ["g.h"] .empty .empty Sample.gains_writtenTree Sample.linkFree_tree
    (by decide) leads Sample.placed_lookup rfl
    (fun q looked same => absurd same (looks q looked).2)
    (fun q looked _ => .inl (.ofAbsolute looked.normal (by decide) (looks q looked).1 (by decide)))
    (fun g q entry _ => by
      obtain ⟨rfl, rfl⟩ : g = Sample.gH ∧ q = ⟨"/tmp/g.h"⟩ :=
        Prod.mk.inj (List.mem_singleton.1 (show (g, q) ∈ [(Sample.gH, ⟨"/tmp/g.h"⟩)] from entry))
      exact ⟨rfl, rfl⟩)
    rfl rfl rfl ended ended'
  have ofG : Sample.lookup.directivesOn Sample.writtenTree Sample.gH =
      .ok [{ form := .quote, target := "../b.h" }] := rfl
  have ofB : Sample.lookup.directivesOn Sample.writtenTree Sample.bH =
      .ok [{ form := .quote, target := "a.cc" }] := rfl
  have reachG : Sample.lookup.Reach Sample.writtenTree Sample.aCc [] ["g.h"] Sample.gH :=
    .forced List.mem_cons_self rfl
  have reachB : Sample.lookup.Reach Sample.writtenTree Sample.aCc [] ["g.h"] Sample.bH :=
    .directive reachG ofG List.mem_cons_self rfl
  have reachA : Sample.lookup.Reach Sample.writtenTree Sample.aCc [] ["g.h"] Sample.aCc :=
    .directive reachB ofB List.mem_cons_self rfl
  have here := (mem_found_iff fresh rfl Sample.placed_lookup ended' Sample.aCc).2 (.inr reachA)
  refine ⟨Sample.gains_writtenTree, Sample.linkFree_tree, leads, looks, ended, ended', kept, here,
    (added _ here).resolve_left fun there => ?_⟩
  rcases (mem_found_iff fresh rfl Sample.placed_lookup ended Sample.aCc).1 there with none | reach
  · exact ArtifactSet.notMem_empty _ none
  · exact absurd (Sample.confined_tree.mem reach) (by decide)

/-! ## A path and another one to the same file -/

namespace Sample

def xH : Artifact := .under (.mount ⟨"/w"⟩ .source) ⟨"q2/x.h"⟩

/-- The second directory has the header that the source includes. -/
def twoDirs : FileTree where
  nodes :=
    [(["w"], .directory),
     (["w", "a.cc"], .file { bytes := Text.utf8Bytes "#include \"x.h\"\n", modified := 0 }),
     (["w", "q1"], .directory),
     (["w", "q2"], .directory),
     (["w", "q2", "x.h"], .file { bytes := [], modified := 0 })]
  workingDirectory := ["w"]

/-- The first directory is relative, and the generated file is written there by an absolute path. -/
def twoDirsLookup : Lookup where
  dirs := { quote := [⟨"q1"⟩, ⟨"/w/q2"⟩], angle := [] }
  generated := GeneratedFiles.none.declare gH ⟨"/w/q1/x.h"⟩
  context := .withRoots ⟨"/w"⟩ (.ofList [aCc.root, gH.root])

def shadowingTree : FileTree :=
  twoDirs.put ["w", "q1", "x.h"] (.file { bytes := [], modified := 1 })

/-- A candidate that is not where the generated file is written. -/
def Elsewhere (q : Path) : Prop :=
  q.components ≠ (⟨"/w/q1/x.h"⟩ : Path).components

theorem confined_twoDirs : twoDirsLookup.Confined twoDirs aCc [aCc] [] [aCc, xH] Elsewhere where
  sources := by decide
  forced := nofun
  read := by
    unfold Elsewhere
    simp only [List.forall_mem_cons]
    refine ⟨⟨_, rfl, ?_⟩, ⟨_, rfl, ?_⟩, List.forall_mem_nil _⟩
    · decide
    · decide

theorem confined_shadowingTree : twoDirsLookup.Confined shadowingTree aCc [aCc] []
    [aCc, .absolute ⟨"q1/x.h"⟩] Elsewhere where
  sources := by decide
  forced := nofun
  read := by
    unfold Elsewhere
    simp only [List.forall_mem_cons]
    refine ⟨⟨_, rfl, ?_⟩, ⟨_, rfl, ?_⟩, List.forall_mem_nil _⟩
    · decide
    · decide

theorem placed_twoDirsLookup : twoDirsLookup.generated.Placed := by
  intro entry mem
  rw [List.mem_singleton.1 (show entry ∈ [(gH, ⟨"/w/q1/x.h"⟩)] from mem)]
  decide

theorem gains_shadowingTree : twoDirs.Gains shadowingTree ["w", "q1", "x.h"] { bytes := [], modified := 1 } :=
  FileTree.gains_put _ (by decide) (by decide)

end Sample

/-- The new file is found by the relative directory, before the header that was found without it. -/
theorem Lookup.found_lost_of_gains :
    Sample.twoDirs.Gains Sample.shadowingTree ["w", "q1", "x.h"] { bytes := [], modified := 1 } ∧
    Sample.twoDirs.LinkFree ∧ Sample.twoDirs.isFile ⟨"/w/q1/x.h"⟩ = false ∧
    Sample.shadowingTree.find ⟨"/w/q1/x.h"⟩ = .ok (["w", "q1", "x.h"], .file { bytes := [], modified := 1 }) ∧
    (Sample.gH, ⟨"/w/q1/x.h"⟩) ∈ Sample.twoDirsLookup.generated.entries ∧
    Sample.twoDirsLookup.generated.Placed ∧ Sample.twoDirsLookup.generated.Apart ∧
    Sample.twoDirsLookup.context.interrupted = false ∧
    (∀ q, Sample.twoDirsLookup.LooksAt Sample.twoDirs Sample.aCc [Sample.aCc] [] q ∨
      Sample.twoDirsLookup.LooksAt Sample.shadowingTree Sample.aCc [Sample.aCc] [] q →
      q.components ≠ (⟨"/w/q1/x.h"⟩ : Path).components) ∧
    (Scan.runOn Sample.twoDirs (Sample.twoDirsLookup.closure Sample.aCc [Sample.aCc] []) .empty).1 = .ok () ∧
    (Scan.runOn Sample.shadowingTree (Sample.twoDirsLookup.closure Sample.aCc [Sample.aCc] []) .empty).1 = .ok () ∧
    Sample.xH ∈
      (Scan.runOn Sample.twoDirs (Sample.twoDirsLookup.closure Sample.aCc [Sample.aCc] []) .empty).2.found ∧
    Sample.xH ∉
      (Scan.runOn Sample.shadowingTree (Sample.twoDirsLookup.closure Sample.aCc [Sample.aCc] []) .empty).2.found := by
  have fresh : ScanStore.empty.cache.memo = .empty := rfl
  have ended := Sample.confined_twoDirs.ended fresh rfl Sample.placed_twoDirsLookup
  have ended' := Sample.confined_shadowingTree.ended fresh rfl Sample.placed_twoDirsLookup
  have apart : Sample.twoDirsLookup.generated.Apart := by
    unfold GeneratedFiles.Apart
    decide
  have ofA : Sample.twoDirsLookup.directivesOn Sample.twoDirs Sample.aCc =
      .ok [{ form := .quote, target := "x.h" }] := rfl
  have reachX : Sample.twoDirsLookup.Reach Sample.twoDirs Sample.aCc [Sample.aCc] [] Sample.xH :=
    .directive (.source List.mem_cons_self) ofA List.mem_cons_self rfl
  have was := (mem_found_iff fresh rfl Sample.placed_twoDirsLookup ended Sample.xH).2 (.inr reachX)
  refine ⟨Sample.gains_shadowingTree, FileTree.linkFree_of_nodes ?_, rfl, rfl,
    List.mem_cons_self, Sample.placed_twoDirsLookup, apart, rfl, ?_, ended, ended', was, ?_⟩
  · simp [Sample.twoDirs]
  · rintro q (looked | looked)
    · exact Sample.confined_twoDirs.looksAt looked
    · exact Sample.confined_shadowingTree.looksAt looked
  · intro mem
    rcases (mem_found_iff fresh rfl Sample.placed_twoDirsLookup ended' Sample.xH).1 mem with none | reach
    · exact ArtifactSet.notMem_empty _ none
    · exact absurd (Sample.confined_shadowingTree.mem reach) (by decide)

end IncludeClosure
