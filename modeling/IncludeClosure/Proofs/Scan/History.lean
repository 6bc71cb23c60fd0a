import Mathlib.Data.List.DropRight
import Mathlib.Data.List.Dedup
import IncludeClosure.Proofs.FileTree.Ending
import IncludeClosure.Proofs.FileTree.Plain
import IncludeClosure.Proofs.Scan.Reads
import IncludeClosure.Proofs.Scan.Session
/-!
# Proofs.Scan.History — a file memo after any history

The history of a file memo are the calls that were made to it, each with the tree that it met; between two calls files
may have been created, rewritten, deleted or replaced in any way.  What a history leaves in the memo (`Recalls`) is kept
by one more call (`Recalls.serve`): every entry was true on some earlier tree, and there is an entry for each path that
was read, and a mark for each that was seen to be a regular file, since the memo was emptied last.

Entries are found by the components of a path, and the file system tells some spellings with the same components apart.
An entry for directives is safe all the same: the file is looked at in the spelling that was asked for, and then all
spellings that some file ever had lead to that very file (`FileTree.find_congr`).  So while stamps tell contents apart
every answer is that of a fresh read (`directives_after`).  A mark is trusted without a look, and so a path that ends in
a slash is taken for a file that has the same components (`isFile_after`, `isFile_after_slash`).
-/
namespace IncludeClosure

/-- A call to a file memo. -/
inductive MemoCall where
  | isFile (path : Path)
  | directives (path : Path)
  | clear
deriving DecidableEq

namespace FileMemo

/-- **A question asked through a memo** on a tree: the answer, and the memo afterwards. -/
def ask {α : Type} (m : FileMemo) (t : FileTree) (question : Scan α) : α × FileMemo :=
  let asked := Scan.runOn t question (.ofCache { memo := m, scanners := .empty })
  (asked.1, asked.2.cache.memo)

/-- The calls to a memo, the last one at the end, each with the tree that it met. -/
abbrev History := List (FileTree × MemoCall)

/-- **The memo after one call.** -/
def serve (m : FileMemo) : FileTree × MemoCall → FileMemo
  | (t, .isFile p) => (m.ask t (Scan.isFile p)).2
  | (t, .directives p) => (m.ask t (Scan.directives p)).2
  | (_, .clear) => .empty

def after (history : History) : FileMemo :=
  history.foldl serve .empty

/-- The calls since the memo was emptied last. -/
def recent (history : History) : History :=
  history.rtakeWhile (fun call => call.2 != .clear)

/-- The path that the call asks about, if that was a regular file. -/
def sighting? : FileTree × MemoCall → Option Path
  | (t, .isFile p) => if t.isFile p then some p else none
  | _ => none

/-- The path whose directives the call asks for, if they could be read. -/
def reading? : FileTree × MemoCall → Option Path
  | (t, .directives p) => if (t.directives p).isOk then some p else none
  | _ => none

/-- **The paths seen to be regular files** since the memo was emptied last. -/
def sighted (history : History) : List Path :=
  (recent history).filterMap sighting?

/-- **The paths read** since the memo was emptied last. -/
def readPaths (history : History) : List Path :=
  (recent history).filterMap reading?

variable {history : History} {m : FileMemo} {t : FileTree} {p q : Path}

theorem after_concat (history : History) (call : FileTree × MemoCall) :
    after (history ++ [call]) = (after history).serve call := by
  unfold after
  rw [List.foldl_append]
  rfl

theorem recent_clear (history : History) (t : FileTree) : recent (history ++ [(t, .clear)]) = [] :=
  List.rtakeWhile_concat_neg _ _ _ (by simp)

theorem recent_concat {call : FileTree × MemoCall} (other : call.2 ≠ .clear) :
    recent (history ++ [call]) = recent history ++ [call] :=
  List.rtakeWhile_concat_pos _ _ _ (by simpa using other)

theorem mem_of_recent {call : FileTree × MemoCall} (h : call ∈ recent history) : call ∈ history :=
  (List.rtakeWhile_suffix _ _).subset h

/-! ## One call -/

theorem ask_isFile (m : FileMemo) (t : FileTree) (p : Path) : m.ask t (Scan.isFile p) =
    if m.knowsFile p then (true, m) else if t.isFile p then (true, m.rememberFile p) else (false, m) := by
  have memo : (ScanStore.ofCache { memo := m, scanners := .empty }).cache.memo = m := rfl
  unfold ask
  rw [Scan.runOn_isFile, memo]
  cases m.knowsFile p with
  | true => rfl
  | false => cases t.isFile p <;> rfl

/-- **What asking for directives can do.**  The question fails as a fresh read does, and changes nothing; or there is a
regular file, and the entry under its stamp answers, or the file is read and entered. -/
theorem ask_directives_cases (m : FileMemo) (t : FileTree) (p : Path) :
    ((t.directives p).isOk = false ∧ m.ask t (Scan.directives p) = (t.directives p, m)) ∨
    ∃ stamp ds, t.status p = .ok (.file stamp) ∧
      (m.lexed? p = some (stamp, ds) ∧ m.ask t (Scan.directives p) = (.ok ds, m) ∨
        t.directives p = .ok ds ∧ m.ask t (Scan.directives p) = (.ok ds, m.rememberLexed p stamp ds)) := by
  have status (s : ScanStore) : Scan.runOn t (Scan.disk (.status p)) s = (t.status p, s) := rfl
  have recalled (s : ScanStore) : Scan.runOn t (Scan.step (.recallLexed p)) s = (s.cache.memo.lexed? p, s) := rfl
  have memo : (ScanStore.ofCache { memo := m, scanners := .empty }).cache.memo = m := rfl
  unfold ask Scan.directives
  rw [Scan.runOn_bind, status]
  have nothing (other : t.isFile p = false) : (t.directives p).isOk = false := by
    cases read : t.directives p with
    | error e => rfl
    | ok ds =>
      rw [FileTree.isFile_of_directives read] at other
      cases other
  cases found : t.status p with
  | error e =>
    refine .inl ⟨nothing (by unfold FileTree.isFile; rw [found]), ?_⟩
    unfold FileTree.directives
    rw [FileTree.read_of_status_error found]
    rfl
  | ok named =>
    cases named with
    | directory =>
      refine .inl ⟨nothing (by unfold FileTree.isFile; rw [found]), ?_⟩
      dsimp only
      rw [Scan.runOn_readDirectives]
      cases t.directives p <;> rfl
    | file stamp =>
      dsimp only
      rw [Scan.runOn_bind, recalled, memo]
      cases entry : m.lexed? p with
      | none =>
        dsimp only
        rw [Scan.runOn_readDirectives]
        cases read : t.directives p with
        | error e => exact .inl ⟨rfl, rfl⟩
        | ok ds => exact .inr ⟨stamp, ds, rfl, .inr ⟨rfl, rfl⟩⟩
      | some kept =>
        obtain ⟨seen, remembered⟩ := kept
        dsimp only
        split
        case isTrue same =>
          subst same
          exact .inr ⟨seen, remembered, rfl, .inl ⟨rfl, rfl⟩⟩
        case isFalse =>
          rw [Scan.runOn_readDirectives]
          cases read : t.directives p with
          | error e => exact .inl ⟨rfl, rfl⟩
          | ok ds => exact .inr ⟨stamp, ds, rfl, .inr ⟨rfl, rfl⟩⟩

/-! ## What a history leaves -/

/-- **What a history leaves in a memo:** a mark for each path that was seen to be a regular file, in some spelling; and
for each path that was read one entry, which was true on a tree that some call met. -/
structure Recalls (history : History) (m : FileMemo) : Prop where
  files : ∀ p, m.knowsFile p = true ↔ ∃ q ∈ sighted history, q.components = p.components
  lexed : ∀ q stamp ds, (q, stamp, ds) ∈ m.lexed → ∃ before ∈ history.map Prod.fst,
    before.status q = .ok (.file stamp) ∧ before.directives q = .ok ds
  once : (m.lexed.map (·.1.components)).Nodup
  read : ∀ cs, cs ∈ m.lexed.map (·.1.components) ↔ cs ∈ (readPaths history).map Path.components

theorem recalls_empty : Recalls [] .empty where
  files _ := ⟨nofun, fun ⟨_, h, _⟩ => nomatch h⟩
  lexed _ _ _ h := absurd h List.not_mem_nil
  once := List.nodup_nil
  read _ := Iff.rfl

theorem filterMap_recent {β : Type} (f : FileTree × MemoCall → Option β) {call : FileTree × MemoCall}
    (other : call.2 ≠ .clear) :
    (recent (history ++ [call])).filterMap f = (recent history).filterMap f ++ (f call).toList := by
  rw [recent_concat other, List.filterMap_append, List.filterMap_cons]
  cases f call <;> rfl

theorem sighted_isFile : sighted (history ++ [(t, .isFile p)]) = sighted history ++ if t.isFile p then [p] else [] := by
  unfold sighted
  rw [filterMap_recent _ (by simp), sighting?]
  cases t.isFile p <;> rfl

theorem sighted_directives : sighted (history ++ [(t, .directives p)]) = sighted history :=
  (filterMap_recent _ (by simp)).trans (List.append_nil _)

theorem readPaths_isFile : readPaths (history ++ [(t, .isFile p)]) = readPaths history :=
  (filterMap_recent _ (by simp)).trans (List.append_nil _)

theorem readPaths_directives :
    readPaths (history ++ [(t, .directives p)]) = readPaths history ++ if (t.directives p).isOk then [p] else [] := by
  unfold readPaths
  rw [filterMap_recent _ (by simp), reading?]
  cases (t.directives p).isOk <;> rfl

/-- An entry takes the place of the one for the same path, in whatever spelling that was made. -/
theorem components_rememberLexed (m : FileMemo) (p : Path) (stamp : Stamp) (ds : List Directive) :
    (m.rememberLexed p stamp ds).lexed.map (·.1.components) =
      p.components :: (m.lexed.map (·.1.components)).filter (· != p.components) := by
  unfold rememberLexed
  rw [List.filter_map]
  rfl

theorem exists_of_lexed? {stamp : Stamp} {ds : List Directive} (entry : m.lexed? p = some (stamp, ds)) :
    ∃ q, q.components = p.components ∧ (q, stamp, ds) ∈ m.lexed := by
  obtain ⟨⟨q, kept⟩, found, e⟩ := Option.map_eq_some_iff.1 entry
  cases e
  have same := List.find?_some found
  exact ⟨q, (Path.same_iff q p).1 same, List.mem_of_find?_eq_some found⟩

namespace Recalls

theorem ofClear (history : History) (t : FileTree) : Recalls (history ++ [(t, .clear)]) .empty where
  files _ := by
    unfold sighted
    rw [recent_clear]
    exact ⟨nofun, fun ⟨_, h, _⟩ => nomatch h⟩
  lexed _ _ _ h := absurd h List.not_mem_nil
  once := List.nodup_nil
  read _ := by
    unfold readPaths
    rw [recent_clear]
    exact Iff.rfl

/-- More calls leave what is true of the entries so far. -/
theorem lexed_concat (h : Recalls history m) (call : FileTree × MemoCall) (q : Path) (stamp : Stamp)
    (ds : List Directive) (mem : (q, stamp, ds) ∈ m.lexed) : ∃ before ∈ (history ++ [call]).map Prod.fst,
    before.status q = .ok (.file stamp) ∧ before.directives q = .ok ds := by
  obtain ⟨before, past, was⟩ := h.lexed q stamp ds mem
  rw [List.map_append]
  exact ⟨before, List.mem_append_left _ past, was⟩

theorem isFile (h : Recalls history m) (t : FileTree) (p : Path) :
    Recalls (history ++ [(t, .isFile p)]) (m.serve (t, .isFile p)) := by
  have served : m.serve (t, .isFile p) = if t.isFile p then m.rememberFile p else m := by
    show (m.ask t (Scan.isFile p)).2 = _
    rw [ask_isFile]
    unfold rememberFile
    cases m.knowsFile p <;> cases t.isFile p <;> rfl
  have lexed : (m.serve (t, .isFile p)).lexed = m.lexed := by
    rw [served]
    unfold rememberFile
    split
    · split <;> rfl
    · rfl
  constructor
  case files =>
    intro r
    rw [served, sighted_isFile]
    split
    case isTrue => simp [knowsFile_rememberFile, h.files, or_and_right, exists_or, or_comm]
    case isFalse => rw [List.append_nil, h.files]
  case lexed =>
    rw [lexed]
    exact h.lexed_concat _
  case once =>
    rw [lexed]
    exact h.once
  case read =>
    rw [lexed, readPaths_isFile]
    exact h.read

theorem directives (h : Recalls history m) (t : FileTree) (p : Path) :
    Recalls (history ++ [(t, .directives p)]) (m.serve (t, .directives p)) := by
  have served : m.serve (t, .directives p) = (m.ask t (Scan.directives p)).2 := rfl
  rcases m.ask_directives_cases t p with ⟨absent, asked⟩ | ⟨stamp, ds, status, ⟨entry, asked⟩ | ⟨read, asked⟩⟩
  case inl =>
    -- nothing was read, and nothing changes
    rw [served, asked]
    refine ⟨?_, h.lexed_concat _, h.once, ?_⟩
    · rw [sighted_directives]
      exact h.files
    · rw [readPaths_directives, absent]
      simpa using h.read
  case inr.inl =>
    -- the path has an entry already, whether it can be read now or not
    obtain ⟨q, same, mem⟩ := exists_of_lexed? entry
    rw [served, asked]
    refine ⟨?_, h.lexed_concat _, h.once, fun cs => ?_⟩
    · rw [sighted_directives]
      exact h.files
    · rw [readPaths_directives, List.map_append, List.mem_append, ← h.read]
      refine (or_iff_left_of_imp fun known => ?_).symm
      split at known
      · rw [List.mem_singleton.1 known]
        exact List.mem_map.2 ⟨_, mem, same⟩
      · cases known
  case inr.inr =>
    have ok : (t.directives p).isOk = true := by
      rw [read]
      rfl
    rw [served, asked]
    constructor
    case files =>
      rw [sighted_directives]
      exact h.files
    case lexed =>
      intro q seen found mem
      rcases List.mem_cons.1 mem with e | mem
      · cases e
        exact ⟨t, List.mem_map.2 ⟨_, List.mem_append_right _ List.mem_cons_self, rfl⟩, status, read⟩
      · exact h.lexed_concat _ q seen found (List.mem_filter.1 mem).1
    case once =>
      rw [components_rememberLexed]
      refine List.nodup_cons.2 ⟨fun again => ?_, h.once.filter _⟩
      have other := (List.mem_filter.1 again).2
      simp at other
    case read =>
      intro cs
      rw [components_rememberLexed, readPaths_directives, ok, if_pos rfl, List.map_append, List.mem_append, ← h.read,
        List.mem_cons, List.mem_filter]
      by_cases same : cs = p.components
      · simp [same]
      · simp [same]

end Recalls

theorem Recalls.serve (h : Recalls history m) : ∀ call : FileTree × MemoCall, Recalls (history ++ [call]) (m.serve call)
  | (t, .isFile p) => h.isFile t p
  | (t, .directives p) => h.directives t p
  | (t, .clear) => .ofClear history t

theorem recalls_after (history : History) : Recalls history (after history) := by
  induction history using List.reverseRecOn with
  | nil => exact recalls_empty
  | append_singleton history call ih =>
    rw [after_concat]
    exact ih.serve call

/-! ## Asking for directives -/

/-- **An entry made in another spelling is as good:** if the file has its stamp, it has its bytes. -/
theorem directives_of_stampsTell {before : FileTree} {stamp : Stamp} {ds : List Directive} (tells : before.StampsTell t)
    (same : q.components = p.components) (was : before.status q = .ok (.file stamp)) (had : before.directives q = .ok ds)
    (now : t.status p = .ok (.file stamp)) : t.directives p = .ok ds := by
  have named := FileTree.mayNameFile_of_isFile (FileTree.isFile_iff.2 ⟨stamp, was⟩)
  have named' := FileTree.mayNameFile_of_isFile (FileTree.isFile_iff.2 ⟨stamp, now⟩)
  have node : before.find q = before.find p := FileTree.find_congr named named' same
  have status : before.status p = .ok (.file stamp) := by
    rw [← was]
    unfold FileTree.status
    rw [node]
  have read : before.read q = before.read p := by
    unfold FileTree.read
    rw [node]
  obtain ⟨bytes, held, rfl⟩ := FileTree.directives_ok_iff.1 had
  rw [read] at held
  exact FileTree.directives_ok_iff.2 ⟨bytes, tells p stamp bytes status now held, rfl⟩

/-- **Asking for directives after any history** gives what a fresh read gives, or the error that it gives, as long as
stamps tell contents apart.  An error changes nothing in the memo, which has one entry for each path that was read since
it was emptied last. -/
theorem directives_after (history : History) (t : FileTree) (p : Path)
    (tells : ∀ before ∈ history.map Prod.fst, before.StampsTell t) :
    let m := after history
    let asked := m.ask t (Scan.directives p)
    asked.1 = t.directives p ∧ (∀ e, asked.1 = .error e → asked.2 = m) ∧
      m.size = ((readPaths history).map Path.components).dedup.length := by
  intro m asked
  have recalls : Recalls history m := recalls_after history
  have size : m.size = ((readPaths history).map Path.components).dedup.length := by
    have perm : (m.lexed.map (·.1.components)).Perm ((readPaths history).map Path.components).dedup :=
      (List.perm_ext_iff_of_nodup recalls.once (List.nodup_dedup _)).2 fun cs => by rw [recalls.read, List.mem_dedup]
    rw [← perm.length_eq, List.length_map]
    rfl
  suffices answered : asked.1 = t.directives p ∧ ∀ e, asked.1 = .error e → asked.2 = m from
    ⟨answered.1, answered.2, size⟩
  rcases m.ask_directives_cases t p with ⟨-, done⟩ | ⟨stamp, ds, status, ⟨entry, done⟩ | ⟨read, done⟩⟩
  case inl =>
    rw [show asked = (t.directives p, m) from done]
    exact ⟨rfl, fun _ _ => rfl⟩
  case inr.inl =>
    obtain ⟨q, same, mem⟩ := exists_of_lexed? entry
    obtain ⟨before, past, was, had⟩ := recalls.lexed q stamp ds mem
    rw [show asked = (.ok ds, m) from done, directives_of_stampsTell (tells before past) same was had status]
    exact ⟨rfl, nofun⟩
  case inr.inr =>
    rw [show asked = (.ok ds, m.rememberLexed p stamp ds) from done, read]
    exact ⟨rfl, nofun⟩

end FileMemo

namespace Sample

/-- A directory with the given nodes in it. -/
def holding (nodes : List (String × Node)) : FileTree where
  nodes := (["w"], .directory) :: nodes.map fun (name, node) => (["w", name], node)
  workingDirectory := ["w"]

/-- The first version of a header, and a second one that is as long. -/
def first : Node := .file { bytes := Text.utf8Bytes "#include \"b.h\"\n", modified := 1 }

def second : Node := .file { bytes := Text.utf8Bytes "#include <c.h>\n", modified := 2 }

/-- A third version, which nobody may read. -/
def third : Node := .file { bytes := Text.utf8Bytes "#include <d.h>\n", modified := 3, fault := some denied }

def original : FileTree :=
  holding [("a.h", first)]

/-- A header is read before it is there, after it was created, when it is rewritten, when it may not be read, and when a
directory stands in its place; it is also asked for as if it were a directory. -/
def changes : FileMemo.History :=
  [(holding [], .directives ⟨"/w/a.h"⟩),
   (original, .directives ⟨"/w/a.h"⟩),
   (original, .clear),
   (holding [("a.h", first), ("b.h", first)], .directives ⟨"/w/b.h"⟩),
   (holding [("a.h", second), ("b.h", first)], .directives ⟨"/w/./a.h"⟩),
   (holding [("a.h", second)], .directives ⟨"/w/a.h/."⟩),
   (holding [("a.h", third)], .directives ⟨"/w/a.h"⟩),
   (holding [("a.h", .directory)], .directives ⟨"/w/a.h"⟩)]

end Sample

/-- The header is back as it was at first, and it is read again. -/
theorem FileMemo.directives_after_changes :
    (∀ before ∈ Sample.changes.map Prod.fst, before.StampsTell Sample.original) ∧
    ((after Sample.changes).ask Sample.original (Scan.directives ⟨"/w//a.h"⟩)).1
      = .ok [{ form := .quote, target := "b.h" }] ∧ (after Sample.changes).size = 2 := by
  have apart : ∀ before ∈ Sample.changes.map Prod.fst, ∀ f ∈ before.files, ∀ g ∈ Sample.original.files,
      f.stamp = g.stamp → f.read.isOk → g.read = f.read := by decide
  have tells : ∀ before ∈ Sample.changes.map Prod.fst, before.StampsTell Sample.original :=
    fun before past => FileTree.stampsTell_of_files (apart before past)
  have answered := directives_after Sample.changes Sample.original ⟨"/w//a.h"⟩ tells
  exact ⟨tells, answered.1.trans (by decide), answered.2.2.trans (by decide)⟩

/-! ## Asking for a regular file -/

namespace FileMemo

variable {history : History} {q : Path}

/-- What was seen to be a regular file was one on some earlier tree. -/
theorem isFile_of_mem_sighted (h : q ∈ sighted history) : ∃ before ∈ history.map Prod.fst, before.isFile q = true := by
  obtain ⟨⟨before, call⟩, mem, seen⟩ := List.mem_filterMap.1 h
  refine ⟨before, List.mem_map.2 ⟨_, mem_of_recent mem, rfl⟩, ?_⟩
  cases call with
  | isFile p =>
    by_cases file : before.isFile p = true
    · rw [sighting?, if_pos file] at seen
      cases seen
      exact file
    · rw [sighting?, if_neg file] at seen
      cases seen
  | directives p => cases seen
  | clear => cases seen

/-- **Asking for a regular file after any history** in which files do not go away: the answer is yes for a regular file,
and for a path with the components of one that was asked about before.  For a path in normal form and for one that ends
in a name, unless it is too long for the system, that is the true answer. -/
theorem isFile_after (history : History) (t : FileTree) (p : Path)
    (lasting : ∀ before ∈ history.map Prod.fst, ∀ q, before.isFile q = true → t.isFile q = true) :
    let answer := ((after history).ask t (Scan.isFile p)).1
    (answer = true ↔ t.isFile p = true ∨ ∃ q ∈ sighted history, q.components = p.components) ∧
      (p.normalize = p ∨ p.MayNameFile → answer = t.isFile p) := by
  intro answer
  have yes : answer = true ↔ t.isFile p = true ∨ ∃ q ∈ sighted history, q.components = p.components := by
    rw [← (recalls_after history).files p, show answer = _ from congrArg Prod.fst (ask_isFile _ t p)]
    cases (after history).knowsFile p <;> cases t.isFile p <;> simp
  refine ⟨yes, fun plain => ?_⟩
  rw [Bool.eq_iff_iff, yes]
  refine or_iff_left_of_imp ?_
  rintro ⟨q, asked, same⟩
  obtain ⟨before, past, was⟩ := isFile_of_mem_sighted asked
  have file : t.isFile q = true := lasting before past q was
  rcases plain with normal | named
  · exact FileTree.isFile_of_normal normal same file
  · have node := FileTree.find_congr (t := t) (FileTree.mayNameFile_of_isFile file) named same
    unfold FileTree.isFile FileTree.status at file ⊢
    rwa [← node]

end FileMemo

namespace Sample

/-- The header is created after it was asked for, and is then asked for in another spelling. -/
def creation : FileMemo.History :=
  [(holding [], .isFile ⟨"/w/a.h"⟩), (original, .isFile ⟨"/w/./a.h"⟩)]

end Sample

theorem FileMemo.isFile_after_creation :
    (∀ before ∈ Sample.creation.map Prod.fst, ∀ q, before.isFile q = true → Sample.original.isFile q = true) ∧
    ((after Sample.creation).ask Sample.original (Scan.isFile ⟨"/w//a.h"⟩)).1 = true := by
  have lasting : ∀ before ∈ Sample.creation.map Prod.fst, ∀ q, before.isFile q = true →
      Sample.original.isFile q = true := by
    intro before past q file
    have grown : before.Grows Sample.original := by
      have either : before ∈ [Sample.holding [], Sample.original] := past
      rcases List.mem_pair.1 either with rfl | rfl
      · exact FileTree.grows_append (Sample.holding []) [(["w", "a.h"], Sample.first)]
      · exact ⟨rfl, fun _ _ h => h⟩
    exact grown.keeps.isFile q file
  have answered := isFile_after Sample.creation Sample.original ⟨"/w//a.h"⟩ lasting
  exact ⟨lasting, (answered.2 (.inr ⟨by decide, by decide⟩)).trans (by decide)⟩

/-- **A path that ends in a slash** is no regular file, and it is taken for one after the header was asked for. -/
theorem FileMemo.isFile_after_slash :
    Sample.original.isFile ⟨"/w/a.h/"⟩ = false ∧
    ((after [(Sample.original, .isFile ⟨"/w/a.h"⟩)]).ask Sample.original (Scan.isFile ⟨"/w/a.h/"⟩)).1 = true := by
  decide

end IncludeClosure
