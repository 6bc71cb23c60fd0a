import IncludeClosure.Proofs.FileTree.Spelling
import IncludeClosure.Proofs.Scan.Ensures
/-!
# Proofs.Scan.Memo — the cache tells the truth about the tree

What the file memo holds was true on some earlier tree (`FileMemo.Traced`).  It is still true on the present one as long
as the trees were **steady**: a path that named a regular file still names one, and a file that has an earlier length
and time of change has the earlier bytes.  So every step of a scan is answered as `Step.MayAnswer` says and leaves a
memo that can be traced (`reply_traced`), a scan that is carried out step by step does what it ensures
(`runOn_ensures`), and the two questions about a file get the present tree's answers (`gives_isFile`,
`gives_directives`).
-/
namespace IncludeClosure

namespace FileTree

/-- **Stamps tell contents apart:** a path that names a regular file with the same stamp on both trees, and can be read on
the first, has the same bytes on the second.  A directory has no stamp here, so it is never taken for an earlier file. -/
def StampsTell (before after : FileTree) : Prop :=
  ∀ p stamp bytes, before.status p = .ok (.file stamp) → after.status p = .ok (.file stamp) →
    before.read p = .ok bytes → after.read p = .ok bytes

/-- **Nothing that was seen on the trees of `past` is false on `t`** unless its stamp says so. -/
structure Steady (past : List FileTree) (t : FileTree) : Prop where
  present : t ∈ past
  isFile : ∀ before ∈ past, ∀ p, before.isFile p = true → t.isFile p = true
  read : ∀ before ∈ past, before.StampsTell t

theorem Steady.self (t : FileTree) : Steady [t] t where
  present := List.mem_singleton.2 rfl
  isFile before h p hp := by rw [List.mem_singleton.1 h] at hp; exact hp
  read before h _ _ _ _ _ held := by rwa [List.mem_singleton.1 h] at held

theorem status_file_iff {t : FileTree} {p : Path} {stamp : Stamp} :
    t.status p = .ok (.file stamp) ↔ ∃ position f, t.find p = .ok (position, .file f) ∧ f.stamp = stamp := by
  unfold status
  constructor
  · intro h
    split at h
    · cases h
    · rename_i position f e
      cases h
      exact ⟨position, f, e, rfl⟩
    · cases h
    · cases h
  · rintro ⟨position, f, e, rfl⟩
    rw [e]

theorem isFile_iff {t : FileTree} {p : Path} : t.isFile p = true ↔ ∃ stamp, t.status p = .ok (.file stamp) := by
  unfold isFile
  constructor
  · intro h
    split at h
    · exact ⟨_, ‹_›⟩
    · cases h
  · rintro ⟨stamp, h⟩
    rw [h]

theorem isFile_iff_find {t : FileTree} {p : Path} :
    t.isFile p = true ↔ ∃ position f, t.find p = .ok (position, .file f) := by
  rw [isFile_iff]
  constructor
  · rintro ⟨stamp, status⟩
    obtain ⟨position, f, found, -⟩ := status_file_iff.1 status
    exact ⟨position, f, found⟩
  · rintro ⟨position, f, found⟩
    exact ⟨f.stamp, status_file_iff.2 ⟨position, f, found, rfl⟩⟩

theorem read_ok_iff {t : FileTree} {p : Path} {bytes : Bytes} :
    t.read p = .ok bytes ↔ ∃ position f, t.find p = .ok (position, .file f) ∧ f.read = .ok bytes := by
  unfold read
  constructor
  · intro h
    split at h
    · cases h
    · rename_i position f found
      exact ⟨position, f, found, h⟩
    · cases h
    · cases h
  · rintro ⟨position, f, found, held⟩
    rw [found]
    exact held

theorem directives_ok_iff {t : FileTree} {p : Path} {ds : List Directive} :
    t.directives p = .ok ds ↔ ∃ bytes, t.read p = .ok bytes ∧ Directive.extract bytes = ds := by
  unfold directives
  cases t.read p with
  | error e => exact ⟨nofun, fun ⟨_, h, _⟩ => nomatch h⟩
  | ok bytes =>
    constructor
    · intro h
      exact ⟨bytes, rfl, Except.ok.inj h⟩
    · rintro ⟨_, ⟨⟩, rfl⟩
      rfl

/-- Only a regular file has directives; that it has them may still be refused. -/
theorem isFile_of_directives {t : FileTree} {p : Path} {ds : List Directive} (h : t.directives p = .ok ds) :
    t.isFile p = true := by
  obtain ⟨bytes, held, -⟩ := directives_ok_iff.1 h
  obtain ⟨position, f, found, -⟩ := read_ok_iff.1 held
  exact isFile_iff_find.2 ⟨position, f, found⟩

theorem read_of_status_error {t : FileTree} {p : Path} {e : OsError} (h : t.status p = .error e) :
    t.read p = .error e := by
  unfold status at h
  unfold read
  split at h <;> cases h <;> rfl

/-- **Two spellings of one path that name a file** name the same file. -/
theorem same_file {t : FileTree} {p q : Path} (h : p.components = q.components) {s s' : Stamp}
    (hp : t.status p = .ok (.file s)) (hq : t.status q = .ok (.file s')) : s = s' ∧ t.read p = t.read q := by
  obtain ⟨position, f, ep, rfl⟩ := status_file_iff.1 hp
  obtain ⟨position', f', eq, rfl⟩ := status_file_iff.1 hq
  cases find_eq_of_components h ep eq
  exact ⟨rfl, by unfold read; rw [ep, eq]⟩

end FileTree

namespace FileMemo

/-- A path that is known to be a file is remembered in some spelling. -/
theorem knowsFile_iff {m : FileMemo} {p : Path} :
    m.knowsFile p = true ↔ ∃ q ∈ m.files, q.components = p.components := by
  unfold knowsFile
  rw [List.any_eq_true]
  exact exists_congr fun q => and_congr_right fun _ => Path.same_iff q p

theorem knowsFile_rememberFile {m : FileMemo} {p q : Path} :
    (m.rememberFile q).knowsFile p = true ↔ q.components = p.components ∨ m.knowsFile p = true := by
  unfold rememberFile
  split
  case isTrue known =>
    refine (or_iff_right_of_imp fun same => ?_).symm
    obtain ⟨r, mem, spelled⟩ := knowsFile_iff.1 known
    exact knowsFile_iff.2 ⟨r, mem, spelled.trans same⟩
  case isFalse =>
    unfold knowsFile
    rw [List.any_cons, Bool.or_eq_true_iff, Path.same_iff]

/-- **Every entry of the memo was true on one of the trees of `past`.** -/
structure Traced (past : List FileTree) (m : FileMemo) : Prop where
  files : ∀ p ∈ m.files, p.normalize = p ∧ ∃ t ∈ past, t.isFile p = true
  lexed : ∀ p stamp directives, (p, stamp, directives) ∈ m.lexed →
    ∃ t ∈ past, t.status p = .ok (.file stamp) ∧ t.directives p = .ok directives

theorem traced_empty (past : List FileTree) : Traced past .empty where
  files _ h := by cases h
  lexed _ _ _ h := by cases h

theorem Traced.mono {past later : List FileTree} {m : FileMemo} (h : m.Traced past)
    (hs : ∀ t ∈ past, t ∈ later) : m.Traced later where
  files p hp :=
    have ⟨hn, t, ht, hf⟩ := h.files p hp
    ⟨hn, t, hs t ht, hf⟩
  lexed p stamp directives hp :=
    have ⟨t, ht, hd⟩ := h.lexed p stamp directives hp
    ⟨t, hs t ht, hd⟩

variable {past : List FileTree} {m : FileMemo}

theorem Traced.rememberFile (h : m.Traced past) {p : Path} (hn : p.normalize = p) {t : FileTree} (ht : t ∈ past)
    (hf : t.isFile p = true) : (m.rememberFile p).Traced past := by
  unfold FileMemo.rememberFile
  split
  · exact h
  · refine ⟨fun q hq => ?_, h.lexed⟩
    rcases List.mem_cons.1 hq with rfl | hq
    · exact ⟨hn, t, ht, hf⟩
    · exact h.files q hq

theorem Traced.rememberLexed (h : m.Traced past) {p : Path} {stamp : Stamp} {directives : List Directive}
    {t : FileTree} (ht : t ∈ past) (hs : t.status p = .ok (.file stamp)) (hd : t.directives p = .ok directives) :
    (m.rememberLexed p stamp directives).Traced past := by
  refine ⟨h.files, fun q seen found hq => ?_⟩
  rcases List.mem_cons.1 hq with e | hq
  · cases e
    exact ⟨t, ht, hs, hd⟩
  · exact h.lexed q seen found (List.mem_filter.1 hq).1

/-- **A path in normal form that is known to be a file** is one on a tree that was steady. -/
theorem Traced.isFile {t : FileTree} (h : m.Traced past) (steady : t.Steady past) {p : Path} (hn : p.normalize = p)
    (known : m.knowsFile p = true) : t.isFile p = true := by
  obtain ⟨q, hq, hs⟩ := knowsFile_iff.1 known
  obtain ⟨hqn, before, hb, hf⟩ := h.files q hq
  obtain rfl : q = p := Path.eq_of_normal hqn hn hs
  exact steady.isFile before hb q hf

/-- **Directives that are remembered under the present stamp** are the present ones. -/
theorem Traced.directives {t : FileTree} (h : m.Traced past) (steady : t.Steady past) {p : Path} {stamp : Stamp}
    {ds : List Directive} (remembered : m.lexed? p = some (stamp, ds)) (present : t.status p = .ok (.file stamp)) :
    t.directives p = .ok ds := by
  obtain ⟨⟨q, entry⟩, hq, e⟩ := Option.map_eq_some_iff.1 remembered
  cases e
  have hsame := List.find?_some hq
  have hc : q.components = p.components := (Path.same_iff q p).1 hsame
  obtain ⟨before, hb, hs, hd⟩ := h.lexed q stamp ds (List.mem_of_find?_eq_some hq)
  obtain ⟨seen, hseen⟩ := FileTree.isFile_iff.1 (steady.isFile before hb q (FileTree.isFile_iff.2 ⟨_, hs⟩))
  obtain ⟨rfl, hr⟩ := FileTree.same_file hc hseen present
  obtain ⟨bytes, held, rfl⟩ := FileTree.directives_ok_iff.1 hd
  refine FileTree.directives_ok_iff.2 ⟨bytes, ?_, rfl⟩
  rw [← hr]
  exact steady.read before hb q seen bytes hs hseen held

end FileMemo

namespace SearchDirs

theorem sameList_self : ∀ ps : List Path, sameList ps ps = true
  | [] => rfl
  | p :: ps => by simp [sameList, Path.same, sameList_self ps]

theorem same_self (dirs : SearchDirs) : dirs.same dirs = true := by
  simp [same, sameList_self]

end SearchDirs

namespace ScannerTable

theorem same_of_find? {table : ScannerTable} {dirs : SearchDirs} {scanner : Scanner}
    (h : table.find? dirs = some scanner) : scanner.dirs.same dirs = true := by
  have hsame := List.find?_some h
  exact hsame

theorem same_of_keep (table : ScannerTable) (scanner : Scanner) :
    (table.keep scanner).1.dirs.same scanner.dirs = true := by
  unfold keep
  split
  · exact same_of_find? ‹_›
  · exact SearchDirs.same_self _

end ScannerTable

namespace Scan

variable {α : Type} {t : FileTree} {past : List FileTree}

/-- **One step on a store** adds to what is found what the step records, whatever the disk answers. -/
theorem mem_found_reply (t : FileTree) (s : ScanStore) (step : Step) (a : Artifact) :
    a ∈ ((s.reply step).run t.answer).2.found ↔ a ∈ s.found ∨ a ∈ step.recorded := by
  cases step with
  | record b => simp [ScanStore.reply, Step.recorded, or_comm]
  | disk question => simp [ScanStore.reply, Program.run, Step.recorded]
  | _ => simp [ScanStore.reply, ScanStore.withScanners, ScanStore.mapMemo, Step.recorded]

/-- **One step on a store whose memo can be traced.**  It is answered with nothing false, and when it writes down
nothing false the memo can still be traced. -/
theorem reply_traced (steady : t.Steady past) {s : ScanStore} (traced : s.cache.memo.Traced past) {step : Step}
    (truthful : step.Truthful t) :
    step.MayAnswer t ((s.reply step).run t.answer).1 ∧
    ((s.reply step).run t.answer).2.cache.memo.Traced past ∧
    ∀ a, a ∈ ((s.reply step).run t.answer).2.found ↔ a ∈ s.found ∨ a ∈ step.recorded := by
  have found := mem_found_reply t s step
  cases step with
  | disk question => exact ⟨rfl, traced, found⟩
  | findScanner dirs => exact ⟨fun scanner h => ScannerTable.same_of_find? h, traced, found⟩
  | buildScanner dirs => exact ⟨rfl, traced, found⟩
  | keepScanner scanner => exact ⟨ScannerTable.same_of_keep _ scanner, traced, found⟩
  | recallFile p => exact ⟨fun known hn => traced.isFile steady hn known, traced, found⟩
  | rememberFile p => exact ⟨trivial, traced.rememberFile truthful.1 steady.present truthful.2, found⟩
  | recallLexed p =>
    exact ⟨fun stamp ds remembered present => traced.directives steady remembered present, traced, found⟩
  | rememberLexed p stamp ds =>
    exact ⟨trivial, traced.rememberLexed steady.present truthful.1 truthful.2, found⟩
  | record b => exact ⟨trivial, traced, found⟩

/-- **A scan that is carried out does what it ensures.** -/
theorem runOn_ensures (steady : t.Steady past) : ∀ {scan : Scan α} {Q : List Artifact → α → Prop} {s : ScanStore},
    Ensures t scan Q → s.cache.memo.Traced past →
    ∃ recorded, Q recorded (runOn t scan s).1 ∧ (runOn t scan s).2.cache.memo.Traced past ∧
      ∀ a, a ∈ (runOn t scan s).2.found ↔ a ∈ s.found ∨ a ∈ recorded
  | .done _, _, _, h, traced => ⟨[], h, traced, by simp⟩
  | .ask step resume, Q, s, h, traced => by
    obtain ⟨may, traced', hf⟩ := reply_traced steady traced h.1
    obtain ⟨more, hQ, traced'', hm⟩ := runOn_ensures steady (h.2 _ may) traced'
    rw [runOn_ask]
    refine ⟨step.recorded ++ more, hQ, traced'', fun a => ?_⟩
    rw [hm, hf, List.mem_append, or_assoc]

theorem gives_status (p : Path) : Gives t (disk (.status p)) (t.status p) :=
  (ensures_step t (.disk (.status p)) _).2 ⟨trivial, fun _ may => ⟨rfl, may⟩⟩

theorem gives_contents (p : Path) : Gives t (disk (.contents p)) (t.read p) :=
  (ensures_step t (.disk (.contents p)) _).2 ⟨trivial, fun _ may => ⟨rfl, may⟩⟩

/-- **Whether a path names a regular file** is answered as the tree does, for a path in normal form. -/
theorem gives_isFile {p : Path} (hn : p.normalize = p) : Gives t (isFile p) (t.isFile p) := by
  unfold isFile
  refine ensures_step_bind trivial fun known may => ?_
  split
  · exact ⟨rfl, (may ‹_› hn).symm⟩
  · refine (gives_status p).bind ?_
    split
    · rename_i stamp e
      have hf : t.isFile p = true := FileTree.isFile_iff.2 ⟨stamp, e⟩
      exact ensures_step_bind ⟨hn, hf⟩ fun _ _ => ⟨rfl, hf.symm⟩
    · rename_i hne
      refine ⟨rfl, ?_⟩
      cases hf : t.isFile p with
      | false => rfl
      | true => exact absurd (FileTree.isFile_iff.1 hf).choose_spec (hne _)

theorem gives_readDirectives {p : Path} {stamp : Option Stamp}
    (hs : ∀ seen, stamp = some seen → t.status p = .ok (.file seen)) :
    Gives t (readDirectives p stamp) (t.directives p) := by
  unfold readDirectives
  refine (gives_contents p).bind ?_
  split
  · rename_i e h
    exact ⟨rfl, by simp [FileTree.directives, h, Except.map]⟩
  · rename_i bytes h
    have hd : t.directives p = .ok (Directive.extract bytes) := by simp [FileTree.directives, h, Except.map]
    cases stamp with
    | none => exact ⟨rfl, hd.symm⟩
    | some seen => exact ensures_step_bind ⟨hs seen rfl, hd⟩ fun _ _ => ⟨rfl, hd.symm⟩

/-- **The directives of a file** are the tree's. -/
theorem gives_directives (p : Path) : Gives t (directives p) (t.directives p) := by
  unfold directives
  refine (gives_status p).bind ?_
  split
  · rename_i e h
    exact ⟨rfl, by simp [FileTree.directives, FileTree.read_of_status_error h, Except.map]⟩
  · exact gives_readDirectives fun seen h => by cases h
  · rename_i stamp h
    have hr : Gives t (readDirectives p (some stamp)) (t.directives p) :=
      gives_readDirectives fun seen e => by cases e; exact h
    refine ensures_step_bind trivial fun remembered may => ?_
    cases remembered with
    | none => exact hr
    | some entry =>
      obtain ⟨seen, ds⟩ := entry
      show Ensures t (if seen = stamp then _ else _) _
      split
      · rename_i e
        subst e
        exact ⟨rfl, by rw [may seen ds rfl h]⟩
      · exact hr

end Scan
end IncludeClosure
