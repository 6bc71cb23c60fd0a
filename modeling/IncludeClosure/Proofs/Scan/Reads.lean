import IncludeClosure.Proofs.FileTree.Edited
import IncludeClosure.Proofs.Scan.Memo
/-!
# Proofs.Scan.Reads — scans that do not see the files they do not read

What a scan reads on a tree are the paths whose contents it asks for (`readsOn`).  Fix a set `read` of positions and two
trees that differ only in files outside it.  A scan **follows** (`Follows`) when it does the same on both trees, down to
the cache it leaves, as long as all the files it reads are in `read`.  Status questions alone do not follow, since a
stamp tells an edited file from the old one; but whether a path names a regular file does not depend on the stamp
(`finds_isFile`), and the stamp of a file is only looked at when its directives are read or are remembered from being
read (`follows_directives`).  The second is why the memo is drawn from `read` too (`FileMemo.Drawn`).
-/
namespace IncludeClosure

namespace Program

variable {Q : Type} {Answer : Q → Type} {α β : Type}

/-- **The questions that a program asks,** in order, every one being answered by `answer`. -/
def asked (answer : (q : Q) → Answer q) : Program Answer α → List Q
  | done _ => []
  | ask q resume => q :: (resume (answer q)).asked answer

theorem asked_bind (answer : (q : Q) → Answer q) : ∀ (p : Program Answer α) (f : α → Program Answer β),
    (p >>= f).asked answer = p.asked answer ++ (f (p.run answer)).asked answer
  | done _, _ => rfl
  | ask q resume, f => congrArg (q :: ·) (asked_bind answer (resume (answer q)) f)

end Program

namespace Disk

/-- The path whose contents are asked for, if the question is that. -/
def contentsOf? : Disk → Option Path
  | contents p => some p
  | _ => none

end Disk

namespace Scan

variable {α β : Type} {t t' : FileTree}

/-- **The paths whose contents a scan asks for** on a tree, in order. -/
def readsOn (t : FileTree) (scan : Scan α) (s : ScanStore) : List Path :=
  ((perform scan s).asked t.answer).filterMap Disk.contentsOf?

theorem perform_bind : ∀ (scan : Scan α) (f : α → Scan β) (s : ScanStore),
    perform (scan >>= f) s = (perform scan s >>= fun left => perform (f left.1) left.2)
  | .done _, _, _ => rfl
  | .ask step resume, f, s => by
    show (s.reply step >>= fun reply => perform (resume reply.1 >>= f) reply.2) =
      ((s.reply step >>= fun reply => perform (resume reply.1) reply.2) >>= fun left => perform (f left.1) left.2)
    rw [Program.bind_assoc]
    exact congrArg _ (funext fun reply => perform_bind (resume reply.1) f reply.2)

theorem readsOn_bind (scan : Scan α) (f : α → Scan β) (s : ScanStore) :
    readsOn t (scan >>= f) s = readsOn t scan s ++ readsOn t (f (runOn t scan s).1) (runOn t scan s).2 := by
  unfold readsOn
  rw [perform_bind, Program.asked_bind, List.filterMap_append]
  rfl

end Scan

namespace FileMemo

/-- **Every entry of the memo stands for a regular file,** and the directives for one that `read` holds of. -/
structure Drawn (t : FileTree) (read : Position → Prop) (m : FileMemo) : Prop where
  files : ∀ p ∈ m.files, t.isFile p = true
  lexed : ∀ p stamp ds, (p, stamp, ds) ∈ m.lexed → ∃ position f, t.find p = .ok (position, .file f) ∧ read position

variable {t : FileTree} {read : Position → Prop} {m : FileMemo} {p : Path}

theorem drawn_empty : Drawn t read .empty where
  files _ h := absurd h List.not_mem_nil
  lexed _ _ _ h := absurd h List.not_mem_nil

theorem Drawn.rememberFile (h : m.Drawn t read) (hf : t.isFile p = true) : (m.rememberFile p).Drawn t read := by
  unfold FileMemo.rememberFile
  split
  · exact h
  · refine ⟨fun q hq => ?_, h.lexed⟩
    rcases List.mem_cons.1 hq with rfl | hq
    · exact hf
    · exact h.files q hq

theorem Drawn.rememberLexed (h : m.Drawn t read) {position : Position} {f : File}
    (hf : t.find p = .ok (position, .file f)) (hr : read position) (stamp : Stamp) (ds : List Directive) :
    (m.rememberLexed p stamp ds).Drawn t read := by
  refine ⟨h.files, fun q seen found hq => ?_⟩
  rcases List.mem_cons.1 hq with e | hq
  · cases e
    exact ⟨position, f, hf, hr⟩
  · exact h.lexed q seen found (List.mem_filter.1 hq).1

/-- **A path that is known to be a file** has a spelling that names one. -/
theorem Drawn.isFile (h : m.Drawn t read) (known : m.knowsFile p = true) :
    ∃ q, q.components = p.components ∧ t.isFile q = true := by
  obtain ⟨q, hq, hs⟩ := knowsFile_iff.1 known
  exact ⟨q, hs, h.files q hq⟩

/-- **A file whose directives are remembered** has been read. -/
theorem Drawn.read_of_lexed (h : m.Drawn t read) {stamp : Stamp} {ds : List Directive}
    (remembered : m.lexed? p = some (stamp, ds)) {position : Position} {f : File}
    (hf : t.find p = .ok (position, .file f)) : read position := by
  obtain ⟨⟨q, entry⟩, hq, e⟩ := Option.map_eq_some_iff.1 remembered
  cases e
  have hsame := List.find?_some hq
  obtain ⟨here, g, hg, hr⟩ := h.lexed q stamp ds (List.mem_of_find?_eq_some hq)
  cases FileTree.find_eq_of_components ((Path.same_iff q p).1 hsame) hg hf
  exact hr

end FileMemo

namespace Scan

variable {α β : Type} {t t' : FileTree} {read : Position → Prop}

/-- All the files that the paths lead to are such that `read` holds of them. -/
def Within (t : FileTree) (read : Position → Prop) (paths : List Path) : Prop :=
  ∀ p ∈ paths, ∀ position f, t.find p = .ok (position, .file f) → read position

/-- **A scan that does the same on two trees** as long as it reads no other files than those that `read` holds of.  What
it adds to what is found, the paths it reads and the result are as `Q` says. -/
def Follows (t t' : FileTree) (read : Position → Prop) (scan : Scan α)
    (Q : List Artifact → List Path → α → Prop) : Prop :=
  ∀ s : ScanStore, s.cache.memo.Drawn t read → Within t read (readsOn t scan s) →
    runOn t' scan s = runOn t scan s ∧ (runOn t scan s).2.cache.memo.Drawn t read ∧
    ∃ recorded, (∀ a, a ∈ (runOn t scan s).2.found ↔ a ∈ s.found ∨ a ∈ recorded) ∧
      Q recorded (readsOn t scan s) (runOn t scan s).1

theorem follows_done {a : α} {Q : List Artifact → List Path → α → Prop} (h : Q [] [] a) :
    Follows t t' read (.done a) Q :=
  fun _ drawn _ => ⟨rfl, drawn, [], by simp, h⟩

theorem follows_mono {scan : Scan α} {Q R : List Artifact → List Path → α → Prop} (h : Follows t t' read scan Q)
    (himp : ∀ found paths a, Q found paths a → R found paths a) : Follows t t' read scan R := by
  intro s drawn within
  obtain ⟨same, drawn', recorded, hf, hQ⟩ := h s drawn within
  exact ⟨same, drawn', recorded, hf, himp _ _ _ hQ⟩

theorem follows_bind {scan : Scan α} {f : α → Scan β} {Q : List Artifact → List Path → β → Prop}
    (h : Follows t t' read scan fun found paths a =>
      Follows t t' read (f a) fun more others b => Q (found ++ more) (paths ++ others) b) :
    Follows t t' read (scan >>= f) Q := by
  intro s drawn within
  rw [readsOn_bind] at within
  obtain ⟨same, drawn', recorded, hf, rest⟩ := h s drawn fun p hp => within p (List.mem_append_left _ hp)
  obtain ⟨same', drawn'', more, hm, hQ⟩ := rest _ drawn' fun p hp => within p (List.mem_append_right _ hp)
  rw [runOn_bind, runOn_bind, same, same', readsOn_bind]
  refine ⟨rfl, drawn'', recorded ++ more, fun a => ?_, hQ⟩
  rw [hm, hf, List.mem_append, or_assoc]

/-- The scan records nothing, reads nothing, and gives what `P` says. -/
def Finds (t t' : FileTree) (read : Position → Prop) (scan : Scan α) (P : α → Prop) : Prop :=
  Follows t t' read scan fun found paths a => found = [] ∧ paths = [] ∧ P a

theorem Finds.bind {scan : Scan α} {P : α → Prop} {f : α → Scan β} {Q : List Artifact → List Path → β → Prop}
    (h : Finds t t' read scan P) (rest : ∀ a, P a → Follows t t' read (f a) Q) :
    Follows t t' read (scan >>= f) Q := by
  refine follows_bind (follows_mono h ?_)
  rintro _ _ a ⟨rfl, rfl, hP⟩
  exact rest a hP

theorem follows_record {a : Artifact} {f : Unit → Scan β} {Q : List Artifact → List Path → β → Prop}
    (rest : Follows t t' read (f ()) fun more others b => Q (a :: more) others b) :
    Follows t t' read (step (.record a) >>= f) Q := by
  refine follows_bind fun s drawn _ => ⟨rfl, drawn, [a], fun b => ?_, rest⟩
  simp [step, Program.query, runOn_ask, ScanStore.reply, or_comm]

theorem runOn_isFile (t : FileTree) (p : Path) (s : ScanStore) : runOn t (isFile p) s =
    if s.cache.memo.knowsFile p then (true, s)
    else if t.isFile p then (true, s.mapMemo (·.rememberFile p))
    else (false, s) := by
  have first : runOn t (step (.recallFile p)) s = (s.cache.memo.knowsFile p, s) := rfl
  unfold isFile
  rw [runOn_bind, first]
  dsimp only
  cases s.cache.memo.knowsFile p with
  | true => rfl
  | false =>
    have second : runOn t (disk (.status p)) s = (t.status p, s) := rfl
    rw [if_neg (by decide), if_neg (by decide), runOn_bind, second]
    unfold FileTree.isFile
    cases t.status p with
    | error e => rfl
    | ok status => cases status <;> rfl

theorem readsOn_isFile (t : FileTree) (p : Path) (s : ScanStore) : readsOn t (isFile p) s = [] := by
  have first : runOn t (step (.recallFile p)) s = (s.cache.memo.knowsFile p, s) := rfl
  have none : readsOn t (step (.recallFile p)) s = [] := rfl
  unfold isFile
  rw [readsOn_bind, none, first, List.nil_append]
  dsimp only
  split
  · rfl
  · have second : runOn t (disk (.status p)) s = (t.status p, s) := rfl
    have none : readsOn t (disk (.status p)) s = [] := rfl
    rw [readsOn_bind, none, second, List.nil_append]
    dsimp only
    split
    · rfl
    · rfl

/-- **Whether a path names a regular file** does not depend on what files hold. -/
theorem finds_isFile (edited : t.EditedAt (fun position => ¬ read position) t') (p : Path) :
    Finds t t' read (isFile p) fun known =>
      (known = true → ∃ q, q.components = p.components ∧ t.isFile q = true) ∧
        (known = false → t.isFile p = false) := by
  intro s drawn _
  rw [runOn_isFile, runOn_isFile, readsOn_isFile, edited.isFile]
  refine ⟨rfl, ?_⟩
  split
  · rename_i known
    exact ⟨drawn, [], by simp, rfl, rfl, fun _ => drawn.isFile known, fun h => by cases h⟩
  · split
    · rename_i hf
      exact ⟨drawn.rememberFile hf, [], by simp [ScanStore.mapMemo], rfl, rfl, fun _ => ⟨p, rfl, hf⟩,
        fun h => by cases h⟩
    · rename_i hf
      exact ⟨drawn, [], by simp, rfl, rfl, (fun h => by cases h), fun _ => Bool.not_eq_true _ ▸ hf⟩

theorem runOn_readDirectives (t : FileTree) (p : Path) (stamp? : Option Stamp) (s : ScanStore) :
    runOn t (readDirectives p stamp?) s = (t.directives p, match t.directives p, stamp? with
      | .ok ds, some stamp => s.mapMemo (·.rememberLexed p stamp ds)
      | _, _ => s) := by
  have first : runOn t (disk (.contents p)) s = (t.read p, s) := rfl
  unfold readDirectives FileTree.directives
  rw [runOn_bind, first]
  cases t.read p with
  | error e => cases stamp? <;> rfl
  | ok bytes => cases stamp? <;> rfl

theorem readsOn_readDirectives (t : FileTree) (p : Path) (stamp? : Option Stamp) (s : ScanStore) :
    readsOn t (readDirectives p stamp?) s = [p] := by
  have first : runOn t (disk (.contents p)) s = (t.read p, s) := rfl
  have one : readsOn t (disk (.contents p)) s = [p] := rfl
  unfold readDirectives
  rw [readsOn_bind, one, first]
  cases t.read p with
  | error e => rfl
  | ok bytes => cases stamp? <;> rfl

/-- A step that asks the tree nothing and writes down nothing. -/
theorem finds_step {step : Step}
    (quiet : ∀ s : ScanStore, ∃ reply, s.reply step = .done reply ∧ reply.2.cache.memo = s.cache.memo ∧
      reply.2.found = s.found) : Finds t t' read (Scan.step step) fun _ => True := by
  intro s drawn _
  obtain ⟨reply, replies, memo, found⟩ := quiet s
  have run (t : FileTree) : runOn t (Scan.step step) s = reply := by
    show runOn t (.ask step .done) s = _
    rw [runOn_ask, replies]
    rfl
  have reads : readsOn t (Scan.step step) s = [] := by
    show ((perform (.ask step .done) s).asked t.answer).filterMap Disk.contentsOf? = []
    unfold perform
    rw [replies]
    rfl
  rw [run, run, reads]
  exact ⟨rfl, by rw [memo]; exact drawn, [], by simp [found], rfl, rfl, trivial⟩

theorem finds_status {p : Path} (same : t'.find p = t.find p) :
    Finds t t' read (disk (.status p)) (· = t.status p) := by
  intro s drawn _
  have run (t : FileTree) : runOn t (disk (.status p)) s = (t.status p, s) := rfl
  have status : t'.status p = t.status p := by
    unfold FileTree.status
    rw [same]
  rw [run, run, status]
  exact ⟨rfl, drawn, [], by simp, rfl, rfl, rfl⟩

theorem follows_readDirectives {p : Path} (same : t'.find p = t.find p) {stamp? : Option Stamp}
    (file : stamp?.isSome = true → ∃ position f, t.find p = .ok (position, .file f) ∧ read position) :
    Follows t t' read (readDirectives p stamp?) fun found paths _ => found = [] ∧ paths = [p] := by
  intro s drawn _
  have directives : t'.directives p = t.directives p := by
    unfold FileTree.directives FileTree.read
    rw [same]
  rw [runOn_readDirectives, runOn_readDirectives, readsOn_readDirectives, directives]
  refine ⟨rfl, ?_⟩
  cases t.directives p with
  | error e => exact ⟨drawn, [], by simp, rfl, rfl⟩
  | ok ds =>
    cases stamp? with
    | none => exact ⟨drawn, [], by simp, rfl, rfl⟩
    | some stamp =>
      obtain ⟨position, f, hf, hr⟩ := file rfl
      exact ⟨drawn.rememberLexed hf hr stamp ds, [], by simp [ScanStore.mapMemo], rfl, rfl⟩

/-- **A file whose directives are asked for** has been read, now or before. -/
theorem within_directives {p : Path} {s : ScanStore} (drawn : s.cache.memo.Drawn t read)
    (within : Within t read (readsOn t (directives p) s)) {position : Position} {f : File}
    (hf : t.find p = .ok (position, .file f)) : read position := by
  cases remembered : s.cache.memo.lexed? p with
  | some entry => exact drawn.read_of_lexed remembered hf
  | none =>
    have status : runOn t (disk (.status p)) s = (.ok (.file f.stamp), s) := by
      show (t.status p, s) = _
      unfold FileTree.status
      rw [hf]
    have recalled : runOn t (step (.recallLexed p)) s = (none, s) := by
      show (s.cache.memo.lexed? p, s) = _
      rw [remembered]
    have reads : readsOn t (directives p) s = [] ++ ([] ++ [p]) := by
      unfold directives
      rw [readsOn_bind, status]
      dsimp only
      rw [readsOn_bind, recalled]
      dsimp only
      rw [readsOn_readDirectives]
      rfl
    exact within p (by rw [reads]; simp) position f hf

/-- **The directives of a file** do not depend on what the files hold that are not read. -/
theorem follows_directives (edited : t.EditedAt (fun position => ¬ read position) t') (p : Path) :
    Follows t t' read (directives p) fun found paths _ =>
      found = [] ∧ (∀ q ∈ paths, q = p) ∧ ∀ position f, t.find p = .ok (position, .file f) → read position := by
  intro s drawn within
  have seen (position : Position) (f : File) (hf : t.find p = .ok (position, .file f)) : read position :=
    within_directives drawn within hf
  have same : t'.find p = t.find p := edited.find_eq fun position f hf unread => unread (seen position f hf)
  have fresh {stamp? : Option Stamp}
      (file : stamp?.isSome = true → ∃ position f, t.find p = .ok (position, .file f) ∧ read position) :
      Follows t t' read (readDirectives p stamp?) fun found paths _ => found = [] ∧ ∀ q ∈ paths, q = p :=
    follows_mono (follows_readDirectives same file) fun _ _ _ h => ⟨h.1, by rw [h.2]; simp⟩
  have follows : Follows t t' read (directives p) fun found paths _ => found = [] ∧ ∀ q ∈ paths, q = p := by
    unfold directives
    refine (finds_status same).bind ?_
    rintro _ rfl
    split
    · exact follows_done ⟨rfl, by simp⟩
    · exact fresh fun h => by cases h
    · rename_i stamp status
      obtain ⟨position, f, hf, -⟩ := FileTree.status_file_iff.1 status
      have file : (some stamp).isSome = true → ∃ position f, t.find p = .ok (position, .file f) ∧ read position :=
        fun _ => ⟨position, f, hf, seen position f hf⟩
      refine (finds_step fun s => ⟨_, rfl, rfl, rfl⟩).bind fun remembered _ => ?_
      split
      · split
        · exact follows_done ⟨rfl, by simp⟩
        · exact fresh file
      · exact fresh file
  obtain ⟨run, drawn', recorded, hfound, nothing, paths⟩ := follows s drawn within
  exact ⟨run, drawn', recorded, hfound, nothing, paths, seen⟩

end Scan
end IncludeClosure
