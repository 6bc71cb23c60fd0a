import IncludeClosure.Command.Run
import IncludeClosure.Proofs.Request.Job
import IncludeClosure.Proofs.Scan.Reads
/-!
# Proofs.Command.Load — the request files of a scan, all of them or none

On a tree a request file either describes an action (`Command.Describes`) or offends in one of the ways in which a file
can be no request (`Command.Offends`); reading it comes to exactly that (`loadJob_ok_iff`, `loadJob_error_iff`), so it
is never both.  The files are read in the order of their arguments up to the first that offends (`loadJobs_cases`), and
reading one asks for its contents and for its canonical path, nothing else (`onlyAsks_loadJob`).
-/
namespace IncludeClosure

namespace Program

variable {Q : Type} {Answer : Q → Type} {α β : Type} {answer : (q : Q) → Answer q} {P P' : Q → Prop}

/-- **All questions of a program are of one kind,** every one being answered by `answer`. -/
def OnlyAsks (answer : (q : Q) → Answer q) (P : Q → Prop) (p : Program Answer α) : Prop :=
  ∀ question ∈ p.asked answer, P question

theorem onlyAsks_done (a : α) : OnlyAsks answer P (done a) :=
  fun _ mem => absurd mem List.not_mem_nil

theorem onlyAsks_query {q : Q} (h : P q) : OnlyAsks answer P (query q) := by
  intro question mem
  rw [List.mem_singleton.1 mem]
  exact h

theorem onlyAsks_bind {p : Program Answer α} {f : α → Program Answer β} (first : p.OnlyAsks answer P)
    (next : (f (p.run answer)).OnlyAsks answer P) : (p >>= f).OnlyAsks answer P := by
  unfold OnlyAsks
  rw [asked_bind]
  exact fun question mem => (List.mem_append.1 mem).elim (first question) (next question)

theorem OnlyAsks.mono {p : Program Answer α} (h : p.OnlyAsks answer P) (weaker : ∀ q, P q → P' q) :
    p.OnlyAsks answer P' :=
  fun question mem => weaker question (h question mem)

end Program

namespace Command

/-- **The request that a file holds.** -/
def HoldsRequest (t : FileTree) (p : Path) (q : Request) : Prop :=
  ∃ bytes text, t.read p = .ok bytes ∧ Text.ofUtf8? bytes = some text ∧ Request.ofJson text = .ok q

/-- **Why a file holds no request:** it cannot be read, is no text, or its text is no request. -/
inductive HoldsNoRequest (t : FileTree) (p : Path) : Request.Error → Prop where
  | unreadable {cause : OsError} (h : t.read p = .error cause) : HoldsNoRequest t p (.unreadable p cause)
  | notText {bytes : Bytes} (read : t.read p = .ok bytes) (h : Text.ofUtf8? bytes = none) :
      HoldsNoRequest t p (.unreadable p .notText)
  | invalid {bytes : Bytes} {text : String} {e : Request.Error} (read : t.read p = .ok bytes)
      (said : Text.ofUtf8? bytes = some text) (h : Request.ofJson text = .error e) : HoldsNoRequest t p e

/-- **The action that a request file describes,** seen from the directory where the file really lies. -/
def Describes (t : FileTree) (execRoot : Option Path) (p : Path) (job : Job) : Prop :=
  ∃ q file, HoldsRequest t p q ∧ t.canonical p = .ok file ∧ q.toJob p.text (directoryOf file) execRoot = .ok job

/-- **Why a request file describes no action,** as the command says it. -/
inductive Offends (t : FileTree) (execRoot : Option Path) (p : Path) : Failure → Prop where
  | unloaded {e : Request.Error} (h : HoldsNoRequest t p e) :
      Offends t execRoot p (failureAt "Failed to load scan request" p (e.message :: e.cause?.toList))
  | unresolved {q : Request} {cause : OsError} (holds : HoldsRequest t p q) (h : t.canonical p = .error cause) :
      Offends t execRoot p (failureAt "Failed to resolve scan request path" p [cause.message])
  | jobless {q : Request} {file : Path} {e : Request.Error} (holds : HoldsRequest t p q)
      (resolved : t.canonical p = .ok file) (h : q.toJob p.text (directoryOf file) execRoot = .error e) :
      Offends t execRoot p (failureAt "Invalid scan request" p (e.message :: e.cause?.toList))

/-- The question is about the request file: what it holds, or where it really lies. -/
def About (p : Path) (question : Disk) : Prop :=
  question = .contents p ∨ question = .canonical p

variable {t : FileTree} {execRoot : Option Path} {p : Path}

/-! ## One file -/

theorem run_readFile (t : FileTree) (p : Path) : (Disk.readFile p).run t.answer = t.read p := rfl

theorem run_canonicalize (t : FileTree) (p : Path) : (Disk.canonicalize p).run t.answer = t.canonical p := rfl

theorem run_load (t : FileTree) (p : Path) : (Request.load p).run t.answer =
    match t.read p with
    | .error cause => .error (.unreadable p cause)
    | .ok bytes =>
      match Text.ofUtf8? bytes with
      | none => .error (.unreadable p .notText)
      | some text => Request.ofJson text := by
  unfold Request.load
  rw [Program.run_bind, run_readFile]
  cases t.read p with
  | error cause => rfl
  | ok bytes =>
    dsimp only
    cases Text.ofUtf8? bytes <;> rfl

theorem load_ok_iff {q : Request} : (Request.load p).run t.answer = .ok q ↔ HoldsRequest t p q := by
  rw [run_load]
  constructor
  · intro h
    split at h
    · cases h
    · rename_i bytes read
      split at h
      · cases h
      · rename_i text said
        exact ⟨bytes, text, read, said, h⟩
  · rintro ⟨bytes, text, read, said, parsed⟩
    simp only [read, said, parsed]

theorem load_error_iff {e : Request.Error} : (Request.load p).run t.answer = .error e ↔ HoldsNoRequest t p e := by
  rw [run_load]
  constructor
  · intro h
    split at h
    · rename_i cause read
      cases h
      exact .unreadable read
    · rename_i bytes read
      split at h
      · rename_i said
        cases h
        exact .notText read said
      · rename_i text said
        exact .invalid read said h
  · intro none
    cases none with
    | unreadable h => simp only [h]
    | notText read h => simp only [read, h]
    | invalid read said h => simp only [read, said, h]

theorem run_loadJob (t : FileTree) (execRoot : Option Path) (p : Path) : (loadJob execRoot p).run t.answer =
    match (Request.load p).run t.answer with
    | .error e => .error (failureAt "Failed to load scan request" p (e.message :: e.cause?.toList))
    | .ok q =>
      match t.canonical p with
      | .error cause => .error (failureAt "Failed to resolve scan request path" p [cause.message])
      | .ok file =>
        match q.toJob p.text (directoryOf file) execRoot with
        | .error e => .error (failureAt "Invalid scan request" p (e.message :: e.cause?.toList))
        | .ok job => .ok job := by
  unfold loadJob
  rw [Program.run_bind]
  cases (Request.load p).run t.answer with
  | error e => rfl
  | ok q =>
    dsimp only
    rw [Program.run_bind, run_canonicalize]
    cases t.canonical p with
    | error cause => rfl
    | ok file =>
      dsimp only
      cases q.toJob p.text (directoryOf file) execRoot <;> rfl

/-- **A file gives the action that it describes.** -/
theorem loadJob_ok_iff {job : Job} : (loadJob execRoot p).run t.answer = .ok job ↔ Describes t execRoot p job := by
  rw [run_loadJob]
  constructor
  · intro h
    split at h
    · cases h
    · rename_i q loaded
      split at h
      · cases h
      · rename_i file resolved
        split at h
        · cases h
        · rename_i made described
          cases h
          exact ⟨q, file, load_ok_iff.1 loaded, resolved, described⟩
  · rintro ⟨q, file, holds, resolved, described⟩
    simp only [load_ok_iff.2 holds, resolved, described]

/-- **A file gives the error by which it offends.** -/
theorem loadJob_error_iff {f : Failure} : (loadJob execRoot p).run t.answer = .error f ↔ Offends t execRoot p f := by
  rw [run_loadJob]
  constructor
  · intro h
    split at h
    · rename_i e loaded
      cases h
      exact .unloaded (load_error_iff.1 loaded)
    · rename_i q loaded
      split at h
      · rename_i cause resolved
        cases h
        exact .unresolved (load_ok_iff.1 loaded) resolved
      · rename_i file resolved
        split at h
        · rename_i e described
          cases h
          exact .jobless (load_ok_iff.1 loaded) resolved described
        · cases h
  · intro offends
    cases offends with
    | unloaded none => simp only [load_error_iff.2 none]
    | unresolved holds h => simp only [load_ok_iff.2 holds, h]
    | jobless holds resolved h => simp only [load_ok_iff.2 holds, resolved, h]

/-- A file that describes an action does not offend. -/
theorem Describes.not_offends {job : Job} (h : Describes t execRoot p job) {f : Failure} : ¬ Offends t execRoot p f := by
  intro offends
  have loaded := loadJob_ok_iff.2 h
  rw [loadJob_error_iff.2 offends] at loaded
  cases loaded

theorem Describes.requested {job : Job} (h : Describes t execRoot p job) : job.Requested := by
  obtain ⟨q, file, -, -, described⟩ := h
  exact ⟨q, p.text, directoryOf file, execRoot, described⟩

theorem Describes.name_eq {job : Job} (h : Describes t execRoot p job) : job.name = p.text := by
  obtain ⟨q, file, -, -, described⟩ := h
  unfold Request.toJob at described
  dsimp only at described
  generalize q.unit.toUnit _ _ = made at described
  cases made with
  | error e => cases described
  | ok u =>
    cases described
    rfl

theorem onlyAsks_load (t : FileTree) (p : Path) : (Request.load p).OnlyAsks t.answer (· = .contents p) := by
  refine Program.onlyAsks_bind (Program.onlyAsks_query rfl) ?_
  split
  · exact Program.onlyAsks_done _
  · split <;> exact Program.onlyAsks_done _

/-- **Loading a request file** asks about this file alone. -/
theorem onlyAsks_loadJob (t : FileTree) (execRoot : Option Path) (p : Path) :
    (loadJob execRoot p).OnlyAsks t.answer (About p) := by
  refine Program.onlyAsks_bind ((onlyAsks_load t p).mono fun _ => .inl) ?_
  split
  · exact Program.onlyAsks_done _
  · refine Program.onlyAsks_bind (Program.onlyAsks_query (.inr rfl)) ?_
    split
    · exact Program.onlyAsks_done _
    · split <;> exact Program.onlyAsks_done _

/-! ## All files -/

theorem run_loadJobs_cons (t : FileTree) (execRoot : Option Path) (p : Path) (rest : List Path) :
    (loadJobs execRoot (p :: rest)).run t.answer =
      match (loadJob execRoot p).run t.answer with
      | .error f => .error f
      | .ok job => ((loadJobs execRoot rest).run t.answer).map (job :: ·) := by
  conv => left; unfold loadJobs
  rw [Program.run_bind]
  cases (loadJob execRoot p).run t.answer with
  | error f => rfl
  | ok job =>
    dsimp only
    rw [Program.run_bind]
    cases (loadJobs execRoot rest).run t.answer <;> rfl

/-- **All request files describe actions, or one of them is the first that offends.**  In the second case no question is
asked about a file after it. -/
theorem loadJobs_cases (t : FileTree) (execRoot : Option Path) (ps : List Path) :
    (∃ jobs, List.Forall₂ (Describes t execRoot) ps jobs ∧ (loadJobs execRoot ps).run t.answer = .ok jobs) ∨
    ∃ before p after f, ps = before ++ p :: after ∧ (∀ q ∈ before, ∃ job, Describes t execRoot q job) ∧
      Offends t execRoot p f ∧ (loadJobs execRoot ps).run t.answer = .error f ∧
      (loadJobs execRoot ps).OnlyAsks t.answer (fun question => ∃ q ∈ before ++ [p], About q question) := by
  -- by induction on the files: either the first one offends, or what comes of the others decides
  induction ps with
  | nil => exact .inl ⟨[], .nil, rfl⟩
  | cons p rest ih =>
    rw [run_loadJobs_cons]
    cases loaded : (loadJob execRoot p).run t.answer with
    | error f =>
      refine .inr ⟨[], p, rest, f, rfl, fun q mem => absurd mem List.not_mem_nil, loadJob_error_iff.1 loaded, rfl, ?_⟩
      unfold loadJobs
      refine Program.onlyAsks_bind ((onlyAsks_loadJob t execRoot p).mono fun _ h => ⟨p, List.mem_singleton_self p, h⟩) ?_
      rw [loaded]
      exact Program.onlyAsks_done _
    | ok job =>
      have described := loadJob_ok_iff.1 loaded
      rcases ih with ⟨jobs, all, given⟩ | ⟨before, q, after, f, rfl, earlier, offends, given, asked⟩
      · refine .inl ⟨job :: jobs, .cons described all, ?_⟩
        rw [given]
        rfl
      · refine .inr ⟨p :: before, q, after, f, rfl, ?_, offends, ?_, ?_⟩
        · exact List.forall_mem_cons.2 ⟨⟨job, described⟩, earlier⟩
        · rw [given]
          rfl
        · unfold loadJobs
          refine Program.onlyAsks_bind ((onlyAsks_loadJob t execRoot p).mono fun _ h => ⟨p, List.mem_cons_self, h⟩) ?_
          rw [loaded]
          refine Program.onlyAsks_bind (asked.mono fun _ ⟨x, mem, h⟩ => ⟨x, List.mem_cons_of_mem _ mem, h⟩) ?_
          rw [given]
          exact Program.onlyAsks_done _

end Command
end IncludeClosure
