import IncludeClosure.Proofs.Command.Load
import IncludeClosure.Proofs.Command.Report
import IncludeClosure.Proofs.Scan.Dispatch
/-!
# Proofs.Command.Scan — what the scan command leaves behind

A scan is refused before anything is scanned, for the execution root or for the first request file that offends
(`Command.Refused`), or all its request files describe actions, and then the report has one entry for each argument in
order, with what that action is answered with (`Command.Scanned`).  The command scans the actions one after another with
one cache (`Batch.answered_scan`); when they run at the same time, their results come in any order, and the slots in
which they are collected make the report just as well (`Dispatch.Sound.answered`).
-/
namespace IncludeClosure

/-! ## The actions of a batch -/

theorem forall₂_comp {α β γ : Type} {R : α → β → Prop} {S : β → γ → Prop} {xs : List α} {ys : List β}
    {zs : List γ} (first : List.Forall₂ R xs ys) (second : List.Forall₂ S ys zs) :
    List.Forall₂ (fun x z => ∃ y, R x y ∧ S y z) xs zs := by
  induction first generalizing zs with
  | nil =>
    cases second
    exact .nil
  | cons hr _ ih =>
    cases second with
    | cons hs rest => exact .cons ⟨_, hr, hs⟩ (ih rest)

/-- Slots that are all filled, each as its member asks for. -/
theorem exists_of_filled {α β : Type} {R : α → β → Prop} : ∀ {xs : List α} {slots : List (Option β)},
    slots.length = xs.length → (∀ (i : Nat) (x : α), xs[i]? = some x → ∃ z, slots[i]? = some (some z) ∧ R x z) →
    ∃ zs, slots = zs.map some ∧ List.Forall₂ R xs zs
  | [], slots, same, _ => by
    rw [List.length_eq_zero_iff.1 same]
    exact ⟨[], rfl, .nil⟩
  | x :: xs, [], same, _ => absurd same (by simp)
  | x :: xs, slot :: slots, same, filled => by
    obtain ⟨z, found, first⟩ := filled 0 x rfl
    obtain ⟨zs, rest, all⟩ := exists_of_filled (Nat.succ.inj same) fun i y given => filled (i + 1) y given
    have slot_eq : slot = some z := Option.some.inj found
    exact ⟨z :: zs, by rw [slot_eq, rest, List.map_cons], .cons first all⟩

namespace Batch

/-- **An action and what it is answered with,** under its name. -/
def Answered (t : FileTree) (job : Job) (s : ActionScan) : Prop :=
  s.name = job.name ∧ job.Answers t s.outcome

/-- **Every action of a batch is answered,** whatever traceable cache it begins with. -/
theorem answered_scan {t : FileTree} {past : List FileTree} (steady : t.Steady past) : ∀ {jobs : List Job},
    (∀ job ∈ jobs, job.Requested) → ∀ {cache : ScanCache}, cache.memo.Traced past →
    List.Forall₂ (Answered t) jobs ((scan jobs cache).run t.answer).1
  | [], _, _, _ => .nil
  | job :: rest, requested, cache, traced => by
    obtain ⟨answers, traced⟩ := (requested job List.mem_cons_self).answers steady traced
    have others := answered_scan steady (fun other mem => requested other (List.mem_cons_of_mem _ mem)) traced
    unfold scan
    rw [Program.run_bind]
    dsimp only
    rw [Program.run_bind]
    exact .cons ⟨rfl, answers⟩ others

end Batch

/-- **The slots of a finished batch** hold the answers of all its actions. -/
theorem Dispatch.Sound.answered {t : FileTree} {past : List FileTree} {jobs : List Job} {parallelism : Nat}
    {d : Dispatch} (h : Sound t past jobs parallelism d) (finished : d.Finished) :
    ∃ scans, d.slots = scans.map some ∧ List.Forall₂ (Batch.Answered t) jobs scans :=
  exists_of_filled h.slots fun _ _ given => h.right_of_finished finished given

namespace Command

variable {t : FileTree} {environment : Option String} {a : ScanArguments}

/-! ## Refused or loaded -/

/-- **Why a scan is refused,** and the request files that it has looked at by then. -/
inductive Refused (t : FileTree) (a : ScanArguments) : List Path → Failure → Prop where
  | execRoot {root : Path} {cause : OsError} (given : a.execRoot = some root) (h : t.canonical root = .error cause) :
      Refused t a [] (failureAt "Failed to resolve execution root" root [cause.message])
  /-- The first request file that offends. -/
  | request {execRoot : Option Path} {before after : List Path} {p : Path} {f : Failure}
      (resolved : a.execRoot.map t.canonical = execRoot.map .ok) (split : a.requests = before ++ p :: after)
      (earlier : ∀ q ∈ before, ∃ job, Describes t execRoot q job) (h : Offends t execRoot p f) :
      Refused t a (before ++ [p]) f

/-- A scan is not refused when all its request files describe actions. -/
theorem Refused.not_described {looked : List Path} {f : Failure} (refused : Refused t a looked f)
    {execRoot : Option Path} (resolved : a.execRoot.map t.canonical = execRoot.map .ok) :
    ¬ ∀ p ∈ a.requests, ∃ job, Describes t execRoot p job := by
  intro described
  cases refused with
  | execRoot given h =>
    rw [given, Option.map_some, h] at resolved
    cases execRoot <;> cases resolved
  | request resolved' split _ offends =>
    cases Option.map_injective (fun _ _ => Except.ok.inj) (resolved.symm.trans resolved')
    obtain ⟨job, describes⟩ := described _ (split ▸ List.mem_append_right _ List.mem_cons_self)
    exact describes.not_offends offends

/-- The question is about the execution root or about one of some request files. -/
def Loading (a : ScanArguments) (looked : List Path) (question : Disk) : Prop :=
  (∃ root, a.execRoot = some root ∧ question = .canonical root) ∨ ∃ q ∈ looked, About q question

/-- **The answer to a request file** among the results of a scan, under the text of its argument. -/
def Scanned (t : FileTree) (execRoot : Option Path) (p : Path) (s : ActionScan) : Prop :=
  s.name = p.text ∧ ∃ job, Describes t execRoot p job ∧ job.Answers t s.outcome

theorem scanned_of_answered {execRoot : Option Path} {ps : List Path} {jobs : List Job} {scans : List ActionScan}
    (described : List.Forall₂ (Describes t execRoot) ps jobs) (answered : List.Forall₂ (Batch.Answered t) jobs scans) :
    List.Forall₂ (Scanned t execRoot) ps scans :=
  (forall₂_comp described answered).imp fun _ _ ⟨job, hd, ha⟩ => ⟨ha.1.trans hd.name_eq, job, hd, ha.2⟩

theorem requested_of_described {execRoot : Option Path} {ps : List Path} {jobs : List Job}
    (described : List.Forall₂ (Describes t execRoot) ps jobs) : ∀ job ∈ jobs, job.Requested := by
  induction described with
  | nil => exact fun job mem => absurd mem List.not_mem_nil
  | cons first _ ih => exact List.forall_mem_cons.2 ⟨first.requested, ih⟩

theorem resolveOverride_cases (t : FileTree) (given : Option Path) :
    (∃ execRoot, given.map t.canonical = execRoot.map .ok ∧ (resolveOverride given).run t.answer = .ok execRoot) ∨
    ∃ root cause, given = some root ∧ t.canonical root = .error cause ∧
      (resolveOverride given).run t.answer =
        .error (failureAt "Failed to resolve execution root" root [cause.message]) := by
  cases given with
  | none => exact .inl ⟨none, rfl, rfl⟩
  | some root =>
    unfold resolveOverride
    rw [Program.run_bind, run_canonicalize]
    cases found : t.canonical root with
    | error cause => exact .inr ⟨root, cause, rfl, found, rfl⟩
    | ok resolved => exact .inl ⟨some resolved, congrArg some found, rfl⟩

theorem onlyAsks_resolveOverride (t : FileTree) (given : Option Path) :
    (resolveOverride given).OnlyAsks t.answer (fun question => ∃ root, given = some root ∧ question = .canonical root) := by
  cases given with
  | none => exact Program.onlyAsks_done _
  | some root =>
    refine Program.onlyAsks_bind (Program.onlyAsks_query ⟨root, rfl, rfl⟩) ?_
    split <;> exact Program.onlyAsks_done _

/-- **A scan is refused with nothing asked but what loading asks,** or its actions are scanned, if they can start. -/
theorem scan_cases (t : FileTree) (environment : Option String) (a : ScanArguments) :
    (∃ looked f, Refused t a looked f ∧ (scan environment a).run t.answer = .error (.failed f) ∧
      (scan environment a).OnlyAsks t.answer (Loading a looked)) ∨
    ∃ execRoot jobs, a.execRoot.map t.canonical = execRoot.map .ok ∧
      List.Forall₂ (Describes t execRoot) a.requests jobs ∧
      (scan environment a).run t.answer =
        if Batch.canStart ((settings environment a).parallelism.getD 1) then
          .ok
            { scans := ((Batch.scan jobs .empty).run t.answer).1
              scanners := ((Batch.scan jobs .empty).run t.answer).2.scanners.size }
        else .error .tooManyPermits := by
  have first (looked : List Path) : (resolveOverride a.execRoot).OnlyAsks t.answer (Loading a looked) :=
    (onlyAsks_resolveOverride t a.execRoot).mono fun _ => .inl
  unfold scan
  rw [Program.run_bind]
  rcases resolveOverride_cases t a.execRoot with ⟨execRoot, resolved, overridden⟩ | ⟨root, cause, given, h, overridden⟩
  · rcases loadJobs_cases t execRoot a.requests with
      ⟨jobs, described, loaded⟩ | ⟨before, p, after, f, split, earlier, h, loaded, asked⟩
    · refine .inr ⟨execRoot, jobs, resolved, described, ?_⟩
      rw [overridden]
      dsimp only
      rw [Program.run_bind, loaded]
      dsimp only
      split
      · rw [Program.run_bind]
        rfl
      · rfl
    · refine .inl ⟨before ++ [p], f, .request resolved split earlier h, ?_, Program.onlyAsks_bind (first _) ?_⟩
      · rw [overridden]
        dsimp only
        rw [Program.run_bind, loaded]
        rfl
      · rw [overridden]
        refine Program.onlyAsks_bind (asked.mono fun _ => .inr) ?_
        rw [loaded]
        exact Program.onlyAsks_done _
  · refine .inl ⟨[], _, .execRoot given h, ?_, Program.onlyAsks_bind (first _) ?_⟩
    · rw [overridden]
      rfl
    · rw [overridden]
      exact Program.onlyAsks_done _

theorem run_eq {arguments : List String} (asks : Invocation.ofArguments? arguments = some (.scan a)) (t : FileTree) :
    (run environment arguments).run t.answer =
      match (scan environment a).run t.answer with
      | .error halt => fun _ => halt.outcome
      | .ok report => fun elapsed => report.outcome a.format elapsed := by
  unfold run
  rw [asks]
  dsimp only
  rw [Program.run_bind]
  cases (scan environment a).run t.answer <;> rfl

theorem onlyAsks_run {arguments : List String} (asks : Invocation.ofArguments? arguments = some (.scan a))
    {P : Disk → Prop} (h : (scan environment a).OnlyAsks t.answer P) : (run environment arguments).OnlyAsks t.answer P := by
  unfold run
  rw [asks]
  refine Program.onlyAsks_bind h ?_
  split <;> exact Program.onlyAsks_done _

/-- **What `scan` leaves behind.**  Either it is refused, and then it has asked about the execution root and the request
files up to the first that offends, but nothing is scanned and nothing written except that error; or all requests
describe actions, and then it reports each of them, in the order of the arguments, with its inputs or its error.  When
the actions run at the same time, the same holds of the results that are collected, under every schedule and in both
formats.  A batch that asks for more permits than there can be does not start. -/
theorem run_scan {arguments : List String} (asks : Invocation.ofArguments? arguments = some (.scan a)) (t : FileTree) :
    (∃ looked f, Refused t a looked f ∧
      (∀ elapsed, (run environment arguments).run t.answer elapsed = { status := 1, stdout := "", stderr := f.text }) ∧
      (run environment arguments).OnlyAsks t.answer (Loading a looked)) ∨
    ∃ execRoot jobs, a.execRoot.map t.canonical = execRoot.map .ok ∧
      List.Forall₂ (Describes t execRoot) a.requests jobs ∧
      if Batch.canStart ((settings environment a).parallelism.getD 1) then
        (∃ scans scanners, List.Forall₂ (Scanned t execRoot) a.requests scans ∧
          ∀ elapsed, Reports (scans.map .ofScan) scanners elapsed a.format
            ((run environment arguments).run t.answer elapsed)) ∧
        ∀ begun moves d, Dispatch.start jobs .empty ((settings environment a).parallelism.getD 1) = some begun →
          begun.play t jobs moves = some d → d.Finished →
          ∃ scans, d.slots = scans.map some ∧ List.Forall₂ (Scanned t execRoot) a.requests scans ∧
            ∀ scanners elapsed format, Reports (scans.map .ofScan) scanners elapsed format
              (ScanReport.outcome { scans, scanners } format elapsed)
      else ∀ elapsed, (run environment arguments).run t.answer elapsed = Halt.tooManyPermits.outcome := by
  rw [run_eq asks]
  rcases scan_cases t environment a with ⟨looked, f, refused, run, asked⟩ | ⟨execRoot, jobs, resolved, described, run⟩
  · rw [run]
    exact .inl ⟨looked, f, refused, fun _ => rfl, onlyAsks_run asks asked⟩
  · refine .inr ⟨execRoot, jobs, resolved, described, ?_⟩
    rw [run]
    have requested := requested_of_described described
    have traced : ScanCache.empty.memo.Traced [t] := FileMemo.traced_empty [t]
    split
    case isTrue =>
      constructor
      · have answered := Batch.answered_scan (.self t) requested traced
        exact ⟨_, _, scanned_of_answered described answered, ScanReport.reports { scans := _, scanners := _ } a.format⟩
      · intro begun moves d started played finished
        have sound := (Dispatch.Sound.start requested traced started).play (.self t) played
        obtain ⟨scans, slots, answered⟩ := sound.answered finished
        exact ⟨scans, slots, scanned_of_answered described answered,
          fun scanners elapsed format => ScanReport.reports { scans, scanners } format elapsed⟩
    case isFalse => exact fun _ => rfl

/-! ## One request twice, and one that fails between -/

namespace Sample

/-- Two request files for one source file each; one of the source files is missing. -/
def tree : FileTree where
  nodes :=
    [(["w"], .directory), (["w", "a.cc"], .file { bytes := Text.utf8Bytes "#include \"b.h\"\n", modified := 0 }),
     (["w", "b.h"], .file { bytes := [], modified := 0 }),
     (["w", "a.json"], .file
        { bytes := Text.utf8Bytes "\x7b\"version\":1,\"unit\":\x7b\"mainSource\":\"a.cc\"\x7d\x7d", modified := 0 }),
     (["w", "x.json"], .file
        { bytes := Text.utf8Bytes "\x7b\"version\":1,\"unit\":\x7b\"mainSource\":\"x.cc\"\x7d\x7d", modified := 0 })]
  workingDirectory := ["w"]

def arguments : List String :=
  ["scan", "--format=json", "a.json", "x.json", "a.json"]

def scanArguments : ScanArguments where
  requests := [⟨"a.json"⟩, ⟨"x.json"⟩, ⟨"a.json"⟩]
  execRoot := none
  format := .json
  parallelism := none
  task := none

theorem exists_describes : ∀ p ∈ scanArguments.requests, ∃ job, Describes tree none p job := by
  have loaded : ∀ p ∈ scanArguments.requests, ((loadJob none p).run tree.answer).isOk = true := by decide +kernel
  intro p mem
  have ok := loaded p mem
  cases run : (loadJob none p).run tree.answer with
  | error f =>
    rw [run] at ok
    cases ok
  | ok job => exact ⟨job, loadJob_ok_iff.1 run⟩

theorem not_refused {looked : List Path} {f : Failure} : ¬ Refused tree scanArguments looked f := by
  intro refused
  have resolved : scanArguments.execRoot.map tree.canonical = (none : Option Path).map .ok := rfl
  exact refused.not_described resolved exists_describes

end Sample

/-- The action that fails hides neither of the others. -/
theorem run_scan_repeated :
    Invocation.ofArguments? Sample.arguments = some (.scan Sample.scanArguments) ∧
    ∃ scans scanners, List.Forall₂ (Scanned Sample.tree none) Sample.scanArguments.requests scans ∧
      (∀ elapsed, Reports (scans.map .ofScan) scanners elapsed .json
        ((run none Sample.arguments).run Sample.tree.answer elapsed)) ∧
      ((run none Sample.arguments).run Sample.tree.answer "").status = 1 := by
  have asks : Invocation.ofArguments? Sample.arguments = some (.scan Sample.scanArguments) := by decide +kernel
  refine ⟨asks, ?_⟩
  rcases @run_scan none _ _ asks Sample.tree with ⟨looked, f, refused, -⟩ | ⟨execRoot, jobs, resolved, -, loaded⟩
  · exact absurd refused Sample.not_refused
  · cases execRoot with
    | some root => cases resolved
    | none =>
      rw [if_pos (by decide)] at loaded
      obtain ⟨⟨scans, scanners, scanned, reports⟩, -⟩ := loaded
      exact ⟨scans, scanners, scanned, reports, by decide +kernel⟩

/-- **Nothing is reported** where one permit more is asked for than there are, though all requests describe actions. -/
theorem no_report_of_tooManyPermits :
    Invocation.ofArguments? Sample.arguments = some (.scan Sample.scanArguments) ∧
    (∀ p ∈ Sample.scanArguments.requests, ∃ job, Describes Sample.tree none p job) ∧
    ∀ elapsed, ((run (some "2305843009213693952") Sample.arguments).run Sample.tree.answer elapsed).status = 101 ∧
      ∀ entries scanners, ¬ Reports entries scanners elapsed .json
        ((run (some "2305843009213693952") Sample.arguments).run Sample.tree.answer elapsed) := by
  have asks : Invocation.ofArguments? Sample.arguments = some (.scan Sample.scanArguments) := by decide +kernel
  refine ⟨asks, Sample.exists_describes, fun elapsed => ?_⟩
  rw [run_eq asks]
  rcases scan_cases Sample.tree (some "2305843009213693952") Sample.scanArguments with
    ⟨looked, f, refused, -⟩ | ⟨execRoot, jobs, -, -, run⟩
  · exact absurd refused Sample.not_refused
  · rw [run, if_neg (by decide +kernel)]
    refine ⟨rfl, fun entries scanners reports => ?_⟩
    have none : entries? "" = none := by decide
    cases none.symm.trans (reports.json rfl).1

end Command
end IncludeClosure
