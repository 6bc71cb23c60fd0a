import Mathlib.Logic.Hydra
import Mathlib.Order.WellFounded
import IncludeClosure.Proofs.Request.Job
import IncludeClosure.Proofs.Scan.Pool
/-!
# Proofs.Scan.Dispatch — a batch gives the same results under every schedule

Three things make a batch independent of its schedule.  Every move keeps the batch **sound** (`Sound.moves`): its scans
do their errands, permits are neither lost nor made up, and what an action has ended with answers it.  Every move uses
up a step of some scan or brings an action closer to its end, so no schedule goes on for ever (`left_less`).  And as long
as not all actions are collected some move is possible (`Sound.canMove`).
-/
namespace IncludeClosure
namespace Program

variable {Q α : Type} {Answer : Q → Type}

/-- The program `rest` is what `p` goes on with after some answer. -/
def Resumes (rest p : Program Answer α) : Prop :=
  ∃ q resume answer, p = ask q resume ∧ rest = resume answer

theorem acc_resumes : ∀ p : Program Answer α, Acc Resumes p
  | done _ => ⟨_, by rintro _ ⟨_, _, _, h, -⟩; cases h⟩
  | ask q resume => ⟨_, by
      rintro _ ⟨_, _, answer, h, rfl⟩
      cases h
      exact acc_resumes (resume answer)⟩

instance : IsWellFounded (Program Answer α) Resumes :=
  ⟨⟨acc_resumes⟩⟩

end Program

namespace Pool

variable {α : Type} {t : FileTree}

/-- The scans of a pool, in no order. -/
def scans (p : Pool α) : Multiset (Scan α) :=
  (p.tasks.map Task.scan : List (Scan α))

/-- **A turn shortens one scan.** -/
theorem scans_turn {p : Pool α} {k : Nat} {task : Task α} (hk : p.tasks[k]? = some task)
    (waits : task.result? = none) : Relation.CutExpand Program.Resumes (p.turn t k).scans p.scans := by
  obtain ⟨action, scan⟩ := task
  cases scan with
  | done a => cases waits
  | ask step resume =>
    obtain ⟨hlt, htask⟩ := List.getElem?_eq_some_iff.1 hk
    let answer := ((ScanStore.reply { cache := p.cache, found := p.foundBy action } step).run t.answer).1
    refine ⟨{resume answer}, .ask step resume, ?_, ?_⟩
    · intro rest hr
      rw [Multiset.mem_singleton.1 hr]
      exact ⟨step, resume, answer, rfl, rfl⟩
    · have hl : k < (p.tasks.map Task.scan).length := by rw [List.length_map]; exact hlt
      have hturn : (p.turn t k).scans = ((p.tasks.map Task.scan).set k (resume answer) : List (Scan α)) := by
        unfold scans Pool.turn
        rw [hk, List.map_set]
      have hmap : (p.tasks.map Task.scan)[k] = .ask step resume := by rw [List.getElem_map, htask]
      have hset := List.set_perm_cons_eraseIdx hl (resume answer)
      have hget := List.getElem_cons_eraseIdx_perm hl
      rw [hmap] at hget
      rw [hturn, scans, Multiset.coe_eq_coe.2 hset, ← Multiset.coe_eq_coe.2 hget, ← Multiset.cons_coe,
        ← Multiset.cons_coe, ← Multiset.singleton_add, ← Multiset.singleton_add, add_assoc, add_comm,
        add_comm _ {Program.ask step resume}]

end Pool

namespace Batch

/-- **What each action of a batch gives on its own,** with a fresh cache: its name, and its inputs unless it fails. -/
def alone (t : FileTree) (jobs : List Job) : List (String × Option (List Artifact)) :=
  jobs.map (fun job => (job.name, ((job.inputs .empty).run t.answer).1.toOption))

/-- **A batch whose actions are scanned one after another,** with the cache that the earlier ones leave. -/
theorem scan_alone {t : FileTree} {past : List FileTree} (steady : t.Steady past) : ∀ {jobs : List Job}
    {cache : ScanCache}, (∀ job ∈ jobs, job.Requested) → cache.memo.Traced past →
    ((scan jobs cache).run t.answer).1.map (fun s => (s.name, s.outcome.toOption)) = alone t jobs
  | [], _, _, _ => rfl
  | job :: jobs, cache, requested, traced => by
    have hr : job.Requested := requested job List.mem_cons_self
    obtain ⟨answers, traced'⟩ := hr.answers steady traced
    have rest := scan_alone steady (fun other h => requested other (List.mem_cons_of_mem _ h)) traced'
    unfold scan
    rw [Program.run_bind, Program.run_bind]
    show (job.name, ((job.inputs cache).run t.answer).1.toOption) :: _ = (job.name, _) :: alone t jobs
    rw [rest, answers.agree (hr.answers_empty t)]

end Batch

namespace Stage

/-- How many moves of its own an action still has before it. -/
def weight : Stage → Nat
  | waiting => 3
  | running => 2
  | ended _ => 1
  | collected => 0

end Stage

namespace Dispatch

variable {t : FileTree} {past : List FileTree} {jobs : List Job} {parallelism : Nat} {d next : Dispatch}

/-- **What a move does,** and when it is possible. -/
inductive Moves (t : FileTree) (jobs : List Job) (d : Dispatch) : Dispatch → Prop where
  | enter {i : Nat} (stage : d.stages[i]? = some .waiting) (free : 0 < d.permits) :
      Moves t jobs d { d with permits := d.permits - 1, stages := d.stages.set i .running }
  | turn {k : Nat} {task : Task (Except ScanError Unit)} (scan : d.pool.tasks[k]? = some task)
      (waits : task.result? = none) (stage : d.stages[task.action]? = some .running) :
      Moves t jobs d { d with pool := d.pool.turn t k }
  | close {i : Nat} {job : Job} {outcome : Except ScanError (List Artifact)} (given : jobs[i]? = some job)
      (stage : d.stages[i]? = some .running)
      (verdict : d.pool.isDone i = true ∧ outcome = d.pool.outcome job i ∨ ∃ e ∈ d.pool.errorsOf i, outcome = .error e) :
      Moves t jobs d (d.close i { name := job.name, outcome })
  | collect {i : Nat} {scan : ActionScan} (stage : d.stages[i]? = some (.ended scan)) :
      Moves t jobs d { d with stages := d.stages.set i .collected, slots := d.slots.set i (some scan) }

theorem isRunning_iff {i : Nat} : d.isRunning i = true ↔ d.stages[i]? = some .running := by
  unfold isRunning
  cases d.stages[i]? with
  | none => simp
  | some stage => cases stage <;> simp [Stage.isRunning]

theorem moves_of_move {m : Move} (h : d.move t jobs m = some next) : Moves t jobs d next := by
  cases m with
  | enter i =>
    simp only [move] at h
    split at h
    · split at h
      · cases h
        exact .enter ‹_› ‹_›
      · cases h
    · cases h
  | turn k =>
    simp only [move] at h
    split at h
    · split at h
      · rename_i task hk hm
        cases h
        obtain ⟨waits, running⟩ := Bool.and_eq_true_iff.1 hm
        exact .turn hk (Option.isNone_iff_eq_none.1 waits) (isRunning_iff.1 running)
      · cases h
    · cases h
  | finish i =>
    simp only [move] at h
    split at h
    · split at h
      · rename_i job hj hm
        cases h
        obtain ⟨running, done⟩ := Bool.and_eq_true_iff.1 hm
        exact .close hj (isRunning_iff.1 running) (.inl ⟨done, rfl⟩)
      · cases h
    · cases h
  | fail i e =>
    simp only [move] at h
    split at h
    · split at h
      · rename_i job hj hm
        cases h
        obtain ⟨running, he⟩ := Bool.and_eq_true_iff.1 hm
        exact .close hj (isRunning_iff.1 running) (.inr ⟨e, of_decide_eq_true he, rfl⟩)
      · cases h
    · cases h
  | collect i =>
    simp only [move] at h
    split at h
    · cases h
      exact .collect ‹_›
    · cases h

/-- **What a batch has left:** the scans, and the moves that its actions have before them. -/
def left (d : Dispatch) : Multiset (Scan (Except ScanError Unit)) × Nat :=
  (d.pool.scans, (d.stages.map Stage.weight).sum)

/-- A scan is shorter, or all scans are as they were and an action has fewer moves before it. -/
def Less : Multiset (Scan (Except ScanError Unit)) × Nat → Multiset (Scan (Except ScanError Unit)) × Nat → Prop :=
  Prod.Lex (Relation.CutExpand Program.Resumes) (· < ·)

instance : IsWellFounded _ Less :=
  ⟨IsWellFounded.wf.prod_lex Nat.lt_wfRel.wf⟩

theorem weight_set {stages : List Stage} {i : Nat} {now : Stage} {later : Stage} (h : stages[i]? = some now)
    (lt : later.weight < now.weight) : ((stages.set i later).map Stage.weight).sum < (stages.map Stage.weight).sum := by
  induction stages generalizing i with
  | nil => cases h
  | cons stage stages ih =>
    cases i with
    | zero =>
      cases h
      simp only [List.set_cons_zero, List.map_cons, List.sum_cons]
      omega
    | succ i =>
      have := ih h
      simp only [List.set_cons_succ, List.map_cons, List.sum_cons]
      omega

/-- **Every move leaves less.** -/
theorem left_less (h : Moves t jobs d next) : Less next.left d.left := by
  cases h with
  | enter stage free => exact .right _ (weight_set stage (by decide))
  | turn scan waits stage => exact .left _ _ (Pool.scans_turn scan waits)
  | close given stage verdict => exact .right _ (weight_set stage Nat.one_lt_two)
  | collect stage => exact .right _ (weight_set stage Nat.zero_lt_one)

/-- The scan is of the action with the given number: it has its name, and an outcome that answers it. -/
def Right (t : FileTree) (jobs : List Job) (i : Nat) (scan : ActionScan) : Prop :=
  ∃ job, jobs[i]? = some job ∧ scan.name = job.name ∧ job.Answers t scan.outcome

/-- **A batch that nothing has gone wrong with.** -/
structure Sound (t : FileTree) (past : List FileTree) (jobs : List Job) (parallelism : Nat) (d : Dispatch) : Prop where
  working : ∃ records, d.pool.Working t past jobs records
  permits : d.permits + d.stages.countP Stage.isRunning = Batch.permits parallelism
  stages : d.stages.length = jobs.length
  slots : d.slots.length = jobs.length
  ended : ∀ i scan, d.stages[i]? = some (.ended scan) → Right t jobs i scan
  collected : ∀ i, d.stages[i]? = some .collected → ∃ scan, d.slots[i]? = some (some scan) ∧ Right t jobs i scan

theorem countP_set_add {stages : List Stage} {i : Nat} {now : Stage} (h : stages[i]? = some now) (later : Stage) :
    (stages.set i later).countP Stage.isRunning + now.isRunning.toNat
      = stages.countP Stage.isRunning + later.isRunning.toNat := by
  induction stages generalizing i with
  | nil => cases h
  | cons stage stages ih =>
    cases i with
    | zero =>
      cases h
      simp only [List.set_cons_zero, List.countP_cons]
      cases now.isRunning <;> cases later.isRunning <;> simp [Bool.toNat]
    | succ i =>
      have := ih h
      simp only [List.set_cons_succ, List.countP_cons]
      omega

theorem getElem?_set_eq {stages : List Stage} {i j : Nat} {later stage : Stage}
    (h : (stages.set i later)[j]? = some stage) : j = i ∧ stage = later ∨ j ≠ i ∧ stages[j]? = some stage := by
  rw [List.getElem?_set] at h
  by_cases hij : i = j
  · rw [if_pos hij] at h
    split at h
    · cases h
      exact .inl ⟨hij.symm, rfl⟩
    · cases h
  · rw [if_neg hij] at h
    exact .inr ⟨Ne.symm hij, h⟩

theorem Sound.start (requested : ∀ job ∈ jobs, job.Requested) {cache : ScanCache} (traced : cache.memo.Traced past)
    (h : start jobs cache parallelism = some d) : Sound t past jobs parallelism d := by
  unfold Dispatch.start at h
  split at h
  · cases h
    have waiting (i : Nat) (stage : Stage) (hs : (jobs.map (fun _ => Stage.waiting))[i]? = some stage) :
        stage = .waiting := by
      obtain ⟨job, -, rfl⟩ := List.mem_map.1 (List.mem_of_getElem? hs)
      rfl
    constructor
    case working =>
      exact ⟨_, .start (fun job hj => (requested job hj).running) (fun job hj => (requested job hj).placed) traced⟩
    case permits =>
      rw [List.countP_map, List.countP_eq_zero.2 fun job _ => by simp [Stage.isRunning]]
      rfl
    case stages => exact List.length_map _
    case slots => exact List.length_map _
    case ended =>
      intro i scan hs
      cases waiting i _ hs
    case collected =>
      intro i hs
      cases waiting i _ hs
  · cases h

/-- An action comes to its next stage; what it takes from the permits or gives back is what its stages hold. -/
theorem Sound.advance (h : Sound t past jobs parallelism d) {i : Nat} {now : Stage}
    (stage : d.stages[i]? = some now) (later : Stage) {permits : Nat}
    (held : permits + later.isRunning.toNat = d.permits + now.isRunning.toNat) {slots : List (Option ActionScan)}
    (length : slots.length = d.slots.length) (others : ∀ j, j ≠ i → slots[j]? = d.slots[j]?)
    (ended : ∀ scan, later = .ended scan → Right t jobs i scan)
    (collected : later = .collected → ∃ scan, slots[i]? = some (some scan) ∧ Right t jobs i scan) :
    Sound t past jobs parallelism { d with permits, stages := d.stages.set i later, slots } where
  working := h.working
  permits := by
    have hc := countP_set_add stage later
    have hp := h.permits
    dsimp only
    omega
  stages := List.length_set.trans h.stages
  slots := length.trans h.slots
  ended j scan hs := by
    rcases getElem?_set_eq hs with ⟨rfl, e⟩ | ⟨-, hs⟩
    · exact ended scan e.symm
    · exact h.ended j scan hs
  collected j hs := by
    rcases getElem?_set_eq hs with ⟨rfl, e⟩ | ⟨hj, hs⟩
    · exact collected e.symm
    · dsimp only
      rw [others j hj]
      exact h.collected j hs

/-- **Every move keeps a batch sound.** -/
theorem Sound.moves (steady : t.Steady past) (h : Sound t past jobs parallelism d) (m : Moves t jobs d next) :
    Sound t past jobs parallelism next := by
  obtain ⟨records, working⟩ := h.working
  cases m with
  | enter stage free =>
    have held : d.permits - 1 + 1 = d.permits + 0 := by omega
    exact h.advance stage .running held rfl (fun _ _ => rfl) nofun nofun
  | turn scan waits stage =>
    exact ⟨working.turn steady _, h.permits, h.stages, h.slots, h.ended, h.collected⟩
  | @close i job outcome given stage verdict =>
    refine h.advance stage (.ended { name := job.name, outcome }) rfl rfl (fun _ _ => rfl) ?_ nofun
    rintro _ ⟨⟩
    refine ⟨job, given, rfl, ?_⟩
    rcases verdict with ⟨done, rfl⟩ | ⟨e, he, rfl⟩
    · exact working.answers_of_done given done
    · exact working.answers_of_error given he
  | @collect i scan stage =>
    have hi : i < d.slots.length := by
      rw [h.slots, ← h.stages]
      exact (List.getElem?_eq_some_iff.1 stage).1
    refine h.advance stage .collected rfl List.length_set (fun j hj => List.getElem?_set_ne (Ne.symm hj)) nofun ?_
    intro _
    exact ⟨scan, List.getElem?_set_self hi, h.ended i scan stage⟩

/-- An action that runs can end, or one of its units can take a step. -/
theorem Sound.canMove_of_running (h : Sound t past jobs parallelism d) {i : Nat} (stage : d.stages[i]? = some .running) :
    ∃ m next, d.move t jobs m = some next := by
  have hi : i < jobs.length := by
    rw [← h.stages]
    exact (List.getElem?_eq_some_iff.1 stage).1
  by_cases done : d.pool.isDone i = true
  · refine ⟨.finish i, d.close i { name := jobs[i].name, outcome := d.pool.outcome jobs[i] i }, ?_⟩
    simp only [move, List.getElem?_eq_getElem hi]
    exact if_pos (by rw [isRunning_iff.2 stage, done]; rfl)
  · rw [Pool.isDone_iff] at done
    push Not at done
    obtain ⟨task, ht, rfl, waits⟩ := done
    obtain ⟨k, hk⟩ := List.mem_iff_getElem?.1 ht
    have unended : task.result? = none := by
      unfold Task.result?
      cases hs : task.scan with
      | ask step resume => rfl
      | done outcome => exact absurd hs (waits outcome)
    refine ⟨.turn k, { d with pool := d.pool.turn t k }, ?_⟩
    simp only [move, hk]
    exact if_pos (by rw [unended, isRunning_iff.2 stage]; rfl)

/-- **As long as an action is not collected, some move is possible:** when no permit is left, an action that holds one
can go on. -/
theorem Sound.canMove (h : Sound t past jobs parallelism d) (unfinished : ¬ d.Finished) :
    ∃ m next, d.move t jobs m = some next := by
  unfold Finished at unfinished
  push Not at unfinished
  obtain ⟨stage, hs, hne⟩ := unfinished
  obtain ⟨i, hi⟩ := List.mem_iff_getElem?.1 hs
  cases stage with
  | waiting =>
    by_cases free : 0 < d.permits
    · refine ⟨.enter i, { d with permits := d.permits - 1, stages := d.stages.set i .running }, ?_⟩
      simp only [move, hi]
      exact if_pos free
    · -- no permit is left, and there is at least one, so some action holds it
      have held : 0 < d.stages.countP Stage.isRunning := by
        have := h.permits
        have : 1 ≤ Batch.permits parallelism := le_max_right _ _
        omega
      obtain ⟨holder, hm, hr⟩ := List.countP_pos_iff.1 held
      obtain ⟨j, hj⟩ := List.mem_iff_getElem?.1 hm
      have running : holder = .running := by cases holder <;> first | rfl | cases hr
      rw [running] at hj
      exact h.canMove_of_running hj
  | running => exact h.canMove_of_running hi
  | ended scan =>
    refine ⟨.collect i, { d with stages := d.stages.set i .collected, slots := d.slots.set i (some scan) }, ?_⟩
    simp only [move, hi]
  | collected => exact absurd rfl hne

/-- **No schedule goes on for ever.** -/
theorem exists_stop (t : FileTree) (jobs : List Job) (run : Nat → Dispatch) :
    ∃ n, ∀ m, (run n).move t jobs m ≠ some (run (n + 1)) := by
  obtain ⟨n, hn⟩ := WellFounded.not_rel_apply_succ (r := Less) (fun n => (run n).left)
  exact ⟨n, fun m hm => hn (left_less (moves_of_move hm))⟩

theorem Sound.play (steady : t.Steady past) : ∀ {moves : List Move} {d : Dispatch},
    Sound t past jobs parallelism d → d.play t jobs moves = some next → Sound t past jobs parallelism next
  | [], _, h, hp => by
    cases hp
    exact h
  | m :: moves, d, h, hp => by
    obtain ⟨mid, hm, hp⟩ := Option.bind_eq_some_iff.1 hp
    exact (h.moves steady (moves_of_move hm)).play steady hp

/-- **A sound batch can be brought to its end.** -/
theorem Sound.exists_finish (steady : t.Steady past) (h : Sound t past jobs parallelism d) :
    ∃ moves final, d.play t jobs moves = some final ∧ final.Finished := by
  suffices step : ∀ left, ∀ d : Dispatch, d.left = left → Sound t past jobs parallelism d →
      ∃ moves final, d.play t jobs moves = some final ∧ final.Finished from step d.left d rfl h
  -- by induction on what is left: a batch that is not finished makes some move, and then has less left
  intro left
  induction left using IsWellFounded.induction Less with
  | ind left ih =>
    rintro d rfl h
    by_cases finished : d.Finished
    · exact ⟨[], d, rfl, finished⟩
    · obtain ⟨m, next, hm⟩ := h.canMove finished
      have moved := moves_of_move hm
      obtain ⟨moves, final, hp, hf⟩ := ih next.left (left_less moved) next rfl (h.moves steady moved)
      refine ⟨m :: moves, final, ?_, hf⟩
      rw [Dispatch.play, hm]
      exact hp

/-- Every slot of a finished batch holds a scan of its action. -/
theorem Sound.right_of_finished (h : Sound t past jobs parallelism d) (finished : d.Finished) {i : Nat} {job : Job}
    (given : jobs[i]? = some job) :
    ∃ scan, d.slots[i]? = some (some scan) ∧ scan.name = job.name ∧ job.Answers t scan.outcome := by
  have hi : i < d.stages.length := by
    rw [h.stages]
    exact (List.getElem?_eq_some_iff.1 given).1
  have hs : d.stages[i]? = some .collected := by
    rw [List.getElem?_eq_getElem hi, finished _ (List.getElem_mem hi)]
  obtain ⟨scan, hslot, job', given', hname, answers⟩ := h.collected i hs
  rw [given] at given'
  cases given'
  exact ⟨scan, hslot, hname, answers⟩

theorem Sound.results_eq (h : Sound t past jobs parallelism d) (finished : d.Finished)
    (requested : ∀ job ∈ jobs, job.Requested) :
    (d.results jobs).map (fun r => (r.name, r.outcome.toOption)) = Batch.alone t jobs ∧
    ∀ r ∈ d.results jobs, r.outcome ≠ .error .lost := by
  constructor
  · refine List.ext_getElem? fun i => ?_
    unfold results Batch.alone
    rw [List.getElem?_map, List.getElem?_map, List.getElem?_zipWith, List.getElem?_map]
    cases given : jobs[i]? with
    | none => cases d.slots[i]? <;> rfl
    | some job =>
      obtain ⟨scan, hslot, hname, answers⟩ := h.right_of_finished finished given
      have fresh := (requested job (List.mem_of_getElem? given)).answers_empty t
      rw [hslot]
      simp only [Option.map_some, resultIn, hname]
      rw [← answers.agree fresh]
      cases scan.outcome <;> rfl
  · intro r hr
    obtain ⟨i, hi⟩ := List.mem_iff_getElem?.1 hr
    unfold results at hi
    rw [List.getElem?_zipWith, List.getElem?_map] at hi
    cases given : jobs[i]? with
    | none =>
      rw [given] at hi
      cases e : d.slots[i]? <;> rw [e] at hi <;> cases hi
    | some job =>
      obtain ⟨scan, hslot, -, -⟩ := h.right_of_finished finished given
      rw [given, hslot] at hi
      cases hi
      cases e : scan.outcome <;> simp [resultIn, e, Except.mapError]

/-- **A batch is independent of its schedule.**  It begins whenever there are as many permits as it asks for, no
schedule goes on for ever, and as long as an action is not collected something can happen.  When all of them are, there
is one result for each action, in the order of the actions and under their names, and it has the inputs that the action
gives on its own with a fresh cache, or an error if the action gives one. -/
theorem results_of_play (t : FileTree) (jobs : List Job) (requested : ∀ job ∈ jobs, job.Requested) (parallelism : Nat)
    (fits : Batch.canStart parallelism = true) {past : List FileTree} (steady : t.Steady past) (cache : ScanCache)
    (traced : cache.memo.Traced past) :
    ∃ begun, start jobs cache parallelism = some begun ∧
      (∀ run : Nat → Dispatch, ∃ n, ∀ m, (run n).move t jobs m ≠ some (run (n + 1))) ∧
      ∀ moves d, begun.play t jobs moves = some d →
        (d.Finished ∨ ∃ m next, d.move t jobs m = some next) ∧
        (d.Finished → (d.results jobs).map (fun r => (r.name, r.outcome.toOption)) = Batch.alone t jobs ∧
          ∀ r ∈ d.results jobs, r.outcome ≠ .error .lost) := by
  have hstart : start jobs cache parallelism = some _ := if_pos fits
  refine ⟨_, hstart, exists_stop t jobs, fun moves d hp => ?_⟩
  have sound : Sound t past jobs parallelism d := (Sound.start requested traced hstart).play steady hp
  refine ⟨?_, fun finished => sound.results_eq finished requested⟩
  by_cases finished : d.Finished
  · exact .inl finished
  · exact .inr (sound.canMove finished)

end Dispatch

theorem Dispatch.results_of_play_of_two :
    (∀ job ∈ [Sample.job, Sample.job], job.Requested) ∧ Batch.canStart 1 = true ∧
    ∃ begun moves final, start [Sample.job, Sample.job] .empty 1 = some begun ∧
      begun.play Sample.tree [Sample.job, Sample.job] moves = some final ∧ final.Finished ∧
      (final.results [Sample.job, Sample.job]).map (fun r => (r.name, r.outcome.toOption)) =
        [("//:a", some [Sample.aCc, Sample.bH, Sample.gH]), ("//:a", some [Sample.aCc, Sample.bH, Sample.gH])] := by
  have requested : ∀ job ∈ [Sample.job, Sample.job], job.Requested := by
    intro job hj
    have hj : job = Sample.job := by simpa using hj
    rw [hj]
    exact Sample.requested_job
  have traced : ScanCache.empty.memo.Traced [Sample.tree] := FileMemo.traced_empty _
  obtain ⟨begun, hstart, -, h⟩ :=
    results_of_play Sample.tree _ requested 1 (by decide) (.self Sample.tree) .empty traced
  obtain ⟨moves, final, hp, finished⟩ := (Sound.start requested traced hstart).exists_finish (.self Sample.tree)
  refine ⟨requested, by decide, begun, moves, final, hstart, hp, finished, ?_⟩
  have answer := Sample.eq_of_answers (Sample.requested_job.answers_empty Sample.tree)
  rw [((h moves final hp).2 finished).1]
  simp only [Batch.alone, List.map_cons, List.map_nil, answer]
  rfl

end IncludeClosure
