import Mathlib.Data.List.Perm.Basic
import Mathlib.Logic.Function.Basic
import IncludeClosure.Proofs.Scan.Action
import IncludeClosure.Scan.Dispatch
/-!
# Proofs.Scan.Pool — scans that take turns do what they ensure

Each scan of a pool has an **errand**: a unit of an action.  Whoever takes the next step, every scan still does its
errand, and an action has found what its scans have recorded and nothing else (`Working.turn`).  So an action whose
scans are done, or one of whose scans has failed, is answered as it has to be (`Working.answers_of_done`,
`Working.answers_of_error`).
-/
namespace IncludeClosure

open Scan (Ensures ensures_mono)

/-- A unit to scan, for the action with the given number. -/
structure Errand where
  job : Job
  action : Nat
  unit : CompilationUnit

namespace Errand

/-- The units of all actions of a batch. -/
def ofJobs (jobs : List Job) : List Errand :=
  jobs.zipIdx.flatMap fun (job, action) => job.unit.scannables.map (fun unit => { job, action, unit })

theorem mem_ofJobs {jobs : List Job} {e : Errand} :
    e ∈ ofJobs jobs ↔ jobs[e.action]? = some e.job ∧ e.unit ∈ e.job.unit.scannables := by
  unfold ofJobs
  rw [List.mem_flatMap]
  constructor
  · rintro ⟨⟨job, action⟩, hj, he⟩
    obtain ⟨unit, hu, rfl⟩ := List.mem_map.1 he
    exact ⟨List.mk_mem_zipIdx_iff_getElem?.1 hj, hu⟩
  · rintro ⟨hj, hu⟩
    exact ⟨(e.job, e.action), List.mk_mem_zipIdx_iff_getElem?.2 hj, List.mem_map.2 ⟨e.unit, hu, rfl⟩⟩

/-- **The scan does its errand** when `before` is what it has recorded so far. -/
structure DoneBy (e : Errand) (t : FileTree) (before : List Artifact) (task : Task (Except ScanError Unit)) : Prop where
  action : task.action = e.action
  ensures : Ensures t task.scan (fun more outcome => e.job.ClosesIn t e.unit (before ++ more) outcome)

end Errand

namespace Pool

/-- Some scan of the action has recorded the artifact, the `k`-th scan of all having recorded `records k`. -/
def RecordedFor (jobs : List Job) (records : Nat → List Artifact) (i : Nat) (a : Artifact) : Prop :=
  ∃ k e, (Errand.ofJobs jobs)[k]? = some e ∧ e.action = i ∧ a ∈ records k

/-- **Every scan of the pool does its errand,** the `k`-th having recorded `records k` so far, and an action has found
what its scans have recorded. -/
structure Working (t : FileTree) (past : List FileTree) (jobs : List Job) (records : Nat → List Artifact)
    (p : Pool (Except ScanError Unit)) : Prop where
  traced : p.cache.memo.Traced past
  actions : p.found.length = jobs.length
  errands : p.tasks.length = (Errand.ofJobs jobs).length
  doneBy : ∀ k (e : Errand) task, (Errand.ofJobs jobs)[k]? = some e → p.tasks[k]? = some task →
    e.DoneBy t (records k) task
  found : ∀ i, i < jobs.length → ∀ a, a ∈ p.foundBy i ↔ RecordedFor jobs records i a

variable {t : FileTree} {past : List FileTree} {jobs : List Job} {records : Nat → List Artifact}
  {p : Pool (Except ScanError Unit)}

theorem recordedFor_update {k : Nat} {e : Errand} (he : (Errand.ofJobs jobs)[k]? = some e) {more : List Artifact}
    {i : Nat} {a : Artifact} : RecordedFor jobs (Function.update records k (records k ++ more)) i a ↔
      RecordedFor jobs records i a ∨ e.action = i ∧ a ∈ more := by
  constructor
  · rintro ⟨k', e', he', hi, ha⟩
    by_cases hk : k' = k
    · subst hk
      rw [he] at he'
      cases he'
      rw [Function.update_self] at ha
      exact (List.mem_append.1 ha).imp (fun ha => ⟨k', e, he, hi, ha⟩) fun ha => ⟨hi, ha⟩
    · rw [Function.update_of_ne hk] at ha
      exact .inl ⟨k', e', he', hi, ha⟩
  · rintro (⟨k', e', he', hi, ha⟩ | ⟨hi, ha⟩)
    · refine ⟨k', e', he', hi, ?_⟩
      by_cases hk : k' = k
      · subst hk
        rw [Function.update_self]
        exact List.mem_append_left _ ha
      · rw [Function.update_of_ne hk]
        exact ha
    · refine ⟨k, e, he, hi, ?_⟩
      rw [Function.update_self]
      exact List.mem_append_right _ ha

theorem tasks_ofJobs (jobs : List Job) (cache : ScanCache) : (ofJobs jobs cache).tasks =
    (Errand.ofJobs jobs).map (fun e =>
      { action := e.action, scan := Scan.unit e.job.context e.job.unit.builtinDirs e.unit }) := by
  unfold ofJobs Errand.ofJobs
  rw [List.map_flatMap]
  simp only [List.map_map]
  rfl

theorem foundBy_ofJobs (jobs : List Job) (cache : ScanCache) (i : Nat) : (ofJobs jobs cache).foundBy i = .empty := by
  unfold foundBy ofJobs
  rw [List.getElem?_map]
  cases jobs[i]? <;> rfl

/-- **A pool that begins** with a cache that can be traced. -/
theorem Working.start (running : ∀ job ∈ jobs, job.context.interrupted = false)
    (placed : ∀ job ∈ jobs, ∀ u ∈ job.unit.scannables, u.generated.Placed) {cache : ScanCache}
    (traced : cache.memo.Traced past) : Working t past jobs (fun _ => []) (ofJobs jobs cache) where
  traced := traced
  actions := List.length_map _
  errands := by rw [tasks_ofJobs, List.length_map]
  doneBy k e task he hk := by
    rw [tasks_ofJobs, List.getElem?_map, he] at hk
    cases hk
    obtain ⟨hj, hu⟩ := Errand.mem_ofJobs.1 (List.mem_of_getElem? he)
    have hj := List.mem_of_getElem? hj
    exact ⟨rfl, Scan.ensures_unit e.job (running e.job hj) (placed e.job hj e.unit hu)⟩
  found i _ a := by
    rw [foundBy_ofJobs]
    constructor
    · intro ha
      exact absurd ha (ArtifactSet.notMem_empty a)
    · rintro ⟨_, _, _, _, ha⟩
      exact absurd ha List.not_mem_nil

theorem Working.errand (h : Working t past jobs records p) {k : Nat} {task : Task (Except ScanError Unit)}
    (hk : p.tasks[k]? = some task) : ∃ e, (Errand.ofJobs jobs)[k]? = some e ∧ e.DoneBy t (records k) task := by
  obtain ⟨hlt, -⟩ := List.getElem?_eq_some_iff.1 hk
  have he := List.getElem?_eq_getElem (h.errands ▸ hlt)
  exact ⟨_, he, h.doneBy k _ task he hk⟩

theorem Working.action_lt (h : Working t past jobs records p) {k : Nat} {task : Task (Except ScanError Unit)}
    (hk : p.tasks[k]? = some task) : task.action < jobs.length := by
  obtain ⟨e, he, doneBy⟩ := h.errand hk
  obtain ⟨hj, -⟩ := Errand.mem_ofJobs.1 (List.mem_of_getElem? he)
  rw [doneBy.action]
  exact (List.getElem?_eq_some_iff.1 hj).1

theorem getElem?_set_getD {found : List ArtifactSet} {action : Nat} (h : action < found.length) (now : ArtifactSet)
    (i : Nat) : ((found.set action now)[i]?).getD .empty = if i = action then now else (found[i]?).getD .empty := by
  by_cases hi : i = action
  · subst hi
    rw [if_pos rfl, List.getElem?_set_self h]
    rfl
  · rw [if_neg hi, List.getElem?_set_ne (Ne.symm hi)]

/-- **One turn,** whoever takes it. -/
theorem Working.turn (steady : t.Steady past) (h : Working t past jobs records p) (k : Nat) :
    ∃ records, Working t past jobs records (p.turn t k) := by
  unfold Pool.turn
  split
  · rename_i action step resume hk
    obtain ⟨e, he, doneBy⟩ := h.errand hk
    obtain ⟨truthful, rest⟩ := doneBy.ensures
    have haction : action = e.action := doneBy.action
    have hlt : action < jobs.length := h.action_lt hk
    obtain ⟨may, traced, hfound⟩ := Scan.reply_traced steady (s := { cache := p.cache, found := p.foundBy action })
      h.traced truthful
    refine ⟨Function.update records k (records k ++ step.recorded), ?_⟩
    constructor
    case traced => exact traced
    case actions => exact List.length_set.trans h.actions
    case errands => exact List.length_set.trans h.errands
    case doneBy =>
      -- the scan that took the turn has recorded more and does the rest; the others do not notice
      intro k' e' task he' hk'
      dsimp only at hk'
      by_cases hkk : k' = k
      · subst hkk
        rw [he] at he'
        cases he'
        rw [List.getElem?_set_self (List.getElem?_eq_some_iff.1 hk).1] at hk'
        cases hk'
        rw [Function.update_self]
        refine ⟨haction, ensures_mono (rest _ may) ?_⟩
        intro more outcome closes
        rw [List.append_assoc]
        exact closes
      · rw [List.getElem?_set_ne (Ne.symm hkk)] at hk'
        rw [Function.update_of_ne hkk]
        exact h.doneBy k' e' task he' hk'
    case found =>
      intro i hi a
      show a ∈ ((p.found.set action _)[i]?).getD .empty ↔ _
      rw [getElem?_set_getD (by rw [h.actions]; exact hlt), recordedFor_update he]
      by_cases hia : i = action
      · subst hia
        rw [if_pos rfl, hfound, h.found i hi, and_iff_right haction.symm]
      · rw [if_neg hia, ← h.found i hi, or_iff_left fun hm => hia (hm.1.symm.trans haction.symm)]
        rfl
  · exact ⟨records, h⟩

theorem mem_errorsOf {i : Nat} {failure : ScanError} : failure ∈ p.errorsOf i ↔
    ∃ task ∈ p.tasks, task.action = i ∧ task.scan = .done (.error failure) := by
  unfold errorsOf
  rw [List.mem_filterMap]
  refine exists_congr fun task => ?_
  rw [List.mem_filter, beq_iff_eq, and_assoc]
  refine and_congr_right fun _ => and_congr_right fun _ => ?_
  unfold Task.result?
  obtain ⟨action, scan⟩ := task
  cases scan with
  | ask step resume => simp
  | done outcome => cases outcome <;> simp

theorem isDone_iff {i : Nat} : p.isDone i = true ↔
    ∀ task ∈ p.tasks, task.action = i → ∃ outcome, task.scan = .done outcome := by
  unfold isDone
  rw [List.all_eq_true]
  refine forall_congr' fun task => imp_congr_right fun _ => ?_
  unfold Task.result?
  obtain ⟨action, scan⟩ := task
  by_cases hi : action = i
  · cases scan <;> simp [hi]
  · simp [hi]

/-- **An action one of whose scans has failed** may be answered with the error of that scan. -/
theorem Working.answers_of_error (h : Working t past jobs records p) {i : Nat} {job : Job} (hj : jobs[i]? = some job)
    {failure : ScanError} (hf : failure ∈ p.errorsOf i) : job.Answers t (.error failure) := by
  obtain ⟨task, ht, rfl, hs⟩ := mem_errorsOf.1 hf
  obtain ⟨k, hk⟩ := List.mem_iff_getElem?.1 ht
  obtain ⟨e, he, doneBy⟩ := h.errand hk
  obtain ⟨hj', hu⟩ := Errand.mem_ofJobs.1 (List.mem_of_getElem? he)
  rw [doneBy.action, hj'] at hj
  cases hj
  have closes := doneBy.ensures
  rw [hs] at closes
  exact .ofError hu (closes.failed failure rfl)

/-- Every scan of an action has ended well when all of them are done and none has failed. -/
theorem Working.closesIn (h : Working t past jobs records p) {k : Nat} {e : Errand}
    (he : (Errand.ofJobs jobs)[k]? = some e) (done : p.isDone e.action = true) (well : p.errorsOf e.action = []) :
    e.job.ClosesIn t e.unit (records k) (.ok ()) := by
  have hk := List.getElem?_eq_getElem (h.errands.symm ▸ (List.getElem?_eq_some_iff.1 he).1)
  obtain ⟨hwhose, closes⟩ := h.doneBy k e _ he hk
  obtain ⟨outcome, hs⟩ := isDone_iff.1 done _ (List.mem_of_getElem? hk) hwhose
  rw [hs] at closes
  cases outcome with
  | ok =>
    have closes : e.job.ClosesIn t e.unit (records k ++ []) (.ok ()) := closes
    rw [List.append_nil] at closes
    exact closes
  | error failure =>
    have hm := mem_errorsOf.2 ⟨_, List.mem_of_getElem? hk, hwhose, hs⟩
    rw [well] at hm
    exact absurd hm List.not_mem_nil

/-- **An action all whose scans are done** may be answered with their outcome. -/
theorem Working.answers_of_done (h : Working t past jobs records p) {i : Nat} {job : Job} (hj : jobs[i]? = some job)
    (done : p.isDone i = true) : job.Answers t (p.outcome job i) := by
  have hi : i < jobs.length := (List.getElem?_eq_some_iff.1 hj).1
  unfold outcome
  cases well : p.errorsOf i with
  | cons failure rest => exact h.answers_of_error hj (by rw [well]; exact List.mem_cons_self)
  | nil =>
    have scanned (u : CompilationUnit) (hu : u ∈ job.unit.scannables) :
        ∃ k, (Errand.ofJobs jobs)[k]? = some ⟨job, i, u⟩ ∧ job.ClosesIn t u (records k) (.ok ()) := by
      have hm : (⟨job, i, u⟩ : Errand) ∈ Errand.ofJobs jobs := Errand.mem_ofJobs.2 ⟨hj, hu⟩
      obtain ⟨k, he⟩ := List.mem_iff_getElem?.1 hm
      have closes := h.closesIn he done well
      exact ⟨k, he, closes⟩
    refine .ofFound ?_ fun a => ?_
    · intro u hu a ha
      obtain ⟨k, -, closes⟩ := scanned u hu
      exact (closes.complete rfl a ha).2
    · rw [h.found i hi]
      constructor
      · rintro ⟨k, e, he, rfl, ha⟩
        obtain ⟨hj', hu⟩ := Errand.mem_ofJobs.1 (List.mem_of_getElem? he)
        rw [hj'] at hj
        cases hj
        exact ⟨e.unit, hu, (h.closesIn he done well).reached a ha⟩
      · rintro ⟨u, hu, ha⟩
        obtain ⟨k, he, closes⟩ := scanned u hu
        exact ⟨k, _, he, rfl, (closes.complete rfl a ha).1.resolve_left List.not_mem_nil⟩

end Pool
end IncludeClosure
