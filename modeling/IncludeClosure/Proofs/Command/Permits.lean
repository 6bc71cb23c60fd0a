import IncludeClosure.Proofs.Artifact.Relocate
import IncludeClosure.Proofs.Command.Scan
/-!
# Proofs.Command.Permits — how many permits a batch asks for

A batch asks for one permit at least, whatever number it is given, and there are not more than `Batch.mostPermits`.  A
batch that is given more does not begin (`Dispatch.start_eq_none_iff`); every other one can be brought to its end, and
has a result for each action then.  The number of a scan command is the one of the command line, or else the one of the
environment (`Command.askedFor`).  Neither is held below the limit, so the command aborts just when the number is above
it (`Command.aborts_iff`).
-/
namespace IncludeClosure

theorem Batch.permits_pos (n : Nat) : 1 ≤ permits n :=
  Nat.le_max_right n 1

theorem Batch.canStart_iff {n : Nat} : canStart n = true ↔ n ≤ mostPermits := by
  unfold canStart permits
  rw [decide_eq_true_iff, Nat.max_le]
  exact and_iff_left (by decide)

namespace Dispatch

variable {jobs : List Job} {cache : ScanCache} {n : Nat} {begun : Dispatch}

theorem start_eq_none_iff : start jobs cache n = none ↔ Batch.mostPermits < n := by
  rw [← Nat.not_le, ← Batch.canStart_iff]
  unfold start
  split <;> simp [*]

/-- **A batch that begins is usable:** it has as many permits as it was given, or one, it can be brought to its end, and
whenever it is, every action has a result under its name. -/
theorem usable_of_start {t : FileTree} {past : List FileTree} (steady : t.Steady past)
    (requested : ∀ job ∈ jobs, job.Requested) (traced : cache.memo.Traced past) (begins : start jobs cache n = some begun) :
    begun.permits = max n 1 ∧ (∃ moves final, begun.play t jobs moves = some final ∧ final.Finished) ∧
      ∀ moves final, begun.play t jobs moves = some final → final.Finished →
        (final.results jobs).map (·.name) = jobs.map (·.name) ∧ ∀ r ∈ final.results jobs, r.outcome ≠ .error .lost := by
  have sound : Sound t past jobs n begun := .start requested traced begins
  refine ⟨?_, sound.exists_finish steady, fun moves final played finished => ?_⟩
  · unfold start at begins
    split at begins
    · cases begins
      rfl
    · cases begins
  · obtain ⟨same, kept⟩ := (sound.play steady played).results_eq finished requested
    have names := congrArg (List.map Prod.fst) same
    unfold Batch.alone at names
    rw [List.map_map, List.map_map] at names
    exact ⟨names, kept⟩

end Dispatch

namespace Command

variable {t : FileTree} {environment : Option String} {a : ScanArguments}

/-- **The number that is asked for,** on the command line or else in the environment. -/
def askedFor (environment : Option String) (a : ScanArguments) : Option Nat :=
  a.parallelism.or (environment.bind fun text => Text.word? (Text.trim text.toList))

/-- Settings let a batch start if not too much is asked for, and there are not too many processors. -/
theorem canStart_settings {processors : Nat} (few : processors ≤ Batch.mostPermits) :
    Batch.canStart ((settings environment a).parallelism.getD processors) = true ↔
      ∀ n, askedFor environment a = some n → n ≤ Batch.mostPermits := by
  rw [Batch.canStart_iff]
  unfold settings askedFor Settings.ofEnvironment
  cases a.parallelism with
  | some n => simp [Batch.mostPermits]
  | none =>
    cases environment.bind fun text => Text.word? (Text.trim text.toList) with
    | none => simpa [Settings.default] using few
    | some n =>
      cases n with
      | zero => simpa [Settings.default] using few
      | succ n => simp

/-- **A scan command aborts** just when all its requests describe actions and more is asked for than there is. -/
theorem aborts_iff {arguments : List String} (asks : Invocation.ofArguments? arguments = some (.scan a))
    (elapsed : String) :
    (run environment arguments).run t.answer elapsed = Halt.tooManyPermits.outcome ↔
      (∃ execRoot jobs, a.execRoot.map t.canonical = execRoot.map .ok ∧
        List.Forall₂ (Describes t execRoot) a.requests jobs) ∧
      ∃ n, askedFor environment a = some n ∧ Batch.mostPermits < n := by
  have few : (∀ n, askedFor environment a = some n → n ≤ Batch.mostPermits) ↔
      ¬ ∃ n, askedFor environment a = some n ∧ Batch.mostPermits < n := by simp
  rw [run_eq asks]
  rcases scan_cases t environment a with ⟨looked, f, refused, run, -⟩ | ⟨execRoot, jobs, resolved, described, run⟩
  · rw [run]
    constructor
    · intro same
      have status : 1 = 101 := congrArg Outcome.status same
      exact absurd status (by decide)
    · rintro ⟨⟨execRoot, jobs, resolved, described⟩, -⟩
      have each : ∀ p ∈ a.requests, ∃ job, Describes t execRoot p job := fun p mem => by
        obtain ⟨job, -, describes⟩ := forall₂_exists described p mem
        exact ⟨job, describes⟩
      exact absurd each (refused.not_described resolved)
  · rw [run]
    have starts := @canStart_settings environment a 1 (by decide)
    by_cases begins : Batch.canStart ((settings environment a).parallelism.getD 1) = true
    · rw [if_pos begins]
      refine iff_of_false (fun same => ?_) fun ⟨_, more⟩ => few.1 (starts.1 begins) more
      -- a report leaves the status 0 or 1 behind
      have status : (if _ = 0 then 0 else 1) = 101 := congrArg Outcome.status same
      split at status <;> cases status
    · rw [if_neg begins]
      refine iff_of_true rfl ⟨⟨execRoot, jobs, resolved, described⟩, ?_⟩
      exact not_not.1 (mt few.2 (mt starts.2 begins))

/-- **Which numbers are usable.**  A batch asks for one permit at least.  It begins unless it is given more than there
is; then it has as many permits as it was given, or one, it can be brought to its end, and every action has a result
there.  Settings are usable unless the command line, or without it the environment, asks for more than there is.  A scan
command whose requests all describe actions aborts just then, and never otherwise. -/
theorem usable_upto_mostPermits (n : Nat) (environment : Option String) (arguments : List String) (a : ScanArguments)
    (asks : Invocation.ofArguments? arguments = some (.scan a)) (t : FileTree) :
    1 ≤ Batch.permits n ∧
    (∀ (jobs : List Job) (cache : ScanCache), Dispatch.start jobs cache n = none ↔ Batch.mostPermits < n) ∧
    (∀ past, t.Steady past → ∀ jobs : List Job, (∀ job ∈ jobs, job.Requested) → ∀ cache : ScanCache,
      cache.memo.Traced past → ∀ begun, Dispatch.start jobs cache n = some begun →
        begun.permits = max n 1 ∧ (∃ moves final, begun.play t jobs moves = some final ∧ final.Finished) ∧
        ∀ moves final, begun.play t jobs moves = some final → final.Finished →
          (final.results jobs).map (·.name) = jobs.map (·.name) ∧
          ∀ r ∈ final.results jobs, r.outcome ≠ .error .lost) ∧
    (∀ processors, processors ≤ Batch.mostPermits →
      (Batch.canStart ((settings environment a).parallelism.getD processors) = true ↔
        ∀ m, askedFor environment a = some m → m ≤ Batch.mostPermits)) ∧
    ∀ elapsed, (run environment arguments).run t.answer elapsed = Halt.tooManyPermits.outcome ↔
      (∃ execRoot jobs, a.execRoot.map t.canonical = execRoot.map .ok ∧
        List.Forall₂ (Describes t execRoot) a.requests jobs) ∧
      ∃ m, askedFor environment a = some m ∧ Batch.mostPermits < m :=
  ⟨Batch.permits_pos n, fun _ _ => Dispatch.start_eq_none_iff,
    fun _ steady _ requested _ traced _ begins => Dispatch.usable_of_start steady requested traced begins,
    fun _ few => canStart_settings few, aborts_iff asks⟩

/-- As many permits as there are, from the environment, and a batch of two that is given none. -/
theorem usable_upto_mostPermits_bounds :
    Invocation.ofArguments? Sample.arguments = some (.scan Sample.scanArguments) ∧
    Batch.canStart ((settings (some " 2305843009213693951\n") Sample.scanArguments).parallelism.getD 8) = true ∧
    (∀ elapsed, (run (some " 2305843009213693951\n") Sample.arguments).run Sample.tree.answer elapsed ≠
      Halt.tooManyPermits.outcome) ∧
    ∃ begun moves final, Dispatch.start [Sample.job, Sample.job] .empty 0 = some begun ∧ begun.permits = 1 ∧
      begun.play Sample.tree [Sample.job, Sample.job] moves = some final ∧ final.Finished ∧
      (final.results [Sample.job, Sample.job]).map (·.name) = ["//:a", "//:a"] := by
  have asks : Invocation.ofArguments? Sample.arguments = some (.scan Sample.scanArguments) := by decide +kernel
  have asked : askedFor (some " 2305843009213693951\n") Sample.scanArguments = some 2305843009213693951 := by
    decide +kernel
  obtain ⟨-, refused, usable, settings, aborts⟩ :=
    usable_upto_mostPermits 0 (some " 2305843009213693951\n") _ _ asks Sample.tree
  refine ⟨asks, (settings 8 (by decide)).2 fun m number => ?_, fun elapsed same => ?_, ?_⟩
  · rw [asked] at number
    cases number
    exact Nat.le_refl _
  · obtain ⟨-, m, number, above⟩ := (aborts elapsed).1 same
    rw [asked] at number
    cases number
    exact absurd above (by decide)
  · have requested : ∀ job ∈ [Sample.job, Sample.job], job.Requested := by
      simpa using Sample.requested_job
    have begins : Dispatch.start [Sample.job, Sample.job] .empty 0 ≠ none := mt (refused _ _).1 (by decide)
    obtain ⟨begun, begins⟩ := Option.ne_none_iff_exists'.1 begins
    obtain ⟨permits, ⟨moves, final, played, finished⟩, results⟩ :=
      usable [Sample.tree] (.self _) _ requested _ (FileMemo.traced_empty _) begun begins
    exact ⟨begun, moves, final, begins, permits, played, finished, (results moves final played finished).1⟩

/-- **One permit more than there are** is asked for: no batch begins, and the command aborts. -/
theorem unusable_above_mostPermits :
    (settings (some "2305843009213693952") Sample.scanArguments).parallelism = some 2305843009213693952 ∧
    Batch.mostPermits < Batch.permits 2305843009213693952 ∧
    Dispatch.start [Sample.job] .empty 2305843009213693952 = none ∧
    Halt.tooManyPermits.outcome.status = 101 ∧
    ∀ elapsed, (run (some "2305843009213693952") Sample.arguments).run Sample.tree.answer elapsed =
      Halt.tooManyPermits.outcome := by
  have asks : Invocation.ofArguments? Sample.arguments = some (.scan Sample.scanArguments) := by decide +kernel
  refine ⟨by decide +kernel, by decide, Dispatch.start_eq_none_iff.2 (by decide), rfl, fun elapsed => ?_⟩
  rw [run_eq asks]
  rcases scan_cases Sample.tree (some "2305843009213693952") Sample.scanArguments with
    ⟨looked, f, refused, -⟩ | ⟨execRoot, jobs, -, -, run⟩
  · exact absurd refused Sample.not_refused
  · rw [run, if_neg (by decide +kernel)]

end Command
end IncludeClosure
