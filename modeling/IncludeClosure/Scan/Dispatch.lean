import IncludeClosure.Scan.Batch
import IncludeClosure.Scan.Pool
/-!
# Scan.Dispatch — a batch whose actions run at the same time

Every action of a batch is a task of its own.  It waits for a permit, its units take turns with whatever else is being
scanned, and when its scan is over it gives the permit back.  The batch collects the tasks in the order in which they
end and puts each result in the slot of its action.  A **move** is what can happen next; which of the possible moves
comes is left open, so what holds after all sequences of moves holds under every schedule.
-/
namespace IncludeClosure

inductive BatchError where
  | scan (error : ScanError)
  /-- The task of the action never reported. -/
  | lost
deriving DecidableEq

structure BatchResult where
  name : String
  outcome : Except BatchError (List Artifact)

inductive Stage where
  | waiting
  | running
  /-- The scan is over and has not been collected. -/
  | ended (scan : ActionScan)
  | collected

namespace Stage

def isRunning : Stage → Bool
  | running => true
  | _ => false

end Stage

inductive Move where
  | enter (action : Nat)
  | turn (task : Nat)
  | finish (action : Nat)
  /-- An action ends with the error of one of its units, and leaves the other units as they are. -/
  | fail (action : Nat) (error : ScanError)
  | collect (action : Nat)

structure Dispatch where
  pool : Pool (Except ScanError Unit)
  permits : Nat
  stages : List Stage
  slots : List (Option ActionScan)

namespace Pool

def isDone {α : Type} (p : Pool α) (action : Nat) : Bool :=
  p.tasks.all (fun task => task.action != action || task.result?.isSome)

end Pool

namespace Dispatch

/-- **A batch that begins,** if there are as many permits as it asks for. -/
def start (jobs : List Job) (cache : ScanCache) (parallelism : Nat) : Option Dispatch :=
  if Batch.canStart parallelism then
    some
      { pool := .ofJobs jobs cache
        permits := Batch.permits parallelism
        stages := jobs.map (fun _ => .waiting)
        slots := jobs.map (fun _ => none) }
  else none

def isRunning (d : Dispatch) (action : Nat) : Bool :=
  d.stages[action]?.any Stage.isRunning

def close (d : Dispatch) (action : Nat) (scan : ActionScan) : Dispatch :=
  { d with permits := d.permits + 1, stages := d.stages.set action (.ended scan) }

/-- **One move,** if it is possible. -/
def move (t : FileTree) (jobs : List Job) (d : Dispatch) : Move → Option Dispatch
  | .enter i =>
    match d.stages[i]? with
    | some .waiting =>
      if 0 < d.permits then some { d with permits := d.permits - 1, stages := d.stages.set i .running } else none
    | _ => none
  | .turn k =>
    match d.pool.tasks[k]? with
    | some task =>
      if task.result?.isNone && d.isRunning task.action then some { d with pool := d.pool.turn t k } else none
    | none => none
  | .finish i =>
    match jobs[i]? with
    | some job =>
      if d.isRunning i && d.pool.isDone i then
        some (d.close i { name := job.name, outcome := d.pool.outcome job i })
      else none
    | none => none
  | .fail i e =>
    match jobs[i]? with
    | some job =>
      if d.isRunning i && decide (e ∈ d.pool.errorsOf i) then
        some (d.close i { name := job.name, outcome := .error e })
      else none
    | none => none
  | .collect i =>
    match d.stages[i]? with
    | some (.ended scan) => some { d with stages := d.stages.set i .collected, slots := d.slots.set i (some scan) }
    | _ => none

/-- **The moves of a schedule,** if all of them are possible. -/
def play (t : FileTree) (jobs : List Job) : Dispatch → List Move → Option Dispatch
  | d, [] => some d
  | d, m :: moves => (d.move t jobs m).bind (fun next => play t jobs next moves)

def Finished (d : Dispatch) : Prop :=
  ∀ stage ∈ d.stages, stage = .collected

/-- The result in a slot; an empty slot means that the action is lost. -/
def resultIn (slot : Option ActionScan) (name : String) : BatchResult :=
  match slot with
  | some scan => { name := scan.name, outcome := scan.outcome.mapError .scan }
  | none => { name, outcome := .error .lost }

/-- **The results of a batch,** one for each action, in the order of the actions. -/
def results (d : Dispatch) (jobs : List Job) : List BatchResult :=
  d.slots.zipWith resultIn (jobs.map (·.name))

end Dispatch
end IncludeClosure
