import IncludeClosure.Scan.Action
/-!
# Scan.Pool — scans that take turns

The units of an action are scanned at the same time, and so are actions.  A **pool** holds the scans under way.  They
share the cache, and the scans of one action share what the action has found.  In one turn one of them takes one step.
A **schedule** says whose turn it is, so what holds after every schedule holds in whatever order the scans proceed.
-/
namespace IncludeClosure

structure Task (α : Type) where
  action : Nat
  scan : Scan α

namespace Task

def result? {α : Type} (task : Task α) : Option α :=
  match task.scan with
  | .done a => some a
  | .ask _ _ => none

end Task

structure Pool (α : Type) where
  cache : ScanCache
  found : List ArtifactSet
  tasks : List (Task α)

namespace Pool

variable {α : Type}

def foundBy (p : Pool α) (action : Nat) : ArtifactSet :=
  p.found[action]?.getD .empty

/-- **One turn of the `k`-th scan** on a tree: its next step, if it is not done. -/
def turn (t : FileTree) (p : Pool α) (k : Nat) : Pool α :=
  match p.tasks[k]? with
  | some { action, scan := .ask step resume } =>
    let (answer, store) := (ScanStore.reply { cache := p.cache, found := p.foundBy action } step).run t.answer
    { cache := store.cache
      found := p.found.set action store.found
      tasks := p.tasks.set k { action, scan := resume answer } }
  | _ => p

/-- **The turns of a schedule,** which names one scan after another. -/
def play (t : FileTree) (p : Pool α) (schedule : List Nat) : Pool α :=
  schedule.foldl (turn t) p

def Finished (p : Pool α) : Prop :=
  ∀ task ∈ p.tasks, task.result?.isSome

/-- **The scans of some actions,** none of which has begun. -/
def ofJobs (jobs : List Job) (cache : ScanCache) : Pool (Except ScanError Unit) where
  cache := cache
  found := jobs.map (fun _ => .empty)
  tasks := jobs.zipIdx.flatMap fun (job, action) =>
    job.unit.scannables.map (fun u => { action, scan := Scan.unit job.context job.unit.builtinDirs u })

def errorsOf (p : Pool (Except ScanError Unit)) (action : Nat) : List ScanError :=
  (p.tasks.filter (·.action == action)).filterMap fun task =>
    match task.result? with
    | some (.error e) => some e
    | _ => none

/-- **The outcome of an action whose scans are done:** an error if one of them has failed, its inputs otherwise. -/
def outcome (p : Pool (Except ScanError Unit)) (job : Job) (action : Nat) : Except ScanError (List Artifact) :=
  match p.errorsOf action with
  | e :: _ => .error e
  | [] => (p.foundBy action).inputs (Scan.builtinRoots job.context job.unit)

end Pool
end IncludeClosure
