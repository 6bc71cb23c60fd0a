import IncludeClosure.Scan.Pool
/-!
# Scan.Supplier — calls for scanners that run at the same time

A supplier hands out scanners from one cache.  A call for one takes up to three steps: it looks for the scanner in use,
builds one if there is none, and puts that to use unless another call was faster.  Calls begin at any moment and take
turns between their steps.  The supplier is cleared only while no call is under way, and then it knows of no call.
-/
namespace IncludeClosure

namespace SearchDirs

/-- **What a scanner is kept under:** the components of the directories, list by list and in order. -/
def key (dirs : SearchDirs) : List (List Component) × List (List Component) :=
  (dirs.quote.map Path.components, dirs.angle.map Path.components)

end SearchDirs

/-- A supplier, and the calls since it was cleared last: the `k`-th scan of the pool is the call for `requests[k]`. -/
structure Supplier where
  pool : Pool Scanner
  requests : List SearchDirs

namespace Supplier

inductive Event where
  | call (dirs : SearchDirs)
  | turn (call : Nat)
  | clear
deriving DecidableEq

def ofCache (cache : ScanCache) : Supplier where
  pool := { cache, found := [], tasks := [] }
  requests := []

/-- A supplier without scanners; files may have been remembered already. -/
def start (memo : FileMemo) : Supplier :=
  ofCache { memo, scanners := .empty }

/-- **One event,** if it is possible. -/
def step (t : FileTree) (s : Supplier) : Event → Option Supplier
  | .call dirs =>
    some
      { pool := { s.pool with tasks := s.pool.tasks ++ [{ action := 0, scan := Scan.scannerFor dirs }] }
        requests := s.requests ++ [dirs] }
  | .turn k => some { s with pool := s.pool.turn t k }
  | .clear => if s.pool.tasks.all (·.result?.isSome) then some (ofCache s.pool.cache.clear) else none

/-- **The events of a history,** if all of them are possible. -/
def play (t : FileTree) : Supplier → List Event → Option Supplier
  | s, [] => some s
  | s, e :: events => (s.step t e).bind (fun next => play t next events)

/-- What the `k`-th call has returned, if it has. -/
def returned? (s : Supplier) (k : Nat) : Option Scanner :=
  s.pool.tasks[k]?.bind Task.result?

/-- The requests of the calls that have returned. -/
def answered (s : Supplier) : List SearchDirs :=
  (s.requests.zipIdx.filter (fun call => (s.returned? call.2).isSome)).map (·.1)

/-- **The number of scanners in use.** -/
def size (s : Supplier) : Nat :=
  s.pool.cache.scanners.size

end Supplier
end IncludeClosure
