import IncludeClosure.Scan.Action
/-!
# Scan.Batch — scanning many actions

A batch scans its actions with one cache.  Every action keeps its own outcome, in the order of the actions, so one that
fails hides no other.  How many actions run at once is a number of permits; the system that hands the permits out has
an upper limit, and a batch that asks for more does not start.
-/
namespace IncludeClosure

structure ActionScan where
  name : String
  outcome : Except ScanError (List Artifact)

namespace ActionScan

def succeeded (s : ActionScan) : Bool :=
  s.outcome.isOk

end ActionScan

namespace Batch

def mostPermits : Nat :=
  (Nat.pow 2 64 - 1) / 8

/-- **How many actions run at once:** at least one. -/
def permits (parallelism : Nat) : Nat :=
  max parallelism 1

def canStart (parallelism : Nat) : Bool :=
  permits parallelism ≤ mostPermits

/-- **The outcomes of some actions,** in their order, and the cache afterwards. -/
def scan : List Job → ScanCache → Program Disk.Answer (List ActionScan × ScanCache)
  | [], cache => pure ([], cache)
  | job :: rest, cache => do
    let (outcome, cache) ← job.inputs cache
    let (others, cache) ← scan rest cache
    pure ({ name := job.name, outcome } :: others, cache)

end Batch
end IncludeClosure
