import IncludeClosure.Scan.Closure
/-!
# Scan.Action — the inputs of one action

An action is scanned unit by unit: the primary unit, then its own auxiliaries.  All of them record into one set.  What
lies under an absolute directory of the toolchain is dropped, and what is left must lie under a root with a parent; the
inputs are what remains, in artifact order.
-/
namespace IncludeClosure
namespace Scan

/-- **The scanner for a configuration:** the one in use, or else a new one, unless another scan was faster. -/
def scannerFor (dirs : SearchDirs) : Scan Scanner := do
  match ← step (.findScanner dirs) with
  | some scanner => pure scanner
  | none => do
    let scanner ← step (.buildScanner dirs)
    step (.keepScanner scanner)

def recordAll : List Artifact → Scan Unit
  | [] => pure ()
  | a :: rest => do
    step (.record a)
    recordAll rest

/-- The search configuration of a unit, all directories being seen from the execution root. -/
def searchDirs (context : Context) (builtinDirs : List Path) (u : CompilationUnit) : SearchDirs :=
  { quote := Path.relativeTo context.execRoot u.quoteDirs
    angle := Path.relativeTo context.execRoot (u.angleDirs builtinDirs) }

/-- **The scan of one unit,** which uses the toolchain directories of the primary one. -/
def unit (context : Context) (builtinDirs : List Path) (u : CompilationUnit) : Scan (Except ScanError Unit) := do
  if context.interrupted then return .error .interrupted
  else
    let scanner ← scannerFor (searchDirs context builtinDirs u)
    recordAll u.sources
    let lookup : Lookup := { dirs := scanner.dirs, generated := u.generated, context }
    lookup.closure u.mainSource u.sources u.forcedIncludes

def eachUnit (context : Context) (builtinDirs : List Path) : List CompilationUnit → Scan (Except ScanError Unit)
  | [] => pure (.ok ())
  | u :: rest => do
    match ← unit context builtinDirs u with
    | .error e => pure (.error e)
    | .ok () => eachUnit context builtinDirs rest

def builtinRoots (context : Context) (u : CompilationUnit) : List Path :=
  Path.relativeTo context.execRoot (u.builtinDirs.filter (·.isAbsolute))

/-- **The scans of all units of an action.**  Gives the toolchain directories whose files are no inputs. -/
def units (context : Context) (u : CompilationUnit) : Scan (Except ScanError (List Path)) := do
  match ← eachUnit context u.builtinDirs u.scannables with
  | .error e => pure (.error e)
  | .ok () => pure (.ok (builtinRoots context u))

end Scan

namespace ArtifactSet

/-- Keep the artifacts that are not under `builtinRoots`, unless one of them has a root without a parent. -/
def inputsOf (builtinRoots : List Path) : List Artifact → Except ScanError (List Artifact)
  | [] => .ok []
  | a :: rest =>
    if a.path.startsWithAny builtinRoots then inputsOf builtinRoots rest
    else if a.root.hasParent then (inputsOf builtinRoots rest).map (a :: ·)
    else .error (.absoluteInput a.path)

/-- **The inputs among the artifacts found,** in artifact order; the first that cannot be declared fails them all. -/
def inputs (found : ArtifactSet) (builtinRoots : List Path) : Except ScanError (List Artifact) :=
  inputsOf builtinRoots found.toList

end ArtifactSet

structure Job where
  name : String
  unit : CompilationUnit
  context : Context

namespace Job

/-- **The inputs of an action,** found from nothing with a cache, and the cache afterwards. -/
def inputs (job : Job) (cache : ScanCache) :
    Program Disk.Answer (Except ScanError (List Artifact) × ScanCache) := do
  let (outcome, store) ← (Scan.units job.context job.unit).perform (.ofCache cache)
  pure (outcome.bind store.found.inputs, store.cache)

end Job
end IncludeClosure
