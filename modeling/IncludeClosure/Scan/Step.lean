import IncludeClosure.Artifact.Set
import IncludeClosure.Program
import IncludeClosure.Scan.Cache
/-!
# Scan.Step — the atomic steps of a scan

A scan is a program over the steps below.  Each step is atomic: scans that run at the same time take turns between
steps, never inside one.  `perform` carries the steps out one after another on a store, turning the scan into a
program that asks the file system alone.
-/
namespace IncludeClosure

inductive Step where
  | disk (question : Disk)
  | findScanner (dirs : SearchDirs)
  | buildScanner (dirs : SearchDirs)
  /-- Put a scanner to use unless its configuration has one. -/
  | keepScanner (scanner : Scanner)
  | recallFile (path : Path)
  | rememberFile (path : Path)
  | recallLexed (path : Path)
  | rememberLexed (path : Path) (stamp : Stamp) (directives : List Directive)
  | record (artifact : Artifact)

namespace Step

abbrev Answer : Step → Type
  | disk question => question.Answer
  | findScanner _ => Option Scanner
  | buildScanner _ => Scanner
  | keepScanner _ => Scanner
  | recallFile _ => Bool
  | rememberFile _ => Unit
  | recallLexed _ => Option (Stamp × List Directive)
  | rememberLexed _ _ _ => Unit
  | record _ => Unit

end Step

abbrev Scan (α : Type) := Program Step.Answer α

/-- What a scan works on: the shared cache, and what its action has found so far. -/
structure ScanStore where
  cache : ScanCache
  found : ArtifactSet
deriving DecidableEq

namespace ScanStore

def empty : ScanStore :=
  { cache := .empty, found := .empty }

def ofCache (cache : ScanCache) : ScanStore :=
  { cache, found := .empty }

def mapMemo (s : ScanStore) (f : FileMemo → FileMemo) : ScanStore :=
  { s with cache := { s.cache with memo := f s.cache.memo } }

def withScanners (s : ScanStore) (table : ScannerTable) : ScanStore :=
  { s with cache := { s.cache with scanners := table } }

/-- **One step on a store.**  Only a question to the file system leaves something to be asked. -/
def reply (s : ScanStore) : (step : Step) → Program Disk.Answer (step.Answer × ScanStore)
  | .disk question => .ask question (fun answer => .done (answer, s))
  | .findScanner dirs => .done (s.cache.scanners.find? dirs, s)
  | .buildScanner dirs =>
    .done ((s.cache.scanners.build dirs).1, s.withScanners (s.cache.scanners.build dirs).2)
  | .keepScanner scanner =>
    .done ((s.cache.scanners.keep scanner).1, s.withScanners (s.cache.scanners.keep scanner).2)
  | .recallFile path => .done (s.cache.memo.knowsFile path, s)
  | .rememberFile path => .done ((), s.mapMemo (·.rememberFile path))
  | .recallLexed path => .done (s.cache.memo.lexed? path, s)
  | .rememberLexed path stamp directives => .done ((), s.mapMemo (·.rememberLexed path stamp directives))
  | .record artifact => .done ((), { s with found := s.found.insert artifact })

end ScanStore

namespace Scan

variable {α β : Type}

def step (step : Step) : Scan step.Answer :=
  Program.query step

/-- **The steps of a scan, one after another,** starting from a store. -/
def perform : Scan α → ScanStore → Program Disk.Answer (α × ScanStore)
  | .done a, s => .done (a, s)
  | .ask step resume, s => s.reply step >>= fun (answer, s) => perform (resume answer) s

/-- **A scan on a tree:** its result and the store that it leaves. -/
def runOn (tree : FileTree) (scan : Scan α) (s : ScanStore) : α × ScanStore :=
  (perform scan s).run tree.answer

@[simp] theorem runOn_done (tree : FileTree) (a : α) (s : ScanStore) : runOn tree (.done a) s = (a, s) := rfl

theorem runOn_ask (tree : FileTree) (step : Step) (resume : step.Answer → Scan α) (s : ScanStore) :
    runOn tree (.ask step resume) s
      = runOn tree (resume ((s.reply step).run tree.answer).1) ((s.reply step).run tree.answer).2 := by
  simp [runOn, perform]

/-- **A sequence on a tree** is its parts on that tree, the second on the store that the first leaves. -/
@[simp] theorem runOn_bind (tree : FileTree) : ∀ (scan : Scan α) (f : α → Scan β) (s : ScanStore),
    runOn tree (scan >>= f) s = runOn tree (f (runOn tree scan s).1) (runOn tree scan s).2
  | .done _, _, _ => rfl
  | .ask step resume, f, s => by
    rw [Program.ask_bind, runOn_ask, runOn_ask, runOn_bind tree (resume _) f]

end Scan
end IncludeClosure
