import IncludeClosure.Directive.Basic
import IncludeClosure.FileTree.Disk
/-!
# Scan.Cache — what scans share and what outlives them

Two things are kept between scans.  The **file memo** holds the directives of files under the stamp that the file had,
and the paths that were once seen to be regular files.  The **scanner table** holds one scanner per search
configuration.  Both compare paths component by component.
-/
namespace IncludeClosure

structure FileMemo where
  /-- Per path: the stamp of the file when it was read and the directives it had. -/
  lexed : List (Path × Stamp × List Directive)
  files : List Path
deriving DecidableEq, Repr

namespace FileMemo

def empty : FileMemo :=
  { lexed := [], files := [] }

def lexed? (m : FileMemo) (p : Path) : Option (Stamp × List Directive) :=
  (m.lexed.find? (·.1.same p)).map (·.2)

def rememberLexed (m : FileMemo) (p : Path) (stamp : Stamp) (directives : List Directive) : FileMemo :=
  { m with lexed := (p, stamp, directives) :: m.lexed.filter (fun entry => !entry.1.same p) }

def knowsFile (m : FileMemo) (p : Path) : Bool :=
  m.files.any (·.same p)

def rememberFile (m : FileMemo) (p : Path) : FileMemo :=
  if m.knowsFile p then m else { m with files := p :: m.files }

def size (m : FileMemo) : Nat :=
  m.lexed.length

end FileMemo

/-- **A search configuration:** the directories for quoted names and those for angle-bracketed names, in order. -/
structure SearchDirs where
  quote : List Path
  angle : List Path
deriving DecidableEq, Repr

namespace SearchDirs

def sameList : List Path → List Path → Bool
  | [], [] => true
  | p :: ps, q :: qs => p.same q && sameList ps qs
  | _, _ => false

def same (a b : SearchDirs) : Bool :=
  sameList a.quote b.quote && sameList a.angle b.angle

end SearchDirs

/-- A scanner: its number tells it from every other scanner that was ever built. -/
structure Scanner where
  number : Nat
  dirs : SearchDirs
deriving DecidableEq, Repr

/-- The scanners in use and the number of scanners ever built. -/
structure ScannerTable where
  scanners : List Scanner
  built : Nat
deriving DecidableEq, Repr

namespace ScannerTable

def empty : ScannerTable :=
  { scanners := [], built := 0 }

def find? (t : ScannerTable) (dirs : SearchDirs) : Option Scanner :=
  t.scanners.find? (·.dirs.same dirs)

def build (t : ScannerTable) (dirs : SearchDirs) : Scanner × ScannerTable :=
  ({ number := t.built, dirs }, { t with built := t.built + 1 })

/-- **Put a scanner to use unless its configuration has one,** and give the one in use. -/
def keep (t : ScannerTable) (scanner : Scanner) : Scanner × ScannerTable :=
  match t.find? scanner.dirs with
  | some inUse => (inUse, t)
  | none => (scanner, { t with scanners := t.scanners ++ [scanner] })

def clear (t : ScannerTable) : ScannerTable :=
  { t with scanners := [] }

def size (t : ScannerTable) : Nat :=
  t.scanners.length

end ScannerTable

structure ScanCache where
  memo : FileMemo
  scanners : ScannerTable
deriving DecidableEq, Repr

namespace ScanCache

def empty : ScanCache :=
  { memo := .empty, scanners := .empty }

/-- **Forget everything;** scanners built from now on are still new ones. -/
def clear (c : ScanCache) : ScanCache :=
  { memo := .empty, scanners := c.scanners.clear }

end ScanCache
end IncludeClosure
