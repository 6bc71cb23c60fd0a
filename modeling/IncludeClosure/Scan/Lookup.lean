import IncludeClosure.Compilation.Context
import IncludeClosure.Scan.Error
import IncludeClosure.Scan.Memoized
/-!
# Scan.Lookup — which file a name means

A name gives a list of candidates, in order of priority, and means the first one that exists.  A quoted name is looked
for beside the file that includes it, in the directories for quoted names and in those for angle-bracketed names; an
angle-bracketed name in the last alone; an absolute name is its own only candidate.  A candidate exists when a
generated file lies there, written or not, or when it is a regular file.
-/
namespace IncludeClosure

structure Lookup where
  dirs : SearchDirs
  generated : GeneratedFiles
  context : Context

namespace SearchDirs

def forForm (dirs : SearchDirs) (beside? : Option Path) : IncludeForm → List Path
  | .quote => beside?.toList ++ dirs.quote ++ dirs.angle
  | .angle => dirs.angle

/-- **The candidates for a name,** best first. -/
def candidates (dirs : SearchDirs) (beside? : Option Path) (form : IncludeForm) (name : String) : List Path :=
  let target : Path := ⟨name⟩
  if target.isAbsolute then [target.normalize]
  else (dirs.forForm beside? form).map (fun dir => (dir.join target).normalize)

end SearchDirs

namespace Lookup

/-- **The artifact at a candidate,** if it exists: the generated file that lies there, or the regular file. -/
def existing? (l : Lookup) (candidate : Path) : Scan (Option Artifact) :=
  match l.generated.lyingAt? candidate with
  | some generated => pure (some generated)
  | none => do
    if ← Scan.isFile candidate then pure (some (l.context.roots.resolve candidate)) else pure none

def firstExisting? (l : Lookup) : List Path → Scan (Option Artifact)
  | [] => pure none
  | candidate :: rest => do
    match ← l.existing? candidate with
    | some found => pure (some found)
    | none => firstExisting? l rest

/-- **The artifact that a name means** in a file of the directory `beside?`. -/
def find? (l : Lookup) (beside? : Option Path) (form : IncludeForm) (name : String) : Scan (Option Artifact) :=
  l.firstExisting? (l.dirs.candidates beside? form name)

/-- **The directives of an artifact.**  A generated file is read where it is written, and has none until then. -/
def directivesOf (l : Lookup) (a : Artifact) : Scan (Except ScanError (List Directive)) := do
  match l.generated.written? a with
  | some written =>
    if ← Scan.isFile written then return (← Scan.directives written).mapError (.unreadable written)
    else return .ok []
  | none => return (← Scan.directives a.path).mapError (.unreadable a.path)

end Lookup
end IncludeClosure
