import IncludeClosure.Artifact.Set
/-!
# Compilation.Unit — what to scan for one action

A unit lists entry sources, search directories, forced includes and generated files.  Its auxiliaries are variants of
the same action that are scanned beside it; only one level of them is ever looked at.
-/
namespace IncludeClosure

/-- A compilation unit; its directories are seen from the execution root. -/
structure CompilationUnit where
  /-- The source that forced includes are seen from.  It is scanned only if it is an entry source too. -/
  mainSource : Artifact
  sources : List Artifact
  quoteDirs : List Path
  includeDirs : List Path
  systemDirs : List Path
  /-- Directories of the toolchain; only the primary unit's are used. -/
  builtinDirs : List Path
  forcedIncludes : List String
  generated : GeneratedFiles
  auxiliary : List CompilationUnit

namespace CompilationUnit

/-- **The units that a scan looks at:** the unit itself, then its own auxiliaries, but not theirs. -/
def scannables (u : CompilationUnit) : List CompilationUnit :=
  u :: u.auxiliary

/-- **The directories for angle-bracketed names,** in order: the unit's include directories, its system directories,
then the given toolchain directories. -/
def angleDirs (u : CompilationUnit) (builtinDirs : List Path) : List Path :=
  u.includeDirs ++ u.systemDirs ++ builtinDirs

end CompilationUnit
end IncludeClosure
