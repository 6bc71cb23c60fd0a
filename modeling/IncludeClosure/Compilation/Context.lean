import IncludeClosure.Artifact.RootSet
/-!
# Compilation.Context — what the build gives a scan

The execution root, the roots that found files are named by, and whether the build has been interrupted.
-/
namespace IncludeClosure

structure Context where
  execRoot : Path
  roots : RootSet
  interrupted : Bool
  execRoot_normal : execRoot.normalize = execRoot

namespace Context

def withRoots (execRoot : Path) (roots : RootSet) : Context :=
  { execRoot := execRoot.normalize, roots, interrupted := false, execRoot_normal := execRoot.normalize_normalize }

def ofExecRoot (execRoot : Path) : Context :=
  withRoots execRoot (.ofList [.mount execRoot .source])

def interrupt (c : Context) : Context :=
  { c with interrupted := true }

end Context
end IncludeClosure
