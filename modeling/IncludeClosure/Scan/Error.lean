import IncludeClosure.Path.Basic
import IncludeClosure.FileTree.OsError
/-!
# Scan.Error — why a scan fails
-/
namespace IncludeClosure

inductive ScanError where
  | unreadable (path : Path) (cause : OsError)
  | absoluteInput (path : Path)
  | interrupted
deriving DecidableEq, Repr

namespace ScanError

/-- **Whether the surroundings are at fault,** and not the description of the build. -/
def isEnvironmental : ScanError → Bool
  | unreadable _ _ => true
  | _ => false

def message : ScanError → String
  | unreadable path cause => "failed to read " ++ path.text ++ " for include scanning: " ++ cause.message
  | absoluteInput path => "illegal absolute path to include file: " ++ path.text
  | interrupted => "include scanning interrupted"

end ScanError
end IncludeClosure
