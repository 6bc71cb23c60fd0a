import IncludeClosure.Artifact.Root
import IncludeClosure.FileTree.OsError
import IncludeClosure.Json.Flaw
import IncludeClosure.Text.Shown
/-!
# Request — what a build asks for

A request describes one action: the execution root, further roots, and the unit with its directories.  Paths are kept
as they are spelled; those of the unit are seen from the execution root.
-/
namespace IncludeClosure

/-- A root that a request declares. -/
structure RootDeclaration where
  path : Path
  kind : RootKind
deriving DecidableEq, Repr

/-- **Generated files as a request declares them:** each path once, in path order, with the path where it is written. -/
abbrev DeclaredFiles := SortedTable Path.order Path

/-- A unit as a request declares it. -/
structure UnitDeclaration where
  mainSource : Path
  /-- The entry sources; none stands for the main source alone. -/
  sources : List Path
  quoteDirs : List Path
  includeDirs : List Path
  systemDirs : List Path
  builtinDirs : List Path
  forcedIncludes : List String
  generated : DeclaredFiles
  auxiliary : List UnitDeclaration

namespace UnitDeclaration

def empty : UnitDeclaration :=
  { mainSource := ⟨""⟩, sources := [], quoteDirs := [], includeDirs := [], systemDirs := [], builtinDirs := []
    forcedIncludes := [], generated := .empty, auxiliary := [] }

end UnitDeclaration

/-- A request. -/
structure Request where
  version : Nat
  execRoot : Option Path
  roots : List RootDeclaration
  unit : UnitDeclaration

namespace Request

def currentVersion : Nat := 1

/-- What a reader of a request finds in a document. -/
inductive Found where
  | natural (n : Nat)
  | negative (n : Nat)
  | float (digits : String)
  | boolean (value : Bool)
  | null
  | text (s : String)
  | sequence
  | map
deriving DecidableEq, Repr

namespace Found

def message : Found → String
  | natural n => "integer `" ++ toString n ++ "`"
  | negative n => "integer `-" ++ toString n ++ "`"
  | float digits => "floating point `" ++ digits ++ "`"
  | boolean value => "boolean `" ++ toString value ++ "`"
  | null => "null"
  | text s => "string " ++ Text.shown s
  | sequence => "sequence"
  | map => "map"

end Found

/-- Why the data of a document make no request. -/
inductive Mismatch where
  | wrongType (found : Found) (expected : String)
  | wrongValue (found : Found) (expected : String)
  | missingField (name : String)
  | repeatedField (name : String)
  | unknownVariant (name : String) (expected : String)
  | tooShort (length : Nat) (expected : String)
deriving DecidableEq, Repr

namespace Mismatch

def message : Mismatch → String
  | wrongType found expected => "invalid type: " ++ found.message ++ ", expected " ++ expected
  | wrongValue found expected => "invalid value: " ++ found.message ++ ", expected " ++ expected
  | missingField name => "missing field `" ++ name ++ "`"
  | repeatedField name => "duplicate field `" ++ name ++ "`"
  | unknownVariant name expected => "unknown variant `" ++ name ++ "`, expected " ++ expected
  | tooShort length expected => "invalid length " ++ toString length ++ ", expected " ++ expected

end Mismatch

/-- Why a text gives no request. -/
inductive Fault where
  | flaw (flaw : Json.Flaw)
  | mismatch (mismatch : Mismatch)
deriving DecidableEq, Repr

namespace Fault

def message : Fault → String
  | flaw f => f.message
  | mismatch m => m.message

end Fault

/-- Why a request file or text gives no job. -/
inductive Error where
  | unreadable (path : Path) (cause : OsError)
  | invalid (fault : Fault)
  | unsupportedVersion (version : Nat)
  | outsideOutputs (path : Path)
deriving DecidableEq, Repr

namespace Error

def message : Error → String
  | unreadable path cause => "failed to read scan request " ++ path.text ++ ": " ++ cause.message
  | invalid fault => "invalid scan request: " ++ fault.message
  | unsupportedVersion version =>
    "unsupported scan request version " ++ toString version ++ " (expected " ++ toString currentVersion ++ ")"
  | outsideOutputs path => "generated file " ++ path.text ++ " is not under any output root"

/-- What caused the error, in words, when that is something other than the error itself. -/
def cause? : Error → Option String
  | unreadable _ cause => some cause.message
  | invalid fault => some fault.message
  | _ => none

end Error
end Request
end IncludeClosure
