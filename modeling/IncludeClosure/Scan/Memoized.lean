import IncludeClosure.Directive.Lexer
import IncludeClosure.Scan.Step
/-!
# Scan.Memoized — files through the memo

The two questions a scan has about a file, asked through the memo.  A directive list is taken from the memo only while
the file has the stamp it was read under, and a refusal is never remembered.  That a path names a regular file is
remembered once seen; that it names none is asked again every time, since a generated file may appear.
-/
namespace IncludeClosure
namespace Scan

def disk (question : Disk) : Scan question.Answer :=
  step (.disk question)

/-- **Whether `path` names a regular file.** -/
def isFile (path : Path) : Scan Bool := do
  if ← step (.recallFile path) then pure true
  else
    match ← disk (.status path) with
    | .ok (.file _) => do
      step (.rememberFile path)
      pure true
    | _ => pure false

/-- Read the directives of the file at `path`, and remember them under `stamp` if it is a file's. -/
def readDirectives (path : Path) (stamp? : Option Stamp) : Scan (Except OsError (List Directive)) := do
  match ← disk (.contents path) with
  | .error e => pure (.error e)
  | .ok bytes =>
    let directives := Directive.extract bytes
    match stamp? with
    | some stamp => do
      step (.rememberLexed path stamp directives)
      pure (.ok directives)
    | none => pure (.ok directives)

/-- **The directives of the file at `path`.**  A directory cannot be read, so the memo is not asked about it: an entry for
its path could only be one of a file that stood there before. -/
def directives (path : Path) : Scan (Except OsError (List Directive)) := do
  match ← disk (.status path) with
  | .error e => pure (.error e)
  | .ok .directory => readDirectives path none
  | .ok (.file stamp) =>
    match ← step (.recallLexed path) with
    | some (seen, remembered) =>
      if seen = stamp then pure (.ok remembered) else readDirectives path (some stamp)
    | none => readDirectives path (some stamp)

end Scan
end IncludeClosure
