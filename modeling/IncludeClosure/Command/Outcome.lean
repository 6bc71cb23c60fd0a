/-!
# Command.Outcome — what a command leaves behind

A command ends with an exit status and with what it has written to its two outputs.  A command that fails writes what it
was doing and, indented below, the chain of causes.
-/
namespace IncludeClosure
namespace Command

/-- What a command leaves behind. -/
structure Outcome where
  status : Nat
  stdout : String
  stderr : String
deriving DecidableEq, Repr

/-- A failure: what could not be done, and why, the nearest cause first. -/
structure Failure where
  what : String
  causes : List String
deriving DecidableEq, Repr

namespace Failure

def indentLines (indent : List Char) (text : String) : List Char :=
  text.toList.flatMap (fun c => if c = '\n' then '\n' :: indent else [c])

def column (n : Nat) : List Char :=
  let digits := Nat.toDigits 10 n
  List.replicate (5 - digits.length) ' ' ++ digits

def numbered : Nat → List String → List Char
  | _, [] => []
  | n, cause :: rest =>
    '\n' :: column n ++ ':' :: ' ' :: indentLines (List.replicate 7 ' ') cause ++ numbered (n + 1) rest

/-- The causes below their heading; a single one has no number. -/
def causeLines : List String → List Char
  | [] => []
  | [cause] => "\n\nCaused by:\n    ".toList ++ indentLines (List.replicate 4 ' ') cause
  | causes => "\n\nCaused by:".toList ++ numbered 0 causes

/-- **The failure as a command writes it.** -/
def text (f : Failure) : String :=
  "Error: " ++ f.what ++ String.ofList (causeLines f.causes) ++ "\n"

def outcome (f : Failure) : Outcome :=
  { status := 1, stdout := "", stderr := f.text }

end Failure
end Command
end IncludeClosure
