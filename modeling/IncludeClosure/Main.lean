import IncludeClosure.Command.Run
/-!
# Main — the program

The commands, run on the real file system: every question that a command asks is put to the system, and what the
command leaves behind is written out.  Nothing is decided here.
-/
namespace IncludeClosure
namespace Main

/-- The system's number of an error; it may be given as its negative. -/
def errorNumber (code : UInt32) : Nat :=
  if code < 0x80000000 then code.toNat else (0 - code).toNat

def causeOf (code : UInt32) (words : String) : OsError :=
  match errorNumber code with
  | 2 => .notFound
  | 20 => .notDirectory
  | 21 => .isDirectory
  | 36 => .nameTooLong
  | 40 => .tooManyLinks
  | number => .other number words

def refusal : IO.Error → OsError
  | .alreadyExists _ code words | .invalidArgument _ code words | .permissionDenied _ code words
  | .resourceExhausted _ code words | .inappropriateType _ code words | .noSuchThing _ code words =>
    causeOf code words
  | .interrupted _ code words | .noFileOrDirectory _ code words => causeOf code words
  | .otherError code words | .resourceBusy code words | .resourceVanished code words
  | .unsupportedOperation code words | .hardwareFault code words | .unsatisfiedConstraints code words
  | .illegalOperation code words | .protocolError code words | .timeExpired code words => causeOf code words
  | .unexpectedEof => .other 0 "unexpected end of file"
  | .userError words => .other 0 words

def contents (p : Path) : IO (Except OsError Bytes) := do
  if '\x00' ∈ p.text.toList then return .error .embeddedNul
  try
    return .ok (← IO.FS.readBinFile p.text).data.toList
  catch e => return .error (refusal e)

/-- Why a path leads nowhere; opening what it names tells more than resolving it. -/
def whyNot (p : Path) : IO OsError := do
  match ← contents p with
  | .error e => return e
  | .ok _ => return .notFound

def status (p : Path) : IO (Except OsError Status) := do
  if '\x00' ∈ p.text.toList then return .error .embeddedNul
  try
    let place ← IO.FS.realPath p.text
    let seen ← place.metadata
    match seen.type with
    | .file =>
      let modified := seen.modified.sec * 1000000000 + seen.modified.nsec.toNat
      return .ok (.file { length := seen.byteSize.toNat, modified })
    | _ => return .ok .directory
  catch _ => return .error (← whyNot p)

def canonical (p : Path) : IO (Except OsError Path) := do
  if '\x00' ∈ p.text.toList then return .error .embeddedNul
  try
    return .ok ⟨toString (← IO.FS.realPath p.text)⟩
  catch _ => return .error (← whyNot p)

def answer : (question : Disk) → IO question.Answer
  | .status p => status p
  | .contents p => contents p
  | .canonical p => canonical p

def perform {α : Type} : Program Disk.Answer α → IO α
  | .done a => pure a
  | .ask question resume => do perform (resume (← answer question))

end Main
end IncludeClosure

open IncludeClosure in
def main (arguments : List String) : IO UInt32 := do
  let environment ← IO.getEnv Settings.parallelismVariable
  let started ← IO.monoNanosNow
  let shown ← Main.perform (Command.run environment arguments)
  let outcome := shown (Elapsed.text ((← IO.monoNanosNow) - started))
  (← IO.getStdout).putStr outcome.stdout
  (← IO.getStderr).putStr outcome.stderr
  return outcome.status.toUInt32
