import IncludeClosure.Command.Report
import IncludeClosure.Directive.Lexer
import IncludeClosure.Request.Job
import IncludeClosure.Settings
/-!
# Command.Run — carrying out a command

A command is a program that asks the file system alone.  `scan` resolves the execution root, then loads one request
after another; the first that gives no action ends it before anything is scanned.  `directives` reads all files before
it shows any.
-/
namespace IncludeClosure
namespace Command

/-- The settings of a scan: the command line counts more than the environment. -/
def settings (environment : Option String) (a : ScanArguments) : Settings :=
  let s := Settings.ofEnvironment environment
  { parallelism := (a.parallelism.map (max · 1)).or s.parallelism
    taskName := a.task.getD s.taskName }

def directoryOf (file : Path) : Path :=
  file.parent?.getD ⟨"/"⟩

def failureAt (what : String) (p : Path) (causes : List String) : Failure :=
  { what := what ++ ": " ++ p.text, causes }

/-- **The action of one request file.** -/
def loadJob (execRoot : Option Path) (p : Path) : Program Disk.Answer (Except Failure Job) := do
  match ← Request.load p with
  | .error e => return .error (failureAt "Failed to load scan request" p (e.message :: e.cause?.toList))
  | .ok request =>
    match ← Disk.canonicalize p with
    | .error e => return .error (failureAt "Failed to resolve scan request path" p [e.message])
    | .ok file =>
      match request.toJob p.text (directoryOf file) execRoot with
      | .error e => return .error (failureAt "Invalid scan request" p (e.message :: e.cause?.toList))
      | .ok job => return .ok job

/-- The actions of some request files, up to the first that gives none. -/
def loadJobs (execRoot : Option Path) : List Path → Program Disk.Answer (Except Failure (List Job))
  | [] => pure (.ok [])
  | p :: rest => do
    match ← loadJob execRoot p with
    | .error f => return .error f
    | .ok job =>
      match ← loadJobs execRoot rest with
      | .error f => return .error f
      | .ok jobs => return .ok (job :: jobs)

def resolveOverride : Option Path → Program Disk.Answer (Except Failure (Option Path))
  | none => pure (.ok none)
  | some root => do
    match ← Disk.canonicalize root with
    | .error e => return .error (failureAt "Failed to resolve execution root" root [e.message])
    | .ok root => return .ok (some root)

/-- Why a scan ends early. -/
inductive Halt where
  | failed (failure : Failure)
  | tooManyPermits
deriving DecidableEq, Repr

namespace Halt

def outcome : Halt → Outcome
  | failed f => f.outcome
  | tooManyPermits =>
    { status := 101
      stdout := ""
      stderr := "a semaphore may not have more than MAX_PERMITS permits (" ++ toString Batch.mostPermits ++ ")\n" }

end Halt

/-- **The scan command:** its report, unless it ends before anything is scanned. -/
def scan (environment : Option String) (a : ScanArguments) : Program Disk.Answer (Except Halt ScanReport) := do
  match ← resolveOverride a.execRoot with
  | .error f => return .error (.failed f)
  | .ok execRoot =>
    match ← loadJobs execRoot a.requests with
    | .error f => return .error (.failed f)
    | .ok jobs =>
      if Batch.canStart ((settings environment a).parallelism.getD 1) then
        let (scans, cache) ← Batch.scan jobs .empty
        return .ok { scans, scanners := cache.scanners.size }
      else return .error .tooManyPermits

/-- The directives of some files, up to the first that cannot be read. -/
def readFiles : List Path → Program Disk.Answer (Except Failure (List FileDirectives))
  | [] => pure (.ok [])
  | file :: rest => do
    match ← Disk.readFile file with
    | .error e => return .error (failureAt "Failed to read source file" file [e.message])
    | .ok bytes =>
      match ← readFiles rest with
      | .error f => return .error f
      | .ok others => return .ok ({ file, directives := Directive.extract bytes } :: others)

def versionText : String := "incscan 0.1.0\n"

def usageText : String :=
  "usage: incscan [-v] scan [--exec-root DIR] [--format text|json] [-j N] [--task NAME] REQUEST...\n"
    ++ "       incscan [-v] directives [--format text|json] FILE...\n"
    ++ "       incscan --version\n"

def misuse : Outcome :=
  { status := 2, stdout := "", stderr := usageText }

/-- **Carry out a command line.**  What is left behind may show how long the scan took. -/
def run (environment : Option String) (arguments : List String) : Program Disk.Answer (String → Outcome) := do
  match Invocation.ofArguments? arguments with
  | none => return fun _ => misuse
  | some .version => return fun _ => { status := 0, stdout := versionText, stderr := "" }
  | some (.scan a) =>
    match ← scan environment a with
    | .error halt => return fun _ => halt.outcome
    | .ok report => return fun elapsed => report.outcome a.format elapsed
  | some (.directives a) =>
    match ← readFiles a.files with
    | .error f => return fun _ => f.outcome
    | .ok files => return fun _ => FileDirectives.outcome files a.format

end Command
end IncludeClosure
