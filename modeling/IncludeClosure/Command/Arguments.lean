import IncludeClosure.Path.Basic
import IncludeClosure.Text.Digits
/-!
# Command.Arguments — reading the command line

There are two commands, `scan` and `directives`, and the switch `--verbose` may stand before a command or after it.
Options may stand between operands; after `--` everything is an operand.  An option takes the next argument, or what
follows `=`, or, written with one letter, what follows the letter.  An argument that starts with a hyphen is never taken
as a value, an option may be given once, and an empty path is none.  A command line that breaks a rule means nothing
(`none`).
-/
namespace IncludeClosure
namespace Command

/-- How a report is written. -/
inductive Format where
  | text
  | json
deriving DecidableEq, Repr

namespace Format

def ofName? : String → Option Format
  | "text" => some text
  | "json" => some json
  | _ => none

end Format

/-- The arguments of `scan`. -/
structure ScanArguments where
  requests : List Path
  execRoot : Option Path
  format : Format
  parallelism : Option Nat
  task : Option String
deriving DecidableEq, Repr

/-- The arguments of `directives`. -/
structure DirectiveArguments where
  files : List Path
  format : Format
deriving DecidableEq, Repr

/-- What a command line asks for. -/
inductive Invocation where
  | version
  | scan (arguments : ScanArguments)
  | directives (arguments : DirectiveArguments)
deriving DecidableEq, Repr

/-- An option or a switch. -/
inductive Flag where
  | verbose
  | version
  | execRoot
  | format
  | parallelism
  | task
deriving DecidableEq, Repr

namespace Flag

def name : Flag → String
  | verbose => "verbose"
  | version => "version"
  | execRoot => "exec-root"
  | format => "format"
  | parallelism => "parallelism"
  | task => "task"

/-- The flag's letter, if it has one. -/
def letter? : Flag → Option Char
  | verbose => some 'v'
  | version => some 'V'
  | parallelism => some 'j'
  | _ => none

def takesValue : Flag → Bool
  | verbose | version => false
  | _ => true

def ofScan : List Flag :=
  [verbose, execRoot, format, parallelism, task]

def ofDirectives : List Flag :=
  [verbose, format]

end Flag

/-- What stands on a command line, in order: flags with their values, and operands. -/
inductive Item where
  | flag (flag : Flag) (value : Option String)
  | operand (text : String)
deriving DecidableEq, Repr

/-- What an argument is by itself. -/
inductive Shape where
  | divider
  | long (name : String) (value : Option String)
  | short (letters : List Char)
  | plain
deriving DecidableEq, Repr

namespace Shape

def splitValue (text : List Char) : String × Option String :=
  match text.dropWhile (· != '=') with
  | [] => (String.ofList text, none)
  | _ :: value => (String.ofList (text.takeWhile (· != '=')), some (String.ofList value))

/-- The shape of an argument; a single hyphen is plain. -/
def of (argument : String) : Shape :=
  match argument.toList with
  | ['-', '-'] => divider
  | '-' :: '-' :: text => long (splitValue text).1 (splitValue text).2
  | '-' :: c :: letters => short (c :: letters)
  | _ => plain

end Shape

/-- The letters of one argument.  Switches may share it; the first option takes the rest as its value, or the next
argument (`none` in its place). -/
def readLetters (flags : List Flag) : List Char → Option (List Item × Option Flag)
  | [] => some ([], none)
  | c :: rest => do
    let flag ← flags.find? (fun f => f.letter? == some c)
    if flag.takesValue then
      match rest with
      | [] => some ([], some flag)
      | '=' :: value => some ([.flag flag (some (String.ofList value))], none)
      | value => some ([.flag flag (some (String.ofList value))], none)
    else
      let (items, waiting) ← readLetters flags rest
      some (.flag flag none :: items, waiting)

/-- Arguments one after another; `waiting?` is the option that waits for a value. -/
def readItems (flags : List Flag) : Option Flag → List String → Option (List Item)
  | none, [] => some []
  | some _, [] => none
  | some waiting, argument :: rest => do
    if Shape.of argument = .plain then (Item.flag waiting (some argument) :: ·) <$> readItems flags none rest
    else none
  | none, argument :: rest =>
    match Shape.of argument with
    | .plain => (Item.operand argument :: ·) <$> readItems flags none rest
    | .divider => some (rest.map .operand)
    | .short letters => do
      let (items, waiting) ← readLetters flags letters
      (items ++ ·) <$> readItems flags waiting rest
    | .long name value => do
      let flag ← flags.find? (·.name == name)
      match flag.takesValue, value with
      | false, none => (Item.flag flag none :: ·) <$> readItems flags none rest
      | false, some _ => none
      | true, some value => (Item.flag flag (some value) :: ·) <$> readItems flags none rest
      | true, none => readItems flags (some flag) rest

def flagsOf (items : List Item) : List Flag :=
  items.filterMap fun
    | .flag flag _ => some flag
    | .operand _ => none

def valueOf? (flag : Flag) (items : List Item) : Option String :=
  items.findSome? fun
    | .flag f value => if f = flag then value else none
    | .operand _ => none

def operandsOf (items : List Item) : List String :=
  items.filterMap fun
    | .flag _ _ => none
    | .operand text => some text

def path? (text : String) : Option Path :=
  if text.isEmpty then none else some ⟨text⟩

/-- The value of a flag, read by `read`; no value is fine, a wrong one is not. -/
def readValue? {α : Type} (read : String → Option α) (flag : Flag) (items : List Item) : Option (Option α) :=
  match valueOf? flag items with
  | none => some none
  | some text => (read text).map some

/-- The items of a command: every flag once, and at least one operand, each of them a path. -/
def commandItems? (flags : List Flag) (arguments : List String) : Option (List Item × List Path) := do
  let items ← readItems flags none arguments
  let operands ← (operandsOf items).mapM path?
  if (flagsOf items).Nodup ∧ operands ≠ [] then some (items, operands) else none

def scan? (arguments : List String) : Option ScanArguments := do
  let (items, requests) ← commandItems? Flag.ofScan arguments
  some
    { requests
      execRoot := ← readValue? path? .execRoot items
      format := (← readValue? Format.ofName? .format items).getD .text
      parallelism := ← readValue? (fun text => Text.word? text.toList) .parallelism items
      task := ← readValue? some .task items }

def directives? (arguments : List String) : Option DirectiveArguments := do
  let (items, files) ← commandItems? Flag.ofDirectives arguments
  some { files, format := (← readValue? Format.ofName? .format items).getD .text }

/-- The letters of an argument before a command: whether the version is asked for, and whether `--verbose` has been
given by the end. -/
def readSwitches (verbose : Bool) : List Char → Option (Bool × Bool)
  | [] => some (false, verbose)
  | 'V' :: _ => some (true, verbose)
  | 'v' :: rest => if verbose then none else readSwitches true rest
  | _ => none

/-- Arguments up to the command.  Asking for the version ends the reading. -/
def readCommand (verbose : Bool) : List String → Option Invocation
  | [] => none
  | argument :: rest =>
    match Shape.of argument with
    | .plain =>
      match argument with
      | "scan" => (scan? rest).map .scan
      | "directives" => (directives? rest).map .directives
      | _ => none
    | .short letters => do
      let (version, verbose) ← readSwitches verbose letters
      if version then some .version else readCommand verbose rest
    | .long "version" none => some .version
    | .long "verbose" none => if verbose then none else readCommand true rest
    | _ => none

/-- **What a command line asks for.** -/
def Invocation.ofArguments? (arguments : List String) : Option Invocation :=
  readCommand false arguments

end Command
end IncludeClosure
