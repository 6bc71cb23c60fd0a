import IncludeClosure.Directive.Line
/-!
# Directive.Lexer — the directives of a file

One pass over the bytes of a file, one byte at a time.  The lexer keeps a **mode** (code, a comment, a literal, a
target in angle brackets, or just after a byte whose meaning depends on the next one), the logical line it has copied
so far, and the directives of the lines it has finished.

* A block comment leaves one space, a line comment nothing.
* Backslash-newline, also with a carriage return between, joins lines — in code, not inside a literal, a target or a
  line comment.  Other carriage returns in code are dropped.
* String and character literals are copied as they stand, so a comment marker inside them is no comment.  A literal
  ends with its line at the latest.
* After `# keyword` a `<` opens a target that is copied up to `>`, comment markers and all.

Conditionals are not evaluated: every directive counts.
-/
namespace IncludeClosure
namespace Directive

inductive Mode where
  | code
  | slash
  | backslash
  | backslashReturn
  | lineComment
  | blockComment
  | blockStar
  | literal (quote : UInt8)
  | escape (quote : UInt8)
  | target
deriving DecidableEq, Repr

structure Lexer where
  mode : Mode
  line : Bytes
  found : List Directive
deriving DecidableEq, Repr

namespace Lexer

def start : Lexer :=
  { mode := .code, line := [], found := [] }

def copy (s : Lexer) (b : UInt8) : Lexer :=
  { s with line := b :: s.line }

def enter (s : Lexer) (mode : Mode) : Lexer :=
  { s with mode }

/-- **The logical line ends here:** keep its directive, if it is one, and start the next line in code. -/
def endLine (s : Lexer) : Lexer :=
  { mode := .code
    line := []
    found := match directive? s.line.reverse with
      | some d => d :: s.found
      | none => s.found }

def code (s : Lexer) (b : UInt8) : Lexer :=
  if b = 0x5c then s.enter .backslash
  else if b = 0x2f then s.enter .slash
  else if b = 0x22 ∨ b = 0x27 then (s.copy b).enter (.literal b)
  else if b = 0x3c ∧ awaitsTarget s.line.reverse then (s.copy b).enter .target
  else if b = 0x0a then s.endLine
  else if b = 0x0d then s.enter .code
  else (s.copy b).enter .code

/-- **One byte.** -/
def step (s : Lexer) (b : UInt8) : Lexer :=
  match s.mode with
  | .code => s.code b
  | .slash =>
    if b = 0x2a then s.enter .blockComment
    else if b = 0x2f then s.enter .lineComment
    else (s.copy 0x2f).code b
  | .backslash =>
    if b = 0x0a then s.enter .code
    else if b = 0x0d then s.enter .backslashReturn
    else (s.copy 0x5c).code b
  | .backslashReturn =>
    if b = 0x0a then s.enter .code
    else (s.copy 0x5c).code b
  | .lineComment => if b = 0x0a then s.endLine else s
  | .blockComment => if b = 0x2a then s.enter .blockStar else s
  | .blockStar =>
    if b = 0x2f then (s.copy 0x20).enter .code
    else if b = 0x2a then s
    else s.enter .blockComment
  | .literal quote =>
    if b = 0x0a then s.endLine
    else if b = 0x5c then s.enter (.escape quote)
    else if b = quote then (s.copy b).enter .code
    else s.copy b
  | .escape quote =>
    if b = 0x0a then (s.copy 0x5c).endLine
    else ((s.copy 0x5c).copy b).enter (.literal quote)
  | .target =>
    if b = 0x0a then s.endLine
    else if b = 0x3e then (s.copy b).enter .code
    else s.copy b

/-- The byte whose meaning waited for the next one is copied when there is no next one. -/
def settle (s : Lexer) : Lexer :=
  match s.mode with
  | .slash => s.copy 0x2f
  | .backslash | .backslashReturn | .escape _ => s.copy 0x5c
  | _ => s

/-- **At the end of the file** the line so far counts as a line. -/
def finish (s : Lexer) : List Directive :=
  s.settle.endLine.found.reverse

def run (s : Lexer) (bytes : Bytes) : Lexer :=
  bytes.foldl step s

theorem run_append (s : Lexer) (a b : Bytes) : s.run (a ++ b) = (s.run a).run b :=
  List.foldl_append

end Lexer

/-- **The include directives of a file, in file order.** -/
def extract (content : Bytes) : List Directive :=
  (Lexer.start.run content).finish

end Directive
end IncludeClosure
