import IncludeClosure.Directive.Basic
import IncludeClosure.Text.Utf8
/-!
# Directive.Line — reading one logical line

A logical line is what the lexer leaves of a physical line: comments gone, spliced lines joined.  It is a directive
when it reads `#`, one of three keywords and a delimited target, with blanks anywhere between them (`directive?`).
What follows the closing delimiter is not looked at.
-/
namespace IncludeClosure
namespace Directive

/-- **The blanks inside a line:** space, tab, vertical tab, form feed. -/
def isBlank (b : UInt8) : Bool :=
  b = 0x20 || b = 0x09 || b = 0x0b || b = 0x0c

/-- **The bytes a keyword is made of:** ASCII letters, digits and `_`. -/
def isWordByte (b : UInt8) : Bool :=
  (0x30 ≤ b && b ≤ 0x39) || (0x41 ≤ b && b ≤ 0x5a) || (0x61 ≤ b && b ≤ 0x7a) || b = 0x5f

inductive Keyword where
  | includes
  | imports
  | includesNext
deriving DecidableEq, Repr

namespace Keyword

def spelling : Keyword → String
  | includes => "include"
  | imports => "import"
  | includesNext => "include_next"

def all : List Keyword :=
  [includes, imports, includesNext]

end Keyword

def skipBlanks (line : Bytes) : Bytes :=
  line.dropWhile isBlank

/-- **What follows `# keyword`,** if `line` starts that way.  The keyword is the longest run of word bytes, so
`#includes` opens nothing. -/
def afterKeyword? (line : Bytes) : Option Bytes :=
  match skipBlanks line with
  | [] => none
  | hash :: rest =>
    if hash = 0x23 then
      let rest := skipBlanks rest
      if Keyword.all.any (fun k => Text.utf8Bytes k.spelling == rest.takeWhile isWordByte) then
        some (rest.dropWhile isWordByte)
      else none
    else none

/-- Whether `line` is exactly `# keyword` with blanks, so that a target is what comes next. -/
def awaitsTarget (line : Bytes) : Bool :=
  match afterKeyword? line with
  | some rest => (skipBlanks rest).isEmpty
  | none => false

def upTo? (close : UInt8) (body : Bytes) : Option Bytes :=
  if close ∈ body then some (body.takeWhile (· != close)) else none

/-- **A target and its closing delimiter** at the front of `body`: non-empty, and text. -/
def target? (form : IncludeForm) (body : Bytes) : Option Directive := do
  let bytes ← upTo? form.closing.toUInt8 body
  if bytes.isEmpty then none
  else
    let target ← Text.ofUtf8? bytes
    some { form, target }

/-- **The directive that a logical line is,** if it is one. -/
def directive? (line : Bytes) : Option Directive := do
  match skipBlanks (← afterKeyword? line) with
  | [] => none
  | opening :: body =>
    if opening = IncludeForm.quote.opening.toUInt8 then target? .quote body
    else if opening = IncludeForm.angle.opening.toUInt8 then target? .angle body
    else none

end Directive
end IncludeClosure
