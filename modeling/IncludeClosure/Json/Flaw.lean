/-!
# Json.Flaw — what is wrong with a text that is no document
-/
namespace IncludeClosure
namespace Json

/-- Why a text is no document, or none that is read. -/
inductive Flaw where
  | endInArray
  | endInObject
  | endInString
  | endInValue
  | noColon
  | noCommaInArray
  | noCommaInObject
  /-- A name that starts like `null`, `true` or `false` and is none of them. -/
  | unknownName
  | noValue
  | unknownEscape
  | malformedNumber
  | hugeNumber
  | controlCharacter
  | keyNoString
  | halfPair
  /-- The first half of a surrogate pair before something that is no escape. -/
  | openPair
  | trailingComma
  | trailingText
  | tooDeep
deriving DecidableEq, Repr

namespace Flaw

/-- **The flaw in words.** -/
def message : Flaw → String
  | endInArray => "EOF while parsing a list"
  | endInObject => "EOF while parsing an object"
  | endInString => "EOF while parsing a string"
  | endInValue => "EOF while parsing a value"
  | noColon => "expected `:`"
  | noCommaInArray => "expected `,` or `]`"
  | noCommaInObject => "expected `,` or `\x7d`"
  | unknownName => "expected ident"
  | noValue => "expected value"
  | unknownEscape => "invalid escape"
  | malformedNumber => "invalid number"
  | hugeNumber => "number out of range"
  | controlCharacter => "control character (\\u0000-\\u001F) found while parsing a string"
  | keyNoString => "key must be a string"
  | halfPair => "lone leading surrogate in hex escape"
  | openPair => "unexpected end of hex escape"
  | trailingComma => "trailing comma"
  | trailingText => "trailing characters"
  | tooDeep => "recursion limit exceeded"

end Flaw

/-- A flaw as different readers see it: one that reads whatever stands there, one that skips it, and one that looks no
further when what stands there starts neither as a string nor as an object. -/
structure Break where
  read : Flaw
  skipped : Flaw
  glanced : Flaw
deriving DecidableEq, Repr

namespace Break

def plain (flaw : Flaw) : Break :=
  { read := flaw, skipped := flaw, glanced := flaw }

def skippedAs (read skipped : Flaw) : Break :=
  { read, skipped, glanced := read }

def ofWord (read skipped : Flaw) : Break :=
  { read, skipped, glanced := .noValue }

end Break
end Json
end IncludeClosure
