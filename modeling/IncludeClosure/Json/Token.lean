import IncludeClosure.Json.Value
/-!
# Json.Token — the tokens of a document

The text is read one character at a time.  A tokenizer keeps what it is in the middle of and the tokens so far; a
number ends at the first character that cannot continue it.  The first thing that is no token ends the reading.
-/
namespace IncludeClosure
namespace Json

inductive Token where
  | openArray
  | closeArray
  | openObject
  | closeObject
  | comma
  | colon
  | scalar (value : Value)
  /-- A scalar that starts as one and goes wrong; `isString` tells whether it starts as a string. -/
  | faulty (isString : Bool) (why : Break)
  | stray

structure Chars where
  chars : List Char
  high? : Option Nat
  flaw? : Option Flaw
deriving DecidableEq, Repr

namespace Chars

def empty : Chars :=
  { chars := [], high? := none, flaw? := none }

/-- A flaw of the text; only the first one counts. -/
def spoil (s : Chars) (flaw : Flaw) : Chars :=
  { s with high? := none, flaw? := s.flaw?.or (some flaw) }

/-- Half of a pair that is still open when something other than an escaped unit follows is a flaw. -/
def settle (s : Chars) : Chars :=
  if s.high?.isSome then s.spoil .openPair else s

def add (s : Chars) (c : Char) : Chars :=
  let s := s.settle
  { s with chars := c :: s.chars }

def isHigh (n : Nat) : Bool :=
  0xd800 ≤ n && n ≤ 0xdbff

def isLow (n : Nat) : Bool :=
  0xdc00 ≤ n && n ≤ 0xdfff

def paired (high low : Nat) : Char :=
  Char.ofNat (0x10000 + (high - 0xd800) * 0x400 + (low - 0xdc00))

/-- **One more 16-bit unit,** given by an escape. -/
def addUnit (s : Chars) (n : Nat) : Chars :=
  match s.high? with
  | some high =>
    if isLow n then { s with chars := paired high n :: s.chars, high? := none } else s.spoil .halfPair
  | none =>
    if isHigh n then { s with high? := some n }
    else if isLow n then s.spoil .halfPair
    else { s with chars := Char.ofNat n :: s.chars }

def close (s : Chars) : Value :=
  let s := s.settle
  .string (match s.flaw? with
    | some flaw => .error flaw
    | none => .ok (String.ofList s.chars.reverse))

def fail (s : Chars) (flaw : Flaw) : Token :=
  .faulty true (.skippedAs (s.flaw?.getD flaw) flaw)

end Chars

inductive Reading where
  | between
  /-- In a name, with the characters that have to follow and the value that it stands for. -/
  | name (rest : List Char) (value : Value)
  | string (s : Chars)
  | escape (s : Chars)
  /-- In an escaped unit, with the number of digits that have to follow and the unit so far. -/
  | hex (s : Chars) (missing : Nat) (front : Nat)
  /-- In an escaped unit that has gone wrong, with the number of bytes that it still takes up. -/
  | badHex (s : Chars) (missing : Nat)
  | minus
  | whole (n : Number)
  | point (n : Number)
  | fraction (n : Number)
  | power (n : Number)
  | powerSign (n : Number) (negative : Bool)
  | powerDigits (n : Number)
  | failed

structure Tokenizer where
  reading : Reading
  tokens : List Token

namespace Tokenizer

def start : Tokenizer :=
  { reading := .between, tokens := [] }

def go (t : Tokenizer) (reading : Reading) : Tokenizer :=
  { t with reading }

def emit (t : Tokenizer) (token : Token) : Tokenizer :=
  { reading := .between, tokens := token :: t.tokens }

/-- The last token: the text goes wrong with it. -/
def fail (t : Tokenizer) (token : Token) : Tokenizer :=
  { reading := .failed, tokens := token :: t.tokens }

def failNumber (t : Tokenizer) : Tokenizer :=
  t.fail (.faulty false (.ofWord .malformedNumber .malformedNumber))

def isSpace (c : Char) : Bool :=
  c = ' ' || c = '\n' || c = '\t' || c = '\r'

def isDigit (c : Char) : Bool :=
  (Text.digit? c).isSome

def hexDigit? (c : Char) : Option Nat :=
  if '0' ≤ c ∧ c ≤ '9' then some (c.toNat - '0'.toNat)
  else if 'a' ≤ c ∧ c ≤ 'f' then some (c.toNat - 'a'.toNat + 10)
  else if 'A' ≤ c ∧ c ≤ 'F' then some (c.toNat - 'A'.toNat + 10)
  else none

def escaped? : Char → Option Char
  | '"' => some '"'
  | '\\' => some '\\'
  | '/' => some '/'
  | 'b' => some '\x08'
  | 'f' => some '\x0c'
  | 'n' => some '\n'
  | 'r' => some '\r'
  | 't' => some '\t'
  | _ => none

def between (t : Tokenizer) (c : Char) : Tokenizer :=
  if isSpace c then t.go .between
  else match c with
    | '[' => t.emit .openArray
    | ']' => t.emit .closeArray
    | '{' => t.emit .openObject
    | '}' => t.emit .closeObject
    | ',' => t.emit .comma
    | ':' => t.emit .colon
    | '"' => t.go (.string .empty)
    | 'n' => t.go (.name ['u', 'l', 'l'] .null)
    | 't' => t.go (.name ['r', 'u', 'e'] (.boolean true))
    | 'f' => t.go (.name ['a', 'l', 's', 'e'] (.boolean false))
    | '-' => t.go .minus
    | _ =>
      if isDigit c then t.go (.whole { negative := false, whole := [c], fraction := none, exponent := none })
      else t.fail .stray

def endNumber (t : Tokenizer) (n : Number) (c : Char) : Tokenizer :=
  (t.emit (.scalar (.number n))).between c

def isPower (c : Char) : Bool :=
  c = 'e' || c = 'E'

/-- A character of an escaped unit that is no digit; the unit's four bytes have to be there all the same. -/
def wrongHex (t : Tokenizer) (s : Chars) (missing : Nat) (c : Char) : Tokenizer :=
  if missing ≤ c.utf8Size then t.fail (s.fail .unknownEscape) else t.go (.badHex s (missing - c.utf8Size))

/-- **One character.** -/
def step (t : Tokenizer) (c : Char) : Tokenizer :=
  match t.reading with
  | .between => t.between c
  | .failed => t
  | .name rest value =>
    match rest with
    | [] => t.fail (.faulty false (.ofWord .unknownName .unknownName))
    | next :: rest =>
      if c = next then
        if rest.isEmpty then t.emit (.scalar value) else t.go (.name rest value)
      else t.fail (.faulty false (.ofWord .unknownName .unknownName))
  | .string s =>
    if c = '"' then t.emit (.scalar s.close)
    else if c = '\\' then t.go (.escape s)
    else if c.toNat < 0x20 then t.fail (s.settle.fail .controlCharacter)
    else t.go (.string (s.add c))
  | .escape s =>
    if c = 'u' then t.go (.hex s 4 0)
    else match escaped? c with
      | some plain => t.go (.string (s.add plain))
      | none => t.fail (s.settle.fail .unknownEscape)
  | .hex s missing front =>
    match hexDigit? c with
    | none => t.wrongHex s missing c
    | some d =>
      if missing ≤ 1 then t.go (.string (s.addUnit (16 * front + d)))
      else t.go (.hex s (missing - 1) (16 * front + d))
  | .badHex s missing => t.wrongHex s missing c
  | .minus =>
    if isDigit c then t.go (.whole { negative := true, whole := [c], fraction := none, exponent := none })
    else t.failNumber
  | .whole n =>
    if isDigit c then
      if n.whole = ['0'] then t.failNumber else t.go (.whole { n with whole := n.whole ++ [c] })
    else if c = '.' then t.go (.point n)
    else if isPower c then t.go (.power n)
    else t.endNumber n c
  | .point n => if isDigit c then t.go (.fraction { n with fraction := some [c] }) else t.failNumber
  | .fraction n =>
    if isDigit c then t.go (.fraction { n with fraction := n.fraction.map (· ++ [c]) })
    else if isPower c then t.go (.power n)
    else t.endNumber n c
  | .power n =>
    if isDigit c then t.go (.powerDigits { n with exponent := some (false, [c]) })
    else if c = '+' then t.go (.powerSign n false)
    else if c = '-' then t.go (.powerSign n true)
    else t.failNumber
  | .powerSign n negative =>
    if isDigit c then t.go (.powerDigits { n with exponent := some (negative, [c]) }) else t.failNumber
  | .powerDigits n =>
    if isDigit c then t.go (.powerDigits { n with exponent := n.exponent.map (fun e => (e.1, e.2 ++ [c])) })
    else t.endNumber n c

/-- The text ends: a number may end with it, nothing else may be left unfinished. -/
def finish (t : Tokenizer) : Tokenizer :=
  match t.reading with
  | .between | .failed => t
  | .name _ _ => t.fail (.faulty false (.ofWord .endInValue .endInValue))
  | .string s | .escape s | .hex s _ _ | .badHex s _ => t.fail (s.fail .endInString)
  | .whole n | .fraction n | .powerDigits n => t.emit (.scalar (.number n))
  | .minus | .point _ | .power _ | .powerSign _ _ =>
    t.fail (.faulty false (.ofWord .endInValue .malformedNumber))

end Tokenizer

namespace Token

/-- **The tokens of a text.** -/
def ofText (text : List Char) : List Token :=
  (text.foldl Tokenizer.step .start).finish.tokens.reverse

end Token
end Json
end IncludeClosure
