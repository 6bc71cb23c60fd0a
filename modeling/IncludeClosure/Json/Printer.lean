import IncludeClosure.Json.Value
/-!
# Json.Printer — writing documents

Two layouts: `compact`, without any white space, and `pretty`, with every item and member on a line of its own,
indented by two spaces a level.  In strings quotes, backslashes and control characters are escaped, with the one-letter
escapes where there are any; everything else is written as it is.
-/
namespace IncludeClosure
namespace Json

def hexDigit (n : Nat) : Char :=
  Nat.digitChar (n % 16)

def escape (c : Char) : List Char :=
  match c with
  | '"' => ['\\', '"']
  | '\\' => ['\\', '\\']
  | '\x08' => ['\\', 'b']
  | '\x0c' => ['\\', 'f']
  | '\n' => ['\\', 'n']
  | '\r' => ['\\', 'r']
  | '\t' => ['\\', 't']
  | _ => if c.toNat < 0x20 then ['\\', 'u', '0', '0', hexDigit (c.toNat / 16), hexDigit c.toNat] else [c]

/-- **A string.** -/
def quoted (text : String) : List Char :=
  '"' :: text.toList.flatMap escape ++ ['"']

namespace Number

def chars (n : Number) : List Char :=
  (if n.negative then ['-'] else []) ++ n.whole
    ++ (match n.fraction with
      | none => []
      | some digits => '.' :: digits)
    ++ (match n.exponent with
      | none => []
      | some (negative, digits) => 'e' :: (if negative then '-' :: digits else digits))

end Number

namespace Value

mutual

/-- **A value without white space.** -/
def compact : Value → List Char
  | null | broken _ => ['n', 'u', 'l', 'l']
  | boolean true => ['t', 'r', 'u', 'e']
  | boolean false => ['f', 'a', 'l', 's', 'e']
  | number n => n.chars
  | string (.ok s) => quoted s
  | string (.error _) => quoted ""
  | array items => '[' :: compactItems items ++ [']']
  | object members => '\x7b' :: compactMembers members ++ ['\x7d']

def compactItems : List Value → List Char
  | [] => []
  | [v] => v.compact
  | v :: rest => v.compact ++ ',' :: compactItems rest

def compactMembers : List (Value × Value) → List Char
  | [] => []
  | [(k, v)] => k.compact ++ ':' :: v.compact
  | (k, v) :: rest => k.compact ++ ':' :: v.compact ++ ',' :: compactMembers rest

end

def newline (depth : Nat) : List Char :=
  '\n' :: List.replicate (2 * depth) ' '

mutual

/-- **A value on several lines,** starting at the given depth. -/
def pretty (depth : Nat) : Value → List Char
  | array [] => ['[', ']']
  | array items => '[' :: prettyItems (depth + 1) items ++ newline depth ++ [']']
  | object [] => ['\x7b', '\x7d']
  | object members => '\x7b' :: prettyMembers (depth + 1) members ++ newline depth ++ ['\x7d']
  | v => v.compact

def prettyItems (depth : Nat) : List Value → List Char
  | [] => []
  | [v] => newline depth ++ v.pretty depth
  | v :: rest => newline depth ++ v.pretty depth ++ ',' :: prettyItems depth rest

def prettyMembers (depth : Nat) : List (Value × Value) → List Char
  | [] => []
  | [(k, v)] => newline depth ++ k.compact ++ ':' :: ' ' :: v.pretty depth
  | (k, v) :: rest => newline depth ++ k.compact ++ ':' :: ' ' :: v.pretty depth ++ ',' :: prettyMembers depth rest

end

end Value
end Json
end IncludeClosure
