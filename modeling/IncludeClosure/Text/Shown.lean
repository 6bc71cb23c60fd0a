import IncludeClosure.Text.Hidden
/-!
# Text.Shown — a text in a message

A text that a message quotes stands between double quotes.  Quotes and backslashes in it are escaped, as are tabs,
line ends, NUL and everything else that could not be seen.
-/
namespace IncludeClosure
namespace Text

def showCode (c : Char) : List Char :=
  '\\' :: 'u' :: '\x7b' :: Nat.toDigits 16 c.toNat ++ ['\x7d']

def showChar (c : Char) : List Char :=
  match c with
  | '\x00' => ['\\', '0']
  | '\t' => ['\\', 't']
  | '\r' => ['\\', 'r']
  | '\n' => ['\\', 'n']
  | '\\' => ['\\', '\\']
  | '"' => ['\\', '"']
  | _ => if isHidden c then showCode c else [c]

/-- **A text between quotes.** -/
def shown (text : String) : String :=
  String.ofList ('"' :: text.toList.flatMap showChar ++ ['"'])

end Text
end IncludeClosure
