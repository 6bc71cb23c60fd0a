import IncludeClosure.Json.Document
/-!
# Json.Spelling — the texts that say one document

A document can be written in many ways.  White space may stand before and after each of its tokens, a character of a
string may be escaped, and the exponent of a number has several forms.  What a token may be written as is said by
`Token.SpelledAs`, which tokens a value is made of by `Value.tokens`, and the two together say which texts a value has
(`Value.SpelledAs`).
-/
namespace IncludeClosure
namespace Json

/-- What one stretch of a string's text adds to the string: a character, or a unit of 16 bits given by its digits. -/
inductive Element where
  | plain (c : Char)
  | unit (n : Nat)

namespace Element

inductive SpelledAs : Element → List Char → Prop where
  | itself {c : Char} (printable : 0x20 ≤ c.toNat) (noQuote : c ≠ '"') (noBackslash : c ≠ '\\') :
      SpelledAs (.plain c) [c]
  | escaped {letter c : Char} (h : Tokenizer.escaped? letter = some c) : SpelledAs (.plain c) ['\\', letter]
  | unit {a b c d : Char} {i j k l : Nat} (ha : Tokenizer.hexDigit? a = some i) (hb : Tokenizer.hexDigit? b = some j)
      (hc : Tokenizer.hexDigit? c = some k) (hd : Tokenizer.hexDigit? d = some l) :
      SpelledAs (.unit (16 * (16 * (16 * i + j) + k) + l)) ['\\', 'u', a, b, c, d]

/-- The elements one after another. -/
inductive EachSpelledAs : List Element → List Char → Prop where
  | nil : EachSpelledAs [] []
  | cons {e : Element} {es : List Element} {xs ys : List Char} (first : e.SpelledAs xs) (rest : EachSpelledAs es ys) :
      EachSpelledAs (e :: es) (xs ++ ys)

/-- **The characters that some elements say.**  Two halves of a pair are one character, and a half alone is none. -/
def meaning : List Element → Except Flaw (List Char)
  | [] => .ok []
  | .plain c :: rest => (meaning rest).map (c :: ·)
  | .unit n :: rest =>
    if Chars.isHigh n then
      match rest with
      | .unit low :: rest =>
        if Chars.isLow low then (meaning rest).map (Chars.paired n low :: ·) else .error .halfPair
      | _ => .error .openPair
    else if Chars.isLow n then .error .halfPair
    else (meaning rest).map (Char.ofNat n :: ·)

end Element

namespace Number

/-- At least one digit, and nothing else. -/
def Digits (text : List Char) : Prop :=
  text ≠ [] ∧ ∀ c ∈ text, Tokenizer.isDigit c = true

def FractionSpelledAs : Option (List Char) → List Char → Prop
  | none, text => text = []
  | some digits, text => Digits digits ∧ text = '.' :: digits

def ExponentSpelledAs : Option (Bool × List Char) → List Char → Prop
  | none, text => text = []
  | some (negative, digits), text => Digits digits ∧ ∃ mark sign, text = mark :: sign ++ digits ∧
      (mark = 'e' ∨ mark = 'E') ∧ if negative then sign = ['-'] else sign = [] ∨ sign = ['+']

/-- **A number:** no zero stands before other digits, and every part that is there has a digit. -/
def SpelledAs (n : Number) (text : List Char) : Prop :=
  Digits n.whole ∧ (n.whole.head? = some '0' → n.whole = ['0']) ∧
    ∃ fraction exponent, FractionSpelledAs n.fraction fraction ∧ ExponentSpelledAs n.exponent exponent ∧
      text = (if n.negative then ['-'] else []) ++ n.whole ++ fraction ++ exponent

end Number

/-- **What a token may be written as;** one at which a text goes wrong has no spelling. -/
inductive Token.SpelledAs : Token → List Char → Prop where
  | openArray : SpelledAs .openArray ['[']
  | closeArray : SpelledAs .closeArray [']']
  | openObject : SpelledAs .openObject ['\x7b']
  | closeObject : SpelledAs .closeObject ['\x7d']
  | comma : SpelledAs .comma [',']
  | colon : SpelledAs .colon [':']
  | null : SpelledAs (.scalar .null) ['n', 'u', 'l', 'l']
  | yes : SpelledAs (.scalar (.boolean true)) ['t', 'r', 'u', 'e']
  | no : SpelledAs (.scalar (.boolean false)) ['f', 'a', 'l', 's', 'e']
  | number {n : Number} {text : List Char} (h : n.SpelledAs text) : SpelledAs (.scalar (.number n)) text
  | string {es : List Element} {text : List Char} (h : Element.EachSpelledAs es text) :
      SpelledAs (.scalar (.string ((Element.meaning es).map String.ofList))) ('"' :: text ++ ['"'])

/-- White space and nothing else. -/
def Blank (text : List Char) : Prop :=
  ∀ c ∈ text, Tokenizer.isSpace c = true

/-- **Some tokens written one after another,** with any white space around them. -/
inductive Laid : List Token → List Char → Prop where
  | nil {space : List Char} (blank : Blank space) : Laid [] space
  | cons {token : Token} {tokens : List Token} {space xs ys : List Char} (blank : Blank space)
      (first : token.SpelledAs xs) (rest : Laid tokens ys) : Laid (token :: tokens) (space ++ (xs ++ ys))

namespace Value

/-- A key is a string. -/
def keyToken : Value → Token
  | string text => .scalar (.string text)
  | _ => .stray

mutual

/-- **The tokens of a value.** -/
def tokens : Value → List Token
  | array items => .openArray :: (itemTokens items ++ [.closeArray])
  | object members => .openObject :: (memberTokens members ++ [.closeObject])
  | broken _ => [.stray]
  | null => [.scalar null]
  | boolean b => [.scalar (boolean b)]
  | number n => [.scalar (number n)]
  | string text => [.scalar (string text)]

def itemTokens : List Value → List Token
  | [] => []
  | [v] => v.tokens
  | v :: rest => v.tokens ++ .comma :: itemTokens rest

def memberTokens : List (Value × Value) → List Token
  | [] => []
  | [(k, v)] => k.keyToken :: .colon :: v.tokens
  | (k, v) :: rest => k.keyToken :: .colon :: v.tokens ++ .comma :: memberTokens rest

end

theorem itemTokens_cons (v : Value) {rest : List Value} (more : rest ≠ []) :
    itemTokens (v :: rest) = v.tokens ++ .comma :: itemTokens rest :=
  itemTokens.eq_3 v rest more

theorem memberTokens_cons (k v : Value) {rest : List (Value × Value)} (more : rest ≠ []) :
    memberTokens ((k, v) :: rest) = k.keyToken :: .colon :: (v.tokens ++ .comma :: memberTokens rest) :=
  memberTokens.eq_3 k v rest more

/-- **The value may be written so.** -/
def SpelledAs (v : Value) (text : List Char) : Prop :=
  Laid v.tokens text

end Value
end Json
end IncludeClosure
