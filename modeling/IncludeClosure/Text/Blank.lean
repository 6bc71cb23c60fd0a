/-!
# Text.Blank — white space

The characters with the Unicode property White_Space, and a text without those at its ends.
-/
namespace IncludeClosure
namespace Text

/-- **White space:** the control characters U+0009 to U+000D and U+0085, the space, and the separators. -/
def isWhiteSpace (c : Char) : Bool :=
  let n := c.toNat
  (0x09 ≤ n && n ≤ 0x0d) || n = 0x20 || n = 0x85 || n = 0xa0 || n = 0x1680 || (0x2000 ≤ n && n ≤ 0x200a)
    || n = 0x2028 || n = 0x2029 || n = 0x202f || n = 0x205f || n = 0x3000

def trim (text : List Char) : List Char :=
  ((text.dropWhile isWhiteSpace).reverse.dropWhile isWhiteSpace).reverse

end Text
end IncludeClosure
