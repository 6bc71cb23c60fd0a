import IncludeClosure.Decimal.Binary
/-!
# Decimal.Fixed — a fixed number of places
-/
namespace IncludeClosure
namespace Decimal

def digits (n : Nat) : List Char :=
  Nat.toDigits 10 n

/-- **`n / 10 ^ places` in positional notation,** with exactly `places` digits after the point. -/
def withPoint (n places : Nat) : String :=
  let ds := digits n
  let ds := List.replicate (places + 1 - ds.length) '0' ++ ds
  String.ofList (ds.take (ds.length - places) ++ '.' :: ds.drop (ds.length - places))

/-- **A value with a fixed number of places,** the exact value being rounded and a half going to the even neighbour. -/
def fixed (v : Binary) (places : Nat) : String :=
  withPoint (roundHalfEven (v.num * Nat.pow 10 places) v.den) places

end Decimal
end IncludeClosure
