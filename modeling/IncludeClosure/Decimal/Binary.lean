/-!
# Decimal.Binary — numbers with 53 binary digits

The values of 64-bit floating point, without sign, as exact fractions.  `nearest` takes a fraction to the closest such
value, a half going to the even neighbour; sums and quotients are exact results taken to the closest value.
-/
namespace IncludeClosure
namespace Decimal

/-- **The closest whole number to `num / den`;** a half goes to the even neighbour. -/
def roundHalfEven (num den : Nat) : Nat :=
  let q := num / den
  let twice := 2 * (num % den)
  if twice < den then q
  else if den < twice then q + 1
  else if q % 2 = 0 then q else q + 1

/-- The value `mantissa · 2 ^ exponent`. -/
structure Binary where
  mantissa : Nat
  exponent : Int
deriving DecidableEq, Repr, Inhabited

namespace Binary

def leastNormal : Nat := Nat.pow 2 52

def leastExponent : Int := -1074

def greatestExponent : Int := 971

def zero : Binary :=
  { mantissa := 0, exponent := leastExponent }

def shifted (num den : Nat) (k : Int) : Nat × Nat :=
  if 0 ≤ k then (num, den * Nat.pow 2 k.toNat) else (num * Nat.pow 2 (-k).toNat, den)

/-- The exponent under which `num / den` has a mantissa of 53 binary digits, or the least exponent. -/
def exponentFor (num den : Nat) : Int :=
  let k : Int := Nat.log2 num - Nat.log2 den - 52
  let (n, d) := shifted num den k
  max leastExponent (if n / d < leastNormal then k - 1 else k)

/-- **The value closest to `num / den`,** if it is not too large; `den` is not zero. -/
def nearest? (num den : Nat) : Option Binary :=
  if num = 0 then some zero
  else
    let k := exponentFor num den
    let (n, d) := shifted num den k
    let m := roundHalfEven n d
    let rounded : Binary := if m = 2 * leastNormal then ⟨leastNormal, k + 1⟩ else ⟨m, k⟩
    if greatestExponent < rounded.exponent then none else some rounded

def num (v : Binary) : Nat :=
  v.mantissa * Nat.pow 2 v.exponent.toNat

def den (v : Binary) : Nat :=
  Nat.pow 2 (-v.exponent).toNat

def ofNat? (n : Nat) : Option Binary :=
  nearest? n 1

def add? (a b : Binary) : Option Binary :=
  nearest? (a.num * b.den + b.num * a.den) (a.den * b.den)

def mul? (a b : Binary) : Option Binary :=
  nearest? (a.num * b.num) (a.den * b.den)

def div? (a b : Binary) : Option Binary :=
  nearest? (a.num * b.den) (a.den * b.num)

end Binary
end Decimal
end IncludeClosure
