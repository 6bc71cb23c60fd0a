import IncludeClosure.Decimal.Binary
/-!
# Decimal.Shortest — the fewest digits that read back

Every value owns the fractions that are closer to it than to any other value, and those half-way to its neighbours if
its mantissa is even.  Its shortest decimal is the one with the fewest digits that it owns, the closest of them to the
value.
-/
namespace IncludeClosure
namespace Decimal

/-- The decimal `digits · 10 ^ exponent`. -/
structure Shortest where
  digits : Nat
  exponent : Int
deriving DecidableEq, Repr

namespace Shortest

def tenTo (k : Int) : Nat × Nat :=
  if 0 ≤ k then (Nat.pow 10 k.toNat, 1) else (1, Nat.pow 10 (-k).toNat)

/-- **Whether `v` owns `c · 10 ^ k`.**  Four times the value and its half-way points are compared as whole numbers. -/
def owns (v : Binary) (c : Nat) (k : Int) : Bool :=
  let (tn, td) := tenTo k
  let x := 4 * c * tn * v.den
  let unit := Nat.pow 2 v.exponent.toNat * td
  let gap := if v.mantissa = Binary.leastNormal ∧ Binary.leastExponent < v.exponent then 1 else 2
  let low := (4 * v.mantissa - gap) * unit
  let high := (4 * v.mantissa + 2) * unit
  if v.mantissa % 2 = 0 then low ≤ x && x ≤ high else low < x && x < high

/-- The number of times `num / den` has to be multiplied by ten to reach one, given a bound. -/
def shiftUp : Nat → Nat → Nat → Nat
  | 0, _, _ => 0
  | bound + 1, num, den => if den ≤ num then 0 else shiftUp bound (10 * num) den + 1

/-- The power of ten just above the value: `10 ^ (scale - 1) ≤ value < 10 ^ scale`. -/
def scale (v : Binary) : Int :=
  if v.den ≤ v.num then (Nat.toDigits 10 (v.num / v.den)).length
  else 1 - (shiftUp (v.den.log2 + 1) v.num v.den : Int)

/-- The multiple of `10 ^ k` that `v` owns, the closer one of the two neighbours if it owns both. -/
def onGrid? (v : Binary) (k : Int) : Option Nat :=
  let (tn, td) := tenTo k
  let num := v.num * td
  let den := v.den * tn
  let below := num / den
  match owns v below k, owns v (below + 1) k with
  | true, true => some (roundHalfEven num den)
  | true, false => some below
  | false, true => some (below + 1)
  | false, false => none

/-- The first grid on which `v` owns a point, tried with one digit more each time. -/
def search (v : Binary) (scale : Int) : Nat → Nat → Shortest
  | 0, _ => { digits := v.num / v.den, exponent := 0 }
  | tries + 1, digits =>
    match onGrid? v (scale - digits) with
    | some c => { digits := c, exponent := scale - digits }
    | none => search v scale tries (digits + 1)

/-- Leave out trailing zeros of the digits, given a bound on their number. -/
def trim : Nat → Shortest → Shortest
  | 0, s => s
  | bound + 1, s =>
    if s.digits % 10 = 0 ∧ s.digits ≠ 0 then trim bound { digits := s.digits / 10, exponent := s.exponent + 1 } else s

/-- **The shortest decimal of a value.** -/
def ofBinary (v : Binary) : Shortest :=
  if v.mantissa = 0 then { digits := 0, exponent := 0 } else trim 20 (search v (scale v) 17 1)

/-- How numbers are laid out: positional from ten to the power `lowest` and below ten to the power `highest`. -/
structure Layout where
  lowest : Int
  highest : Int

/-- An exponent with its sign, which is written in front of a positive one too. -/
def exponentText (e : Int) : List Char :=
  (if e < 0 then '-' else '+') :: Nat.toDigits 10 e.natAbs

/-- **The number as text.**  Inside the layout's range digits and point, with `.0` after a whole number; outside it one
digit, the other digits after a point, and the exponent with its sign. -/
def text (layout : Layout) (s : Shortest) : String :=
  let ds := Nat.toDigits 10 s.digits
  let point : Int := ds.length + s.exponent
  let chars : List Char :=
    if s.digits = 0 then ['0', '.', '0']
    else if 0 ≤ s.exponent ∧ point ≤ layout.highest then
      ds ++ List.replicate s.exponent.toNat '0' ++ ['.', '0']
    else if 0 < point ∧ point ≤ layout.highest then
      ds.take point.toNat ++ '.' :: ds.drop point.toNat
    else if layout.lowest < point ∧ point ≤ 0 then
      '0' :: '.' :: List.replicate (-point).toNat '0' ++ ds
    else
      let mantissa := match ds with
        | [] => []
        | [d] => [d]
        | d :: rest => d :: '.' :: rest
      mantissa ++ 'e' :: exponentText (point - 1)
  String.ofList chars

end Shortest
end Decimal
end IncludeClosure
