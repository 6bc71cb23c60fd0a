import IncludeClosure.Decimal.Fixed
/-!
# Command.Elapsed — durations and counts in reports

A duration is shown in the largest unit that it fills: microseconds below a millisecond, milliseconds with one place
below a second, seconds with two.  Quotients are taken in 64-bit floating point before they are rounded.
-/
namespace IncludeClosure

namespace Elapsed

def millis (micros : Nat) : Decimal.Binary :=
  ((do (← Decimal.Binary.ofNat? micros).div? (← Decimal.Binary.ofNat? 1000)) : Option Decimal.Binary).getD .zero

/-- Seconds as a binary value: the whole ones and the closest value to the rest, added. -/
def seconds (nanos : Nat) : Decimal.Binary :=
  ((do
    let whole ← Decimal.Binary.ofNat? (nanos / 1000000000)
    let rest ← (← Decimal.Binary.ofNat? (nanos % 1000000000)).div? (← Decimal.Binary.ofNat? 1000000000)
    whole.add? rest) : Option Decimal.Binary).getD .zero

/-- **A duration, given in nanoseconds, as text.** -/
def text (nanos : Nat) : String :=
  let micros := nanos / 1000
  if micros < 1000 then toString micros ++ "µs"
  else if micros < 1000000 then Decimal.fixed (millis micros) 1 ++ "ms"
  else Decimal.fixed (seconds nanos) 2 ++ "s"

end Elapsed

/-- **A number of things,** with an `s` after the noun unless there is exactly one. -/
def countOf (count : Nat) (noun : String) : String :=
  toString count ++ " " ++ noun ++ (if count = 1 then "" else "s")

end IncludeClosure
