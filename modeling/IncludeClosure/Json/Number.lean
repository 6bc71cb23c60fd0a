import IncludeClosure.Decimal.Shortest
import IncludeClosure.Text.Digits
/-!
# Json.Number — what a number in a document means

A number is kept as its digits.  Its **meaning** is a whole number of 64 binary digits where it is written as one and
fits, and a floating-point value otherwise.  The value is the quick one: digits beyond the 64-bit range are dropped, and
one rounded product or quotient with a power of ten follows.  A number too large for a value means nothing.
-/
namespace IncludeClosure
namespace Json

structure Number where
  negative : Bool
  whole : List Char
  /-- The digits after the point, if there is one. -/
  fraction : Option (List Char)
  /-- Whether the exponent is negative, and its digits, if there is one. -/
  exponent : Option (Bool × List Char)
deriving DecidableEq, Repr

inductive Magnitude where
  | natural (n : Nat)
  | negative (n : Nat)
  | float (negative : Bool) (value : Decimal.Binary)
deriving DecidableEq, Repr

namespace Number

def ofNat (n : Nat) : Number :=
  { negative := false, whole := Nat.toDigits 10 n, fraction := none, exponent := none }

def wordLimit : Nat := Nat.pow 2 64

/-- Digits as far as they fit into a word: the number they spell, and the digits that are left. -/
def takeWord : Nat → List Char → Nat × List Char
  | front, [] => (front, [])
  | front, c :: rest =>
    let next := 10 * front + (Text.digit? c).getD 0
    if next < wordLimit then takeWord next rest else (front, c :: rest)

def significand (n : Number) : Nat × Int :=
  let (front, dropped) := takeWord 0 n.whole
  match n.fraction with
  | none => (front, dropped.length)
  | some digits =>
    let (all, ignored) := takeWord front digits
    (all, (dropped.length : Int) - (digits.length - ignored.length : Nat))

def greatestPower : Nat := 308

/-- **`v · 10 ^ k`**, one rounding for each factor; `steps` bounds the factors that make it small. -/
def scale? : Nat → Decimal.Binary → Int → Option Decimal.Binary
  | 0, _, _ => some .zero
  | steps + 1, v, k =>
    if v.mantissa = 0 then some v
    else if 0 ≤ k then
      if k ≤ greatestPower then do v.mul? (← Decimal.Binary.ofNat? (Nat.pow 10 k.toNat)) else none
    else if -k ≤ greatestPower then do v.div? (← Decimal.Binary.ofNat? (Nat.pow 10 (-k).toNat))
    else do
      let smaller ← v.div? (← Decimal.Binary.ofNat? (Nat.pow 10 greatestPower))
      scale? steps smaller (k + greatestPower)

/-- An exponent at or above this is not looked at: the value is out of range, or zero. -/
def exponentLimit : Nat := Nat.pow 2 31

def float? (n : Number) : Option Decimal.Binary :=
  let (digits, power) := n.significand
  match Decimal.Binary.ofNat? digits with
  | none => none
  | some v =>
    match n.exponent with
    | none => scale? 5 v power
    | some (negative, e) =>
      let e := (Text.continueNat? 0 e).getD 0
      if e < exponentLimit then scale? 5 v (if negative then power - e else power + e)
      else if negative ∨ digits = 0 then some .zero
      else none

/-- **What the number means,** unless it is out of range.  Minus zero is a floating-point value. -/
def magnitude? (n : Number) : Option Magnitude :=
  match n.fraction, n.exponent, takeWord 0 n.whole with
  | none, none, (value, []) =>
    if !n.negative then some (.natural value)
    else if 0 < value ∧ value ≤ Nat.pow 2 63 then some (.negative value)
    else n.float?.map (.float true)
  | _, _, _ => n.float?.map (.float n.negative)

end Number
end Json
end IncludeClosure
