/-!
# Text.Digits — whole numbers in decimal
-/
namespace IncludeClosure
namespace Text

def digit? (c : Char) : Option Nat :=
  if '0' ≤ c ∧ c ≤ '9' then some (c.toNat - '0'.toNat) else none

/-- The number that some digits continue, `front` being the number so far. -/
def continueNat? : Nat → List Char → Option Nat
  | front, [] => some front
  | front, c :: rest => do continueNat? (10 * front + (← digit? c)) rest

def nat? : List Char → Option Nat
  | [] => none
  | text => continueNat? 0 text

/-- **A number of at most 64 binary digits,** which a plus sign may precede. -/
def word? (text : List Char) : Option Nat := do
  let digits := match text with
    | '+' :: rest => rest
    | _ => text
  let n ← nat? digits
  if n < Nat.pow 2 64 then some n else none

end Text
end IncludeClosure
