/-!
# Decimal numbers

A decimal number is an integer scaled by a power of ten. `Decimal.toFloat` rounds
it to the nearest double. Numbers far outside the range of doubles are answered
at once, so that a huge exponent costs no arithmetic.
-/

namespace TemplateLint.Number

def twoTo (exponent : Nat) : Nat := Nat.pow 2 exponent

def tenTo (exponent : Nat) : Nat := Nat.pow 10 exponent

/-- The number `digits · 10 ^ exponent`. -/
structure Decimal where
  digits : Nat
  exponent : Int
  deriving DecidableEq, Repr

def infinity : Float := 1.0 / 0.0

/-- The least integer that rounds to infinity. -/
def overflowBound : Nat := twoTo 1024 - twoTo 970

namespace Decimal

/-- The exponent of ten just above a number: it is less than `10 ^ magnitude`. -/
def magnitude (number : Decimal) : Int :=
  (Nat.toDigits 10 number.digits).length + number.exponent

/-- The nearest double, half a step going to the even neighbour. -/
def toFloat (number : Decimal) : Float :=
  if number.digits = 0 then 0.0
  else if number.magnitude > 400 then infinity
  else if number.magnitude < -400 then 0.0
  else match number.exponent with
    | .ofNat exponent => Float.ofScientific number.digits false exponent
    | .negSucc exponent => Float.ofScientific number.digits true (exponent + 1)

end Decimal

end TemplateLint.Number
