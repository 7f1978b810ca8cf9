import TemplateLint.Number.Decimal

/-!
# The shortest decimal that reads back

Every real in an interval around a double rounds to it. `Binary.shortest` finds the decimal with
the fewest digits in that interval, and among those the one nearest to the double, comparing
integers only. `floatText` writes these digits, positionally when the number is at least
`10 ^ -4` and less than `10 ^ 16`, and with an exponent otherwise.
-/

namespace TemplateLint.Number

/-- The positive number `mantissa · 2 ^ exponent`. -/
structure Binary where
  mantissa : Nat
  exponent : Int
  deriving DecidableEq, Repr

inductive Parts where
  | nan
  | infinite (negative : Bool)
  | zero (negative : Bool)
  | finite (negative : Bool) (size : Binary)
  deriving DecidableEq, Repr

namespace Parts

def ofBits (bits : UInt64) : Parts :=
  let negative := bits.toNat / twoTo 63 == 1
  let exponent : Nat := bits.toNat / twoTo 52 % twoTo 11
  let fraction := bits.toNat % twoTo 52
  if exponent = 2047 then
    if fraction = 0 then .infinite negative else .nan
  else if exponent = 0 then
    if fraction = 0 then .zero negative else .finite negative ⟨fraction, -1074⟩
  else .finite negative ⟨twoTo 52 + fraction, (exponent : Int) - 1075⟩

end Parts

namespace Binary

/-- A number as a fraction of integers: numerator and denominator. -/
def scaled (mantissa : Nat) (exponent : Int) : Nat × Nat :=
  match exponent with
  | .ofNat e => (mantissa * twoTo e, 1)
  | .negSucc e => (mantissa, twoTo (e + 1))

/-- The least power of ten above the fraction `num / den`, searched upwards from
`10 ^ -400`. -/
def magnitude (num den : Nat) : Int :=
  match (List.range 800).find? fun k => num * tenTo 400 < den * tenTo k with
  | some k => (k : Int) - 400
  | none => 400

/-- Whether a decimal reads back as a double: it lies between the midpoints to the
two neighbours, or on one of them when the mantissa is even. -/
def readsBack (number : Binary) (digits : Nat) (exponent : Int) : Bool :=
  -- everything in quarters of the last place of the double
  let below := if number.mantissa == twoTo 52 && number.exponent != -1074 then 1 else 2
  let (lowNum, den) := scaled (4 * number.mantissa - below) (number.exponent - 2)
  let (highNum, _) := scaled (4 * number.mantissa + 2) (number.exponent - 2)
  let (num, scale) :=
    match exponent with
    | .ofNat e => (digits * tenTo e, 1)
    | .negSucc e => (digits, tenTo (e + 1))
  let low := lowNum * scale
  let high := highNum * scale
  let value := num * den
  if number.mantissa % 2 == 0 then low ≤ value && value ≤ high else low < value && value < high

/-- The decimals of a precision next to a number, the nearer one first. -/
def neighbours (number : Binary) (exponent : Int) : List Nat :=
  let (num, den) := scaled number.mantissa number.exponent
  let (num, den) :=
    match exponent with
    | .ofNat e => (num, den * tenTo e)
    | .negSucc e => (num * tenTo (e + 1), den)
  let low := num / den
  let rest := num % den
  if 2 * rest < den || (2 * rest == den && low % 2 == 0) then [low, low + 1] else [low + 1, low]

def shortest (number : Binary) : Decimal :=
  let (num, den) := scaled number.mantissa number.exponent
  let top := magnitude num den
  let found := (List.range 17).findSome? fun (count : Nat) =>
    let exponent := top - ((count : Int) + 1)
    ((neighbours number exponent).find? fun digits => number.readsBack digits exponent).map
      fun digits => (⟨digits, exponent⟩ : Decimal)
  found.getD ⟨number.mantissa, 0⟩

end Binary

/-- The digits of a number without the zeros at the end, and the place of the
decimal point counted from the first digit. -/
def Decimal.normalized (number : Decimal) : List Char × Int :=
  let digits := Nat.toDigits 10 number.digits
  let kept := (digits.reverse.dropWhile (· == '0')).reverse
  (kept, digits.length + number.exponent)

def decimalText (number : Decimal) : String :=
  let (digits, point) := number.normalized
  if -4 < point && point ≤ 16 then
    match point with
    | .ofNat 0 => "0." ++ String.ofList digits
    | .ofNat whole =>
      let padded := digits ++ List.replicate (whole - digits.length) '0'
      let fraction := padded.drop whole
      String.ofList (padded.take whole) ++ "."
        ++ (if fraction.isEmpty then "0" else String.ofList fraction)
    | .negSucc zeros => "0." ++ String.ofList (List.replicate (zeros + 1) '0' ++ digits)
  else
    let exponent := point - 1
    let mantissa :=
      match digits with
      | [] => "0"
      | [digit] => digit.toString
      | digit :: rest => digit.toString ++ "." ++ String.ofList rest
    let size := toString exponent.natAbs
    mantissa ++ "e" ++ (if exponent < 0 then "-" else "+")
      ++ (if size.length < 2 then "0" ++ size else size)

def floatText (value : Float) : String :=
  match Parts.ofBits value.toBits with
  | .nan => "nan"
  | .infinite negative => if negative then "-inf" else "inf"
  | .zero negative => if negative then "-0.0" else "0.0"
  | .finite negative size =>
    (if negative then "-" else "") ++ decimalText size.shortest

end TemplateLint.Number
