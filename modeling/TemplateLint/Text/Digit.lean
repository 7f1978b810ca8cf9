/-!
# Decimal digits

Decimal digits come in runs of ten consecutive code points, zero first. The digits of Unicode 14
have a value (`isDigit`, `digitValue?`). Those that Unicode 15 to 17 have added (`isLaterDigit`)
may stand in a number, but they have no value.
-/

namespace TemplateLint.Text

def placeInRuns? (zeros : List Nat) (c : Char) : Option Nat :=
  (zeros.find? fun first => first ≤ c.toNat && c.toNat < first + 10).map (c.toNat - ·)

def digitZeros : List Nat := [
  48, 1632, 1776, 1984, 2406, 2534, 2662, 2790, 2918, 3046, 3174, 3302, 3430, 3558, 3664, 3792,
  3872, 4160, 4240, 6112, 6160, 6470, 6608, 6784, 6800, 6992, 7088, 7232, 7248, 42528, 43216,
  43264, 43472, 43504, 43600, 44016, 65296, 66720, 68912, 69734, 69872, 69942, 70096, 70384,
  70736, 70864, 71248, 71360, 71472, 71904, 72016, 72784, 73040, 73120, 92768, 92864, 93008,
  120782, 120792, 120802, 120812, 120822, 123200, 123632, 125264, 130032]

/-- The code points of the digits zero that Unicode 15 to 17 have added, in
increasing order. -/
def laterDigitZeros : List Nat := [
  68928, 71376, 71386, 72688, 73184, 73552, 90416, 93552, 118000, 124144, 124401]

def digitValue? (c : Char) : Option Nat := placeInRuns? digitZeros c

def isDigit (c : Char) : Bool := (digitValue? c).isSome

def isLaterDigit (c : Char) : Bool := (placeInRuns? laterDigitZeros c).isSome

def isAnyDigit (c : Char) : Bool := isDigit c || isLaterDigit c

/-- The number written by decimal digits, the most significant first.
Characters that are no digits count as zero. -/
def decimalValue (digits : List Char) : Nat :=
  digits.foldl (fun value c => value * 10 + (digitValue? c).getD 0) 0

def hexValue? (c : Char) : Option Nat :=
  if '0' ≤ c && c ≤ '9' then some (c.toNat - 48)
  else if 'a' ≤ c && c ≤ 'f' then some (c.toNat - 87)
  else if 'A' ≤ c && c ≤ 'F' then some (c.toNat - 55)
  else none

def isHexDigit (c : Char) : Bool := (hexValue? c).isSome

/-- The number written by digits in a base of at most sixteen, the most
significant first. -/
def valueInBase (base : Nat) (digits : List Char) : Nat :=
  digits.foldl (fun value c => value * base + (hexValue? c).getD 0) 0

def hexDigits (width value : Nat) : String :=
  String.ofList <| (List.range width).reverse.map fun place =>
    Nat.digitChar (value / Nat.pow 16 place % 16)

end TemplateLint.Text
