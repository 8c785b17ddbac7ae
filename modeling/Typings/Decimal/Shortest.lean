import Typings.Decimal.Double

/-! # Shortest decimal text

A double is written with the fewest significant digits that read back as the same double; of several
such numbers the nearest to it is taken. The digits are found on the coarsest power of ten that has
a multiple among the numbers that round to the double.
-/

namespace Typings

namespace Double

/-- A decimal number: `digits * 10 ^ exponent`. -/
structure Decimal where
  digits : Nat
  exponent : Int
  deriving DecidableEq, Repr

/-- The numbers that round to a double, in quarters of its last place: the double, and the distances
to both ends. -/
structure Neighbourhood where
  value : Nat
  below : Nat
  above : Nat
  endsIncluded : Bool
  exponent : Int

/-- The numbers that round to `significand * 2 ^ exponent`. Below a power of two the doubles lie
twice as close. -/
def neighbourhood (significand : Nat) (exponent : Int) : Neighbourhood where
  value := 4 * significand
  below := if significand = Nat.pow 2 52 && leastExponent < exponent then 1 else 2
  above := 2
  endsIncluded := significand % 2 = 0
  exponent := exponent - 2

/-- The multiple of `10 ^ grid` in the neighbourhood that is nearest to its value, if it has one. -/
def Neighbourhood.pick? (nb : Neighbourhood) (grid : Int) : Option Nat :=
  let unit := Nat.pow 2 nb.exponent.toNat * Nat.pow 10 (-grid).toNat
  let step := Nat.pow 2 (-nb.exponent).toNat * Nat.pow 10 grid.toNat
  let value := nb.value * unit
  let within (k : Nat) : Bool :=
    let low := (nb.value - nb.below) * unit
    let high := (nb.value + nb.above) * unit
    0 < k && (if nb.endsIncluded then low ≤ k * step && k * step ≤ high else low < k * step && k * step < high)
  let lower := value / step
  let upper := lower + 1
  match within lower, within upper with
  | true, true => some (roundQuotient value step)
  | true, false => some lower
  | false, true => some upper
  | false, false => none

/-- Tries one grid after the other, from the coarsest on. -/
def Neighbourhood.search (nb : Neighbourhood) : Nat → Int → Decimal
  | 0, grid => ⟨0, grid⟩
  | tries + 1, grid =>
    match nb.pick? grid with
    | some digits => ⟨digits, grid⟩
    | none => nb.search tries (grid - 1)

/-- A power of ten above `significand * 2 ^ exponent`. -/
def gridAbove (significand : Nat) (exponent : Int) : Int :=
  ((significand.log2 : Int) + exponent + 1) * 30103 / 100000 + 1

/-- The shortest decimal that reads back as `significand * 2 ^ exponent`: seventeen digits always
suffice. -/
def shortest (significand : Nat) (exponent : Int) : Decimal :=
  (neighbourhood significand exponent).search 25 (gridAbove significand exponent)

/-! ## Layout -/

/-- How decimals are laid out: the exponents of the leading digit that are written without an
exponent part, and the least number of digits in an exponent part. -/
structure Layout where
  leastPlain : Int
  mostPlain : Int
  exponentDigits : Nat

/-- Numbers from 0.0001 up to sixteen digits are written plainly, with at least one digit after the
point; the others have a signed exponent of two digits or more. -/
def layout : Layout := ⟨-4, 15, 2⟩

def digitChars (n : Nat) : List Char := Nat.toDigits 10 n

def padLeft (width : Nat) (cs : List Char) : List Char := List.replicate (width - cs.length) '0' ++ cs

def Layout.exponentPart (l : Layout) (e : Int) : List Char :=
  'e' :: (if e < 0 then '-' else '+') :: padLeft l.exponentDigits (digitChars e.natAbs)

def Layout.render (l : Layout) (d : Decimal) : List Char :=
  let ds := digitChars d.digits
  let lead := d.exponent + ds.length - 1
  if lead < l.leastPlain || l.mostPlain < lead then
    match ds with
    | [] => []
    | [only] => only :: l.exponentPart lead
    | first :: more => first :: '.' :: more ++ l.exponentPart lead
  else if 0 ≤ d.exponent then ds ++ List.replicate d.exponent.toNat '0' ++ ['.', '0']
  else if 0 ≤ lead then ds.take (lead.toNat + 1) ++ '.' :: ds.drop (lead.toNat + 1)
  else '0' :: '.' :: List.replicate (-lead - 1).toNat '0' ++ ds

def text : Double → String
  | .finite negative significand exponent =>
    let sign := if negative then ['-'] else []
    if significand = 0 then String.ofList (sign ++ ['0', '.', '0'])
    else String.ofList (sign ++ layout.render (shortest significand exponent))
  | .infinite negative => if negative then "-inf" else "inf"
  | .nan => "nan"

example : text (ofDecimal false 1 (-1)) = "0.1" := by decide +kernel
example : text (ofDecimal false 5 (-324)) = "5e-324" := by decide +kernel
example : text (ofDecimal true 1 16) = "-1e+16" := by decide +kernel
example : text (ofDecimal false 9007199254740993 0) = "9007199254740992.0" := by decide +kernel
example : text (ofDecimal false 17976931348623157 292) = "1.7976931348623157e+308" := by decide +kernel
example : text (ofDecimal false 18 308) = "inf" := by decide +kernel

end Double

end Typings
