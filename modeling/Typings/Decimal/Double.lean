/-! # Doubles

Binary floating point numbers of 53 significant bits, as exact values. A decimal text is read as the
double nearest to it, a tie going to the even significand; too large a number is infinite.
-/

namespace Typings

/-- A double: plus or minus `significand * 2 ^ exponent`, an infinity, or not a number. -/
inductive Double where
  | finite (negative : Bool) (significand : Nat) (exponent : Int)
  | infinite (negative : Bool)
  | nan
  deriving DecidableEq, Repr

namespace Double

/-- The exponent of the smallest positive double. -/
def leastExponent : Int := -1074

/-- The exponent of the largest finite doubles. -/
def greatestExponent : Int := 971

def zero (negative : Bool) : Double := .finite negative 0 leastExponent

/-- The quotient rounded to the nearest whole number, a half to the even neighbour. -/
def roundQuotient (num den : Nat) : Nat :=
  let q := num / den
  let twice := 2 * (num % den)
  if twice < den then q else if den < twice then q + 1 else if q % 2 = 0 then q else q + 1

/-- `num / den * 2 ^ shift` as a fraction. -/
def scaled (num den : Nat) (shift : Int) : Nat × Nat :=
  if 0 ≤ shift then (num * Nat.pow 2 shift.toNat, den) else (num, den * Nat.pow 2 (-shift).toNat)

def ofRatio (negative : Bool) (num den : Nat) : Double :=
  if num = 0 then zero negative
  else
    let guess : Int := (num.log2 : Int) - (den.log2 : Int) - 52
    let (n, d) := scaled num den (-guess)
    let exponent := max (if n < d * Nat.pow 2 52 then guess - 1 else guess) leastExponent
    let (n, d) := scaled num den (-exponent)
    let significand := roundQuotient n d
    let (significand, exponent) :=
      if significand = Nat.pow 2 53 then (Nat.pow 2 52, exponent + 1) else (significand, exponent)
    if greatestExponent < exponent then .infinite negative else .finite negative significand exponent

def digitCount (n : Nat) : Nat := (Nat.toDigits 10 n).length

/-- The double nearest to `digits * 10 ^ exponent`. Numbers far out of range are settled by their
size alone. -/
def ofDecimal (negative : Bool) (digits : Nat) (exponent : Int) : Double :=
  if digits = 0 then zero negative
  else
    let magnitude := exponent + digitCount digits
    if 310 < magnitude then .infinite negative
    else if magnitude < -330 then zero negative
    else if 0 ≤ exponent then ofRatio negative (digits * Nat.pow 10 exponent.toNat) 1
    else ofRatio negative digits (Nat.pow 10 (-exponent).toNat)

def ofInt (n : Int) : Double := ofRatio (n < 0) n.natAbs 1

/-! ## Exact values -/

def toInt? : Double → Option Int
  | .finite negative significand exponent =>
    let magnitude : Option Nat :=
      if 0 ≤ exponent then some (significand * Nat.pow 2 exponent.toNat)
      else if significand % Nat.pow 2 (-exponent).toNat = 0 then some (significand / Nat.pow 2 (-exponent).toNat)
      else none
    magnitude.map fun m => if negative then -(m : Int) else m
  | _ => none

def isFinite : Double → Bool
  | .finite .. => true
  | _ => false

def neg : Double → Double
  | .finite negative significand exponent => .finite (!negative) significand exponent
  | .infinite negative => .infinite (!negative)
  | .nan => .nan

def signed (negative : Bool) (significand : Nat) : Int :=
  if negative then -(significand : Int) else significand

def ofDyadic (num : Int) (exponent : Int) : Double :=
  let (n, d) := scaled num.natAbs 1 exponent
  ofRatio (num < 0) n d

/-- The sum, rounded. -/
def add : Double → Double → Double
  | .finite na sa ea, .finite nb sb eb =>
    let e := min ea eb
    let total := signed na sa * Nat.pow 2 (ea - e).toNat + signed nb sb * Nat.pow 2 (eb - e).toNat
    if total = 0 then zero (na && nb) else ofDyadic total e
  | .nan, _ => .nan
  | _, .nan => .nan
  | .infinite a, .infinite b => if a = b then .infinite a else .nan
  | .infinite a, _ => .infinite a
  | _, .infinite b => .infinite b

/-- The product, rounded. -/
def mul : Double → Double → Double
  | .finite na sa ea, .finite nb sb eb =>
    if sa * sb = 0 then zero (na != nb)
    else
      let (n, d) := scaled (sa * sb) 1 (ea + eb)
      ofRatio (na != nb) n d
  | .nan, _ => .nan
  | _, .nan => .nan
  | .infinite a, .infinite b => .infinite (a != b)
  | .infinite a, .finite nb sb _ => if sb = 0 then .nan else .infinite (a != nb)
  | .finite na sa _, .infinite b => if sa = 0 then .nan else .infinite (na != b)

end Double

end Typings
