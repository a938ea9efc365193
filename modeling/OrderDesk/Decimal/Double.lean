/-! Double precision numbers as exact integers. A magnitude is a mantissa below `2 ^ 53` times a
power of two, and every operation computes its exact rational result first and rounds it once,
to the nearest magnitude and in a tie to the even mantissa. -/

namespace OrderDesk.Decimal

/-- The value `mantissa * 2 ^ exponent`. -/
structure Magnitude where
  mantissa : Nat
  exponent : Int
  deriving DecidableEq, Repr, Inhabited

structure Double where
  negative : Bool
  magnitude : Magnitude
  deriving DecidableEq, Repr, Inhabited

/-- The integer nearest to `num / den`, and of two equally near ones the even one. -/
def roundHalfEven (num den : Nat) : Nat :=
  let floor := num / den
  let rest := num % den
  if den < 2 * rest || (2 * rest == den && floor % 2 == 1) then floor + 1 else floor

def shiftRatio (base : Nat) (ratio : Nat × Nat) (exponent : Int) : Nat × Nat :=
  if 0 ≤ exponent then (ratio.1, ratio.2 * base.pow exponent.toNat)
  else (ratio.1 * base.pow (-exponent).toNat, ratio.2)

namespace Magnitude

def zero : Magnitude := ⟨0, 0⟩

def leastExponent : Int := -1074

def greatestExponent : Int := 971

def ratio (value : Magnitude) : Nat × Nat :=
  shiftRatio 2 (value.mantissa, 1) (-value.exponent)

def nearest (ratio : Nat × Nat) : Option Magnitude :=
  if ratio.1 = 0 then some zero
  else
    let guess : Int := (Nat.log2 ratio.1 : Int) - (Nat.log2 ratio.2 : Int)
    let scaled := shiftRatio 2 ratio guess
    let top := if scaled.1 < scaled.2 then guess - 1 else guess
    let exponent := max (top - 52) leastExponent
    let target := shiftRatio 2 ratio exponent
    let mantissa := roundHalfEven target.1 target.2
    let rounded : Magnitude :=
      if mantissa = 1 <<< 53 then ⟨1 <<< 52, exponent + 1⟩ else ⟨mantissa, exponent⟩
    if greatestExponent < rounded.exponent then none else some rounded

def ofNat (value : Nat) : Option Magnitude :=
  nearest (value, 1)

def mul (left right : Magnitude) : Option Magnitude :=
  nearest (left.ratio.1 * right.ratio.1, left.ratio.2 * right.ratio.2)

def div (left right : Magnitude) : Option Magnitude :=
  nearest (left.ratio.1 * right.ratio.2, left.ratio.2 * right.ratio.1)

def greatestPower : Nat := 308

/-- A division by a large power of ten goes in strides of the greatest one. The value starts
below `2 ^ 64`, so it has vanished after a few strides. -/
def divPowerOfTen : Nat → Magnitude → Nat → Option Magnitude
  | 0, _, _ => some zero
  | strides + 1, value, power =>
      if power ≤ greatestPower then do value.div (← ofNat (Nat.pow 10 power))
      else if value.mantissa = 0 then some zero
      else do
        let quotient ← value.div (← ofNat (Nat.pow 10 greatestPower))
        divPowerOfTen strides quotient (power - greatestPower)

/-- The value of the literal `significand * 10 ^ exponent`, with one rounding for the
significand, one for the power of ten and one for their product or quotient. Nothing is the
answer if the result is not finite. -/
def ofLiteral (significand : Nat) (exponent : Int) : Option Magnitude := do
  let value ← ofNat significand
  if 0 ≤ exponent then
    if exponent.toNat ≤ greatestPower then value.mul (← ofNat (Nat.pow 10 exponent.toNat))
    else if significand = 0 then some zero
    else none
  else divPowerOfTen 4 value (-exponent).toNat

end Magnitude

end OrderDesk.Decimal
