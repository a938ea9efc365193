import OrderDesk.Decimal.Double

/-! The shortest decimal that reads back as a given magnitude. The reals that round to a
magnitude form an interval, whose ends belong to it if the mantissa is even. Of the decimals
with one, two, … digits the two neighbours of the magnitude are tried, and the first count of
digits with a neighbour inside the interval wins; of two such neighbours the nearer is taken,
and of two equally near ones the even one. -/

namespace OrderDesk.Decimal

/-- The value `digits * 10 ^ exponent`. -/
structure Scientific where
  digits : Nat
  exponent : Int
  deriving DecidableEq, Repr, Inhabited

def decimalLength (value : Nat) : Nat :=
  (Nat.toDigits 10 value).length

def Scientific.trim (value : Scientific) : Nat → Scientific
  | 0 => value
  | fuel + 1 =>
      if value.digits % 10 = 0 && value.digits ≠ 0 then
        Scientific.trim ⟨value.digits / 10, value.exponent + 1⟩ fuel
      else value

namespace Magnitude

/-- The magnitude and the two ends of its interval, as numerators over one denominator. -/
structure Interval where
  low : Nat
  value : Nat
  high : Nat
  denominator : Nat
  closed : Bool
  deriving Repr

/-- Below a power of two the neighbouring magnitudes lie half as far apart. -/
def interval (magnitude : Magnitude) : Interval :=
  let quarter := shiftRatio 2 (1, 1) (2 - magnitude.exponent)
  let below := if magnitude.mantissa = 1 <<< 52 && leastExponent < magnitude.exponent then 1 else 2
  { low := (4 * magnitude.mantissa - below) * quarter.1
    value := 4 * magnitude.mantissa * quarter.1
    high := (4 * magnitude.mantissa + 2) * quarter.1
    denominator := quarter.2
    closed := magnitude.mantissa % 2 = 0 }

def Interval.shift (interval : Interval) (exponent : Int) : Interval :=
  let scale := shiftRatio 10 (1, 1) exponent
  { low := interval.low * scale.1
    value := interval.value * scale.1
    high := interval.high * scale.1
    denominator := interval.denominator * scale.2
    closed := interval.closed }

def Interval.holds (interval : Interval) (candidate : Nat) : Bool :=
  let point := candidate * interval.denominator
  if interval.closed then interval.low ≤ point && point ≤ interval.high
  else interval.low < point && point < interval.high

def Interval.neighbour? (interval : Interval) : Option Nat :=
  let floor := interval.value / interval.denominator
  match interval.holds floor, interval.holds (floor + 1) with
  | true, true => some (roundHalfEven interval.value interval.denominator)
  | true, false => some floor
  | false, true => some (floor + 1)
  | false, false => none

def leadingExponent (interval : Interval) : Int :=
  let guess : Int := (decimalLength interval.value : Int) - (decimalLength interval.denominator : Int)
  let shifted := interval.shift guess
  if shifted.denominator ≤ shifted.value then guess else guess - 1

def shortestFrom (interval : Interval) (lead : Int) : Nat → Nat → Option Scientific
  | 0, _ => none
  | fuel + 1, count =>
      let exponent := lead - count + 1
      match (interval.shift exponent).neighbour? with
      | some digits => some (Scientific.trim ⟨digits, exponent⟩ (decimalLength digits))
      | none => shortestFrom interval lead fuel (count + 1)

/-- Seventeen digits always suffice; zero has the one digit `0`. -/
def shortest (magnitude : Magnitude) : Scientific :=
  if magnitude.mantissa = 0 then ⟨0, 0⟩
  else
    let interval := magnitude.interval
    (shortestFrom interval (leadingExponent interval) 17 1).getD ⟨magnitude.mantissa, 0⟩

end Magnitude

end OrderDesk.Decimal
