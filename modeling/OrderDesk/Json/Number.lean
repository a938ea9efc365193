import OrderDesk.Json.Literal

/-! The number literals of JSON. An integer is exact as long as it fits in sixty-four bits, with
or without a sign. Every other number is a double. -/

namespace OrderDesk.Json

/-- A number as it is read. A negative integer is given by its absolute value, which is at most
`2 ^ 63` and not zero. -/
inductive Number where
  | natural (value : Nat)
  | negative (value : Nat)
  | float (value : Decimal.Double)
  deriving DecidableEq, Repr

def Number.found : Number → Found
  | .natural value => .integer value
  | .negative value => .integer (-value)
  | .float value => .float value

def isDigit (char : Char) : Bool := '0' ≤ char && char ≤ '9'

def digitValue (char : Char) : Nat := char.toNat - 0x30

/-- What digits add to a significand: its new value, how many digits went into it, and the text
after them. The last digits are left alone if the significand would reach `bound`. -/
structure Digits where
  value : Nat
  count : Nat
  rest : List Char
  deriving Repr

def takeDigits (bound : Nat) (value count : Nat) : List Char → Digits
  | [] => ⟨value, count, []⟩
  | char :: rest =>
      if isDigit char && value * 10 + digitValue char < bound then
        takeDigits bound (value * 10 + digitValue char) (count + 1) rest
      else ⟨value, count, char :: rest⟩

def dropDigits (count : Nat) : List Char → Nat × List Char
  | [] => (count, [])
  | char :: rest => if isDigit char then dropDigits (count + 1) rest else (count, char :: rest)

def startsWithDigit : List Char → Bool
  | char :: _ => isDigit char
  | [] => false

def finishFloat (negative : Bool) (significand : Nat) (exponent : Int) : Reader Number := fun rest =>
  match Decimal.Magnitude.ofLiteral significand exponent with
  | some magnitude => .ok (.float ⟨negative, magnitude⟩, rest)
  | none => .error (.before .numberOutOfRange rest)

def exponentSign : List Char → Bool × List Char
  | '+' :: rest => (false, rest)
  | '-' :: rest => (true, rest)
  | rest => (false, rest)

/-- Reads the part after the letter `e`. An exponent beyond `2 ^ 31` makes the number zero or
puts it out of range. -/
def readExponent (negative : Bool) (significand : Nat) (scale : Int) : Reader Number := fun text =>
  let (shrinks, text) := exponentSign text
  match text with
  | [] => .error (.before .endInValue [])
  | first :: rest =>
      if isDigit first then
        let digits := takeDigits (1 <<< 31) (digitValue first) 1 rest
        match digits.rest with
        | next :: later =>
            if isDigit next then
              if significand ≠ 0 && !shrinks then .error (.before .numberOutOfRange later)
              else .ok (.float ⟨negative, .zero⟩, (dropDigits 0 later).2)
            else
              finishFloat negative significand
                (scale + if shrinks then -(digits.value : Int) else digits.value) digits.rest
        | [] =>
            finishFloat negative significand
              (scale + if shrinks then -(digits.value : Int) else digits.value) []
      else .error (.atNext .badNumber (first :: rest))

def readScale (negative : Bool) (significand : Nat) (scale : Int) : Reader Number
  | 'e' :: rest => readExponent negative significand scale rest
  | 'E' :: rest => readExponent negative significand scale rest
  | rest => finishFloat negative significand scale rest

/-- Reads the part after the point. Digits that no longer fit in the significand are dropped. -/
def readFraction (negative : Bool) (significand : Nat) (scale : Int) : Reader Number := fun text =>
  let digits := takeDigits UInt64.size significand 0 text
  if startsWithDigit digits.rest then
    readScale negative digits.value (scale - digits.count) (dropDigits 0 digits.rest).2
  else if digits.count = 0 then
    .error (.atNext (if digits.rest.isEmpty then .endInValue else .badNumber) digits.rest)
  else readScale negative digits.value (scale - digits.count) digits.rest

/-- The part after an integer of `significand * 10 ^ scale`, where `scale` counts digits that
did not fit. Without a fraction, an exponent or such digits the number is exact. -/
def readTail (negative : Bool) (significand scale : Nat) : Reader Number
  | '.' :: rest => readFraction negative significand scale rest
  | 'e' :: rest => readExponent negative significand scale rest
  | 'E' :: rest => readExponent negative significand scale rest
  | rest =>
      if scale ≠ 0 then finishFloat negative significand scale rest
      else if !negative then .ok (.natural significand, rest)
      else if significand = 0 || 1 <<< 63 < significand then finishFloat true significand 0 rest
      else .ok (.negative significand, rest)

/-- Reads a number after its sign. Zero is the only integer that begins with a zero. -/
def readNumber (negative : Bool) : Reader Number
  | [] => .error (.before .endInValue [])
  | '0' :: rest =>
      if startsWithDigit rest then .error (.atNext .badNumber rest)
      else readTail negative 0 0 rest
  | first :: rest =>
      if isDigit first then
        let digits := takeDigits UInt64.size (digitValue first) 1 rest
        let (dropped, rest) := dropDigits 0 digits.rest
        readTail negative digits.value dropped rest
      else .error (.atNext .badNumber (first :: rest))

/-! ## Passing over a number -/

def skipExponent (text : List Char) : Except Fault (List Char) :=
  match (exponentSign text).2 with
  | [] => .error (.before .badNumber [])
  | first :: rest =>
      if isDigit first then .ok (dropDigits 0 rest).2 else .error (.atNext .badNumber (first :: rest))

def skipScale : List Char → Except Fault (List Char)
  | 'e' :: rest => skipExponent rest
  | 'E' :: rest => skipExponent rest
  | rest => .ok rest

def skipTail : List Char → Except Fault (List Char)
  | '.' :: rest =>
      let (count, rest) := dropDigits 0 rest
      if count = 0 then .error (.atNext .badNumber rest) else skipScale rest
  | rest => skipScale rest

def skipNumber : List Char → Except Fault (List Char)
  | [] => .error (.before .badNumber [])
  | '0' :: rest =>
      if startsWithDigit rest then .error (.atNext .badNumber rest) else skipTail rest
  | first :: rest =>
      if isDigit first then skipTail (dropDigits 0 rest).2
      else .error (.atNext .badNumber (first :: rest))

end OrderDesk.Json
