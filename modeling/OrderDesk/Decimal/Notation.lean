import OrderDesk.Decimal.Shortest

/-! The written form of a double: positional between two decimal exponents and scientific
elsewhere, so that it always shows a point or an exponent. -/

namespace OrderDesk.Decimal

/-- The least and the greatest exponent of the first digit that are written positionally. -/
structure Layout where
  least : Int
  greatest : Int
  deriving Repr

def signedExponent (exponent : Int) : List Char :=
  (if exponent < 0 then '-' else '+') :: Nat.toDigits 10 exponent.natAbs

def positional (digits : List Char) (lead : Int) : List Char :=
  if lead < 0 then
    ['0', '.'] ++ List.replicate (-lead - 1).toNat '0' ++ digits
  else
    let whole := lead.toNat + 1
    let fraction := digits.drop whole
    digits.take whole ++ List.replicate (whole - digits.length) '0' ++ ['.'] ++
      (if fraction.isEmpty then ['0'] else fraction)

def scientific (digits : List Char) (lead : Int) : List Char :=
  digits.take 1 ++ (if digits.length = 1 then [] else '.' :: digits.drop 1) ++
    ['e'] ++ signedExponent lead

def Layout.text (layout : Layout) (value : Double) : String :=
  let shortest := value.magnitude.shortest
  let digits := Nat.toDigits 10 shortest.digits
  let lead := shortest.exponent + digits.length - 1
  let body :=
    if layout.least ≤ lead && lead ≤ layout.greatest then positional digits lead
    else scientific digits lead
  String.ofList (if value.negative then '-' :: body else body)

end OrderDesk.Decimal
