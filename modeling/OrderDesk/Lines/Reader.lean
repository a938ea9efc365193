import OrderDesk.Lines.Error
import OrderDesk.Order.Text

/-! Orders from a source of bytes, one to a line. A source gives its bytes in pieces, and a read
may fail, after which reading goes on behind it. -/

namespace OrderDesk.Lines

/-- What one read of a source gives. An interrupted read is tried again. -/
inductive Piece where
  | bytes (bytes : List UInt8)
  | failure (message : String)
  | interrupted
  deriving DecidableEq, Repr

def lineFeed : UInt8 := 10

def carriageReturn : UInt8 := 13

abbrev RawLine := Except String (List UInt8)

def endLine (gathered : List UInt8) : List UInt8 :=
  match gathered with
  | last :: earlier => if last = carriageReturn then earlier.reverse else gathered.reverse
  | [] => []

structure Gathered where
  current : List UInt8
  lines : List RawLine

def Gathered.byte (gathered : Gathered) (byte : UInt8) : Gathered :=
  if byte = lineFeed then ⟨[], .ok (endLine gathered.current) :: gathered.lines⟩
  else ⟨byte :: gathered.current, gathered.lines⟩

/-- A read that fails takes the unfinished line with it. -/
def Gathered.piece (gathered : Gathered) : Piece → Gathered
  | .bytes bytes => bytes.foldl Gathered.byte gathered
  | .failure message => ⟨[], .error message :: gathered.lines⟩
  | .interrupted => gathered

/-- The end of the source ends a line that has begun. Its carriage return stays, because no line
feed follows it. -/
def Gathered.finish (gathered : Gathered) : List RawLine :=
  (if gathered.current.isEmpty then gathered.lines
    else .ok gathered.current.reverse :: gathered.lines).reverse

/-- The lines of a source, in order. A line ends with a line feed, before which one carriage
return is dropped. -/
def rawLines (pieces : List Piece) : List RawLine :=
  (pieces.foldl Gathered.piece ⟨[], []⟩).finish

def notUtf8 : String := "stream did not contain valid UTF-8"

def item? : RawLine → Option (Except DeskError Order)
  | .error message => some (.error (.io message))
  | .ok bytes =>
      match String.fromUTF8? ⟨bytes.toArray⟩ with
      | none => some (.error (.io notUtf8))
      | some text =>
          if text.toList.all Text.isBlank then none
          else some ((Order.parse text).mapError .json)

/-- Every order of a source, and an error for every line that holds none. -/
def orders (pieces : List Piece) : List (Except DeskError Order) :=
  (rawLines pieces).filterMap item?

end OrderDesk.Lines
