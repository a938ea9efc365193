import OrderDesk.Json.Record

/-! What can go wrong around the orders themselves: reading or writing bytes, the JSON in
between, and opening a socket. -/

namespace OrderDesk

inductive DeskError where
  | io (message : String)
  /-- A text that is no order. -/
  | json (error : Json.ReadError)
  /-- A sink that failed in the middle of a JSON text. -/
  | jsonSink (message : String)
  | bind (address message : String)
  deriving DecidableEq, Repr

namespace DeskError

def message : DeskError → String
  | io message => s!"IO error: {message}"
  | json error => s!"JSON error: {error.message}"
  | jsonSink message => s!"JSON error: {message}"
  | bind address message => s!"Failed to bind {address}: {message}"

def source : DeskError → String
  | io message => message
  | json error => error.message
  | jsonSink message => message
  | bind _ message => message

end DeskError

end OrderDesk
