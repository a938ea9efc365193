import OrderDesk.Order.Text
import OrderDesk.Pipeline
import OrderDesk.Reply.Text
import OrderDesk.Schedule.Report
import OrderDesk.Schedule.Clock
import OrderDesk.Settings

/-! Handling an order: turning bytes into an order, refusing an order without a reference,
processing every other one under a deadline, and turning the report into an answer. -/

namespace OrderDesk

open Schedule

def statusForKind (kind : String) : Nat :=
  if kind = "payment_declined" || kind = Reply.badRequestKind then 400
  else if kind = "vendor_unavailable" || kind = "no_courier" then 503
  else if kind = "timeout" then 504
  else if kind = "canceled" then 408
  else 500

def statusFor : Option Failure → Nat
  | none => 200
  | some failure => statusForKind failure.wireKind

theorem statusForKind_ne_ok (kind : String) : statusForKind kind ≠ 200 := by
  unfold statusForKind
  repeat' split
  all_goals decide

theorem statusFor_eq_ok {failure : Option Failure} : statusFor failure = 200 ↔ failure = none := by
  cases failure with
  | none => simp [statusFor]
  | some failure => simp [statusFor, statusForKind_ne_ok]

structure Answer where
  status : Nat
  reply : Reply
  deriving DecidableEq, Repr

namespace Answer

def ofReport (orderId : String) (report : Report) : Answer :=
  { status := statusFor report.error
    reply :=
      match report.error with
      | none => .ok orderId report.steps
      | some failure => .failed orderId report.steps failure.wireKind "order failed" }

def invalidJson : Answer :=
  { status := 400, reply := .badRequest "" "invalid JSON" }

def missingOrderId : Answer :=
  { status := statusForKind Reply.badRequestKind
    reply := .badRequest "" "order_id is required" }

end Answer

structure Handler where
  pipeline : Pipeline Order
  timeout : Nat

namespace Handler

/-- A timeout of zero stands for the usual one. -/
def new (pipeline : Pipeline Order) (timeout : Nat) : Handler :=
  { pipeline := pipeline, timeout := if timeout = 0 then Settings.usualTimeout else timeout }

def decode (body : ByteArray) : Except Answer Order :=
  match Order.ofBytes? body with
  | some order => .ok order
  | none => .error .invalidJson

inductive Progress where
  | answered (answer : Answer) (time : Nat)
  | processing (orderId : String) (call : CallId)
  deriving Repr

/-- Takes an order on. Each one has a context of its own, which ends after the timeout. -/
def accept (handler : Handler) (state : State) (order : Order) : State × Progress :=
  if order.id.isEmpty then (state, .answered .missingOrderId state.clock)
  else
    let (state, background) := state.addBackground
    let (state, context) := state.derive background (some (state.clock + handler.timeout))
    let (state, call) := state.openCall context (handler.pipeline.scripts order)
    (state, .processing order.id call)

def acceptBody (handler : Handler) (state : State) (body : ByteArray) : State × Progress :=
  match decode body with
  | .ok order => handler.accept state order
  | .error answer => (state, .answered answer state.clock)

def Progress.answer? (state : State) : Progress → Option (Answer × Nat)
  | .answered answer time => some (answer, time)
  | .processing orderId call => do
      let call ← state.calls[call]?
      let (time, _) ← call.ended
      return (.ofReport orderId call.tally.report, time)

end Handler

end OrderDesk
