import OrderDesk.Handler
import OrderDesk.Lines.Reader
import OrderDesk.Lines.Writer

/-! The desk: a handler for orders, one pool of couriers and one count of running steps, which
all orders share. -/

namespace OrderDesk

open Schedule

structure Desk where
  handler : Handler
  state : State

namespace Desk

def new (handler : Handler) (couriers : Int) : Desk :=
  { handler := handler, state := .start (.new couriers) }

def ofSettings (settings : Settings) : Desk :=
  new (.new orderPipeline settings.requestTimeout) settings.couriers

def capacity (desk : Desk) : Nat := desk.state.limiter.capacity

def available (desk : Desk) : Nat := desk.state.limiter.free

def running (desk : Desk) : Int := desk.state.running

/-! ## One order after another -/

/-- Handles an order to its end, and forgets it. There is no answer if the order never ends. -/
def handle? (desk : Desk) (order : Order) : Desk × Option Answer :=
  let (state, progress) := desk.handler.accept desk.state order
  let state := state.settle none
  ({ desk with state := state.restart }, (progress.answer? state).map Prod.fst)

/-- What comes of a file of orders: the reply to each order, in order, and the errors of the lines
that hold none. -/
structure Batch where
  desk : Desk
  replies : List Reply
  errors : List DeskError

/-- Handles the items of a source one after another. An order begins when the one before it has
ended. -/
def process (desk : Desk) : List (Except DeskError Order) → Batch
  | [] => { desk := desk, replies := [], errors := [] }
  | .error error :: items =>
      let batch := desk.process items
      { batch with errors := error :: batch.errors }
  | .ok order :: items =>
      let (desk, answer) := desk.handle? order
      let batch := desk.process items
      { batch with replies := (answer.map Answer.reply).toList ++ batch.replies }

def runPieces (desk : Desk) (pieces : List Lines.Piece) : Batch :=
  desk.process (Lines.orders pieces)

def Batch.output (batch : Batch) : String :=
  String.join (batch.replies.map fun reply => reply.render ++ "\n")

end Desk

end OrderDesk
