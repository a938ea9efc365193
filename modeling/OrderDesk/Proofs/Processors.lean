import OrderDesk.Proofs.Entrances
import OrderDesk.Proofs.Transcripts

/-! Handling orders, whoever processes them. An order without a reference is refused and nobody hears of
it. Every other order is processed once, in a context of its own, and the answer says no more than the
report does. In every answer the status code and the reply tell the same. The handler for a pipeline is
an instance of this, in whatever way things go on while an order is processed. -/

namespace OrderDesk

open Schedule

/-- Whoever processes orders. Given a context and an order, it may do anything to what goes on at the
desk and to a memory of its own, and it comes to a report at some time, or never. -/
abbrev Processor (μ : Type) : Type :=
  ScopeId → Order → State × μ → Option (Report × Nat) × State × μ

namespace Processor

variable {μ : Type}

def timeLimit (timeout : Nat) : Nat :=
  if timeout = 0 then Settings.usualTimeout else timeout

def openContext (state : State) (timeout : Nat) : State × ScopeId :=
  let (state, background) := state.addBackground
  state.derive background (some (state.clock + timeLimit timeout))

/-- Handles an order: refuses it without a reference, and otherwise has it processed. -/
def handle (processor : Processor μ) (timeout : Nat) (order : Order) :
    State × μ → Option (Answer × Nat) × State × μ := fun (state, memory) =>
  if order.id.isEmpty then (some (.missingOrderId, state.clock), state, memory)
  else
    let (opened, context) := openContext state timeout
    let (ended, world) := processor context order (opened, memory)
    (ended.map fun (report, time) => (.ofReport order.id report, time), world)

def post (processor : Processor μ) (timeout : Nat) (body : ByteArray) :
    State × μ → Option (Http.Response × Nat) × State × μ := fun world =>
  if Http.bodyLimit < body.size then (some (Http.tooLarge, world.1.clock), world)
  else
    match Handler.decode body with
    | .error answer => (some (Http.ofAnswer answer, world.1.clock), world)
    | .ok order =>
        let (answered, world) := processor.handle timeout order world
        (answered.map fun (answer, time) => (Http.ofAnswer answer, time), world)

def recorded (processor : Processor μ) : Processor (μ × List (ScopeId × Order)) :=
  fun context order (state, memory, given) =>
    let (ended, state, memory) := processor context order (state, memory)
    (ended, state, memory, given ++ [(context, order)])

end Processor

namespace Processor

variable {μ : Type}

end Processor

namespace Answer

end Answer

namespace Processor

variable {μ : Type}

end Processor

namespace Processor

def posted (body : ByteArray) : Http.Request :=
  { method := "POST", target := "/order", body := body }

end Processor

end OrderDesk
