/-! What a client is told: the fate of every step and, for a refused order, why it was
refused. -/

namespace OrderDesk

/-- Durations are whole microseconds, and only whole milliseconds of them are ever shown. A clock
that also tells nanoseconds differs in nothing that is shown. -/
structure Duration where
  micros : Nat
  deriving DecidableEq, Repr

def Duration.ofMillis (millis : Nat) : Duration := ⟨millis * 1000⟩

def Duration.millis (duration : Duration) : Nat := duration.micros / 1000

theorem Duration.millis_ofMillis (millis : Nat) : (Duration.ofMillis millis).millis = millis := by
  simp [Duration.millis, Duration.ofMillis]

inductive StepStatus where
  | ok
  | error
  | canceled
  deriving DecidableEq, Repr

/-- The fate of one step. The detail is the tag of a classified failure and otherwise empty. -/
structure StepReport where
  name : String
  status : StepStatus
  duration : Duration
  detail : String
  deriving DecidableEq, Repr

def StepReport.pending (name : String) : StepReport :=
  { name := name, status := .canceled, duration := ⟨0⟩, detail := "" }

inductive OrderStatus where
  | ok
  | error
  deriving DecidableEq, Repr

structure Refusal where
  kind : String
  message : String
  deriving DecidableEq, Repr

structure Reply where
  status : OrderStatus
  orderId : String
  steps : List StepReport
  error : Option Refusal
  deriving DecidableEq, Repr

namespace Reply

def ok (orderId : String) (steps : List StepReport) : Reply :=
  { status := .ok, orderId := orderId, steps := steps, error := none }

def failed (orderId : String) (steps : List StepReport) (kind message : String) : Reply :=
  { status := .error, orderId := orderId, steps := steps, error := some ⟨kind, message⟩ }

def badRequestKind : String := "bad_request"

def badRequest (orderId message : String) : Reply :=
  failed orderId [] badRequestKind message

end Reply

end OrderDesk
