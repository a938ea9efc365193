import OrderDesk.Json.Record
import OrderDesk.Reply.Basic

/-! Replies as JSON. Empty details, messages and step lists and absent errors are not written,
and reading puts them back. Members that a reply does not have are passed over. -/

namespace OrderDesk

open Json

namespace StepStatus

def names : List (String × StepStatus) :=
  [("ok", .ok), ("error", .error), ("canceled", .canceled)]

def name : StepStatus → String
  | ok => "ok"
  | error => "error"
  | canceled => "canceled"

def read : Reader StepStatus := readVariant names

def text (status : StepStatus) : List Char := literal status.name

end StepStatus

namespace OrderStatus

def names : List (String × OrderStatus) := [("ok", .ok), ("error", .error)]

def name : OrderStatus → String
  | ok => "ok"
  | error => "error"

def read : Reader OrderStatus := readVariant names

def text (status : OrderStatus) : List Char := literal status.name

end OrderStatus

def optionalText (name text : String) : List (String × List Char) :=
  if text.isEmpty then [] else [(name, literal text)]

namespace StepReport

structure Draft where
  name : Option String := none
  status : Option StepStatus := none
  duration : Option UInt64 := none
  detail : Option String := none

def shape : Shape Draft where
  name := "StepResult"
  strict := false
  fields := [
    { name := "name", required := true, filled := fun draft => draft.name.isSome
      read := fun draft text => do
        let (name, text) ← readText text
        return ({ draft with name := some name }, text) },
    { name := "status", required := true, filled := fun draft => draft.status.isSome
      read := fun draft text => do
        let (status, text) ← StepStatus.read text
        return ({ draft with status := some status }, text) },
    { name := "duration_ms", required := true, filled := fun draft => draft.duration.isSome
      read := fun draft text => do
        let (duration, text) ← readUnsigned text
        return ({ draft with duration := some duration }, text) },
    { name := "detail", required := false, filled := fun draft => draft.detail.isSome
      read := fun draft text => do
        let (detail, text) ← readText text
        return ({ draft with detail := some detail }, text) }]

/-- The required fields have values by the time a draft is finished. -/
def Draft.finish (draft : Draft) : StepReport where
  name := draft.name.getD ""
  status := draft.status.getD .canceled
  duration := .ofMillis (draft.duration.getD 0).toNat
  detail := draft.detail.getD ""

def read : Reader StepReport := fun text => do
  let (draft, text) ← shape.read {} text
  return (draft.finish, text)

/-- The milliseconds are written in full. A program that keeps them in sixty-four bits agrees as
long as there are fewer than `2 ^ 64`. -/
def text (report : StepReport) : List Char :=
  objectText (
    [("name", literal report.name), ("status", report.status.text),
      ("duration_ms", naturalText report.duration.millis)] ++
    optionalText "detail" report.detail)

end StepReport

namespace Refusal

structure Draft where
  kind : Option String := none
  message : Option String := none

def shape : Shape Draft where
  name := "ErrorPayload"
  strict := false
  fields := [
    { name := "kind", required := true, filled := fun draft => draft.kind.isSome
      read := fun draft text => do
        let (kind, text) ← readText text
        return ({ draft with kind := some kind }, text) },
    { name := "message", required := false, filled := fun draft => draft.message.isSome
      read := fun draft text => do
        let (message, text) ← readText text
        return ({ draft with message := some message }, text) }]

def Draft.finish (draft : Draft) : Refusal where
  kind := draft.kind.getD ""
  message := draft.message.getD ""

def read : Reader Refusal := fun text => do
  let (draft, text) ← shape.read {} text
  return (draft.finish, text)

def text (refusal : Refusal) : List Char :=
  objectText ([("kind", literal refusal.kind)] ++ optionalText "message" refusal.message)

end Refusal

namespace Reply

structure Draft where
  status : Option OrderStatus := none
  orderId : Option String := none
  steps : Option (List StepReport) := none
  error : Option (Option Refusal) := none

def shape : Shape Draft where
  name := "OrderResponse"
  strict := false
  fields := [
    { name := "status", required := true, filled := fun draft => draft.status.isSome
      read := fun draft text => do
        let (status, text) ← OrderStatus.read text
        return ({ draft with status := some status }, text) },
    { name := "order_id", required := false, filled := fun draft => draft.orderId.isSome
      read := fun draft text => do
        let (orderId, text) ← readText text
        return ({ draft with orderId := some orderId }, text) },
    { name := "steps", required := false, filled := fun draft => draft.steps.isSome
      read := fun draft text => do
        let (steps, text) ← readList StepReport.read text
        return ({ draft with steps := some steps }, text) },
    { name := "error", required := false, filled := fun draft => draft.error.isSome
      read := fun draft text => do
        let (error, text) ← readOptional Refusal.read text
        return ({ draft with error := some error }, text) }]

def Draft.finish (draft : Draft) : Reply where
  status := draft.status.getD .error
  orderId := draft.orderId.getD ""
  steps := draft.steps.getD []
  error := draft.error.getD none

def read : Reader Reply := fun text => do
  let (draft, text) ← shape.read {} text
  return (draft.finish, text)

def parse (text : String) : Except ReadError Reply :=
  readAll read text.toList

def text (reply : Reply) : List Char :=
  objectText (
    [("status", reply.status.text), ("order_id", literal reply.orderId)] ++
    (if reply.steps.isEmpty then []
      else [("steps", listText (reply.steps.map StepReport.text))]) ++
    (match reply.error with
      | some refusal => [("error", refusal.text)]
      | none => []))

def render (reply : Reply) : String :=
  String.ofList reply.text

end Reply

end OrderDesk
