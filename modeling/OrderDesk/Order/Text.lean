import OrderDesk.Json.Record
import OrderDesk.Order.Basic

/-! Orders as JSON. An order is a strict record: every field may be left out, and nothing else
may be added. The entries of the latency table may come in any order, and the last entry for a
name counts. -/

namespace OrderDesk.Order

open Json

structure Draft where
  id : Option String := none
  amount : Option UInt64 := none
  failStep : Option (Option String) := none
  delays : Option (Option Delays) := none

def readDelays : Reader Delays :=
  atValue fun char rest =>
    if char = '\x7b' then do
      let entry (step : String) (delays : Delays) : Reader Delays := fun text => do
        let (millis, text) ← readSigned (← readColon text)
        return (delays.put step millis, text)
      let (delays, rest) ← readMembers entry (rest.length + 1) true .empty rest
      return (delays, ← closeObject rest)
    else .error (mismatch "a map" (char :: rest))

def shape : Shape Draft where
  name := "OrderRequest"
  strict := true
  fields := [
    { name := "order_id", required := false, filled := fun draft => draft.id.isSome
      read := fun draft text => do
        let (id, text) ← readText text
        return ({ draft with id := some id }, text) },
    { name := "amount", required := false, filled := fun draft => draft.amount.isSome
      read := fun draft text => do
        let (amount, text) ← readUnsigned text
        return ({ draft with amount := some amount }, text) },
    { name := "fail_step", required := false, filled := fun draft => draft.failStep.isSome
      read := fun draft text => do
        let (step, text) ← readOptional readText text
        return ({ draft with failStep := some step }, text) },
    { name := "delay_ms", required := false, filled := fun draft => draft.delays.isSome
      read := fun draft text => do
        let (delays, text) ← readOptional readDelays text
        return ({ draft with delays := some delays }, text) }]

/-- Absent fields read as empty, zero or nothing. -/
def Draft.finish (draft : Draft) : Order where
  id := draft.id.getD ""
  amount := draft.amount.getD 0
  failStep := draft.failStep.getD none
  delays := draft.delays.getD none

def parse (text : String) : Except ReadError Order :=
  (readAll (shape.read {}) text.toList).map Draft.finish

def ofBytes? (body : ByteArray) : Option Order := do
  let text ← String.fromUTF8? body
  (parse text).toOption

def delaysText (delays : Delays) : List Char :=
  objectText (delays.map fun entry => (entry.1, integerText entry.2.toInt))

/-- The written form of an order, without the fields that hold nothing. -/
def render (order : Order) : String :=
  String.ofList (objectText (
    [("order_id", literal order.id), ("amount", naturalText order.amount.toNat)] ++
    (match order.failStep with
      | some step => [("fail_step", literal step)]
      | none => []) ++
    (match order.delays with
      | some delays => [("delay_ms", delaysText delays)]
      | none => [])))

end OrderDesk.Order
