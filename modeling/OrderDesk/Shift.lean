import OrderDesk.Schedule.Probe

/-! A shift: things arrive at given times and are taken on, and the desk is looked at in between.
What arrives at a time is taken on after everything that is due by then. -/

namespace OrderDesk

open Schedule

structure Shift (α : Type) where
  arrivals : List (Nat × α)
  probes : List Nat

namespace Shift

variable {α π : Type}

inductive Event (α : Type) where
  | arrival (number : Nat) (item : α)
  | probe

def events (shift : Shift α) : List (Nat × Event α) :=
  let arrivals := shift.arrivals.mapIdx fun number arrival =>
    (arrival.1, Event.arrival number arrival.2)
  let probes := shift.probes.map fun time => (time, Event.probe)
  (arrivals ++ probes).mergeSort fun first second => first.1 ≤ second.1

structure Taken (π : Type) where
  number : Nat
  progress : π

structure Record (π : Type) where
  state : State
  taken : List (Taken π)
  probes : List Probe

def apply (accept : State → α → State × π) (record : Record π) : Event α → Record π
  | .arrival number item =>
      let (state, progress) := accept record.state item
      { record with state := state, taken := record.taken ++ [⟨number, progress⟩] }
  | .probe => { record with probes := record.probes ++ [record.state.probe] }

def play (accept : State → α → State × π) (record : Record π) (event : Nat × Event α) : Record π :=
  let record := { record with state := record.state.advanceTo event.1 }
  let record := apply accept record event.2
  { record with state := record.state.settleNow }

def run (accept : State → α → State × π) (state : State) (shift : Shift α) : Record π :=
  let record := shift.events.foldl (play accept) { state := state, taken := [], probes := [] }
  { record with state := record.state.settle none }

end Shift

end OrderDesk
