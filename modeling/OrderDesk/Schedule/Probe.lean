import OrderDesk.Schedule.Clock

/-! What can be seen from outside while work is going on. -/

namespace OrderDesk.Schedule

structure Probe where
  time : Nat
  running : Int
  available : Nat
  deriving DecidableEq, Repr

def State.probe (state : State) : Probe :=
  { time := state.clock, running := state.running, available := state.limiter.free }

end OrderDesk.Schedule
