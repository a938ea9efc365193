/-! The limiter: a fixed number of slots for all work that needs one. Whoever finds no free slot
waits in line, and a slot that comes back goes to the front of the line. Between the moment a
waiter is granted a slot and the moment it takes notice, the slot is neither free nor held. -/

namespace OrderDesk.Schedule

structure Limiter where
  capacity : Nat
  free : Nat
  waiting : List Nat
  granted : List Nat
  deriving DecidableEq, Repr

namespace Limiter

def leastCapacity : Int := 1

def greatestCapacity : Int := 128

def clamp (requested : Int) : Nat :=
  (max leastCapacity (min requested greatestCapacity)).toNat

theorem clamp_bounds (requested : Int) : 1 ≤ clamp requested ∧ clamp requested ≤ 128 := by
  simp only [clamp, leastCapacity, greatestCapacity]
  omega

def new (requested : Int) : Limiter :=
  { capacity := clamp requested, free := clamp requested, waiting := [], granted := [] }

def take? (limiter : Limiter) : Option Limiter :=
  if limiter.free = 0 then none else some { limiter with free := limiter.free - 1 }

def wait (limiter : Limiter) (task : Nat) : Limiter :=
  { limiter with waiting := limiter.waiting ++ [task] }

/-- Gives a slot back. The first in line is granted it, and is named so that it can be woken. -/
def give (limiter : Limiter) : Limiter × Option Nat :=
  match limiter.waiting with
  | [] => ({ limiter with free := limiter.free + 1 }, none)
  | first :: rest =>
      ({ limiter with waiting := rest, granted := limiter.granted ++ [first] }, some first)

/-- A waiter that was granted a slot now holds it. -/
def claim (limiter : Limiter) (task : Nat) : Limiter :=
  { limiter with granted := limiter.granted.erase task }

/-- Leaves the line. A slot that was granted already passes on. -/
def leave (limiter : Limiter) (task : Nat) : Limiter × Option Nat :=
  if limiter.granted.contains task then (limiter.claim task).give
  else ({ limiter with waiting := limiter.waiting.erase task }, none)

end Limiter

end OrderDesk.Schedule
