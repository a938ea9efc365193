import OrderDesk.Failure

/-! The body of a step, as the list of things it does. An action either lets the body go on at
once, or makes it wait, or ends it. -/

namespace OrderDesk.Schedule

inductive Action where
  /-- Waits for a time, or fails with the cause if the scope ends first. No time at all passes
  even in a scope that has ended. -/
  | wait (millis : Nat)
  /-- Waits for a time, whatever becomes of the scope. -/
  | sleep (millis : Nat)
  /-- Waits for a slot of the limiter, or fails with the cause if the scope ends first. -/
  | acquire
  /-- Gives a slot back, if it holds one. -/
  | release
  /-- Counts as running from here on. -/
  | enter
  /-- Counts as running once less. -/
  | leave
  /-- Cancels its own scope. -/
  | cancel
  /-- Waits for the scope to end and fails with the cause. -/
  | done
  /-- Waits for the scope to end and goes on. -/
  | swallow
  /-- Fails with the cause if the scope has ended. -/
  | check
  /-- Fails if fewer slots than that are free. -/
  | require (slots : Nat) (failure : Failure)
  /-- Leaves a note, numbered by its place in the body. -/
  | note (index : Nat) (tag : String)
  | fail (failure : Failure)
  | crash (message : String)
  /-- Ends well, whatever follows. -/
  | finish

abbrev Script := List Action

end OrderDesk.Schedule
