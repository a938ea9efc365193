import OrderDesk.Failure
import OrderDesk.Reply.Basic

/-! What a call makes of its steps as they settle. Reports stand in the order of the steps. The
call fails with the first failure that is not a cancellation, or else with the first
cancellation, in the order of settling. -/

namespace OrderDesk.Schedule

abbrev Outcome := Option Failure

def classify (name : String) (millis : Nat) (outcome : Outcome) : StepReport :=
  match outcome with
  | none => { name := name, status := .ok, duration := .ofMillis millis, detail := "" }
  | some failure =>
      if failure.isCancellation then
        { name := name, status := .canceled, duration := .ofMillis millis, detail := "" }
      else
        { name := name, status := .error, duration := .ofMillis millis
          detail := failure.kind.getD "" }

structure Report where
  steps : List StepReport
  error : Option Failure

def Report.isOk (report : Report) : Bool := report.error.isNone

structure Settled where
  position : Nat
  millis : Nat
  outcome : Outcome

structure Tally where
  steps : List StepReport
  failure : Option Failure
  cancellation : Option Failure

namespace Tally

def start (names : List String) : Tally :=
  { steps := names.map StepReport.pending, failure := none, cancellation := none }

/-- Enters a settled step. Failures and cancellations are kept apart, and only the first of each
is kept. -/
def settle (tally : Tally) (settled : Settled) : Tally :=
  let steps := tally.steps.modify settled.position fun pending =>
    classify pending.name settled.millis settled.outcome
  match settled.outcome with
  | none => { tally with steps := steps }
  | some failure =>
      if failure.isCancellation then
        { tally with steps := steps, cancellation := tally.cancellation.or (some failure) }
      else { tally with steps := steps, failure := tally.failure.or (some failure) }

def report (tally : Tally) : Report :=
  { steps := tally.steps, error := tally.failure.or tally.cancellation }

theorem length_steps_settle (tally : Tally) (settled : Settled) :
    (tally.settle settled).steps.length = tally.steps.length := by
  unfold settle
  split <;> try split
  all_goals simp

end Tally

end OrderDesk.Schedule
