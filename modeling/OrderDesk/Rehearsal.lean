import OrderDesk.Pipeline
import OrderDesk.Schedule.Probe

/-! Rehearsals run a pipeline of scripted steps under a plan: calls that start at given times,
each in a context of its own under one root, and interventions from outside. What is planned for
a time happens after everything that is due by then. -/

namespace OrderDesk

open Schedule

namespace Rehearsal

/-- A stage direction: an action, or one that depends on the number of the request. -/
inductive Direction where
  | always (action : Action)
  | note (tag : String)
  /-- Waits for a multiple of the request number. -/
  | waitTimes (factor : Nat)
  /-- Fails if the divisor divides the request number. -/
  | failEvery (divisor : Nat) (failure : Failure)
  | failAt (request : Nat) (failure : Failure)

def Direction.actions (request index : Nat) : Direction → Script
  | always action => [action]
  | note tag => [.note index tag]
  | waitTimes factor => [.wait (request * factor)]
  | failEvery divisor failure => if request % divisor = 0 then [.fail failure] else []
  | failAt wanted failure => if request = wanted then [.fail failure] else []

def script (request : Nat) : Nat → List Direction → Script
  | _, [] => []
  | index, direction :: directions =>
      direction.actions request index ++ script request (index + 1) directions

structure Part where
  name : String
  directions : List Direction

def cast {ρ : Type} (number : ρ → Nat) (parts : List Part) : Except WiringError (Pipeline ρ) := do
  let steps ← parts.mapM fun part =>
    Step.new? part.name fun request => script (number request) 0 part.directions
  Pipeline.new? steps

/-- A call of the plan. The timeout counts from its start; the deadline is a time. -/
structure Visit where
  start : Nat
  request : Nat
  timeout : Option Nat
  deadline : Option Nat
  canceledBefore : Bool
  cancelAt : Option Nat
  abortAt : Option Nat
  deriving Repr

structure Plan where
  slots : Int
  timeout : Option Nat
  deadline : Option Nat
  visits : List Visit
  cancelRootAt : Option Nat
  probes : List Nat
  deriving Repr

inductive Event where
  | start (visit : Nat)
  | cancel (visit : Nat)
  | abort (visit : Nat)
  | cancelRoot
  | probe
  deriving DecidableEq, Repr

def Visit.events (number : Nat) (visit : Visit) : List (Nat × Event) :=
  [(visit.start, .start number)] ++
    (visit.cancelAt.map fun time => (time, .cancel number)).toList ++
    (visit.abortAt.map fun time => (time, .abort number)).toList

def Plan.events (plan : Plan) : List (Nat × Event) :=
  let visits := (plan.visits.mapIdx fun number visit => visit.events number).flatten
  let root := (plan.cancelRootAt.map fun time => (time, Event.cancelRoot)).toList
  let probes := plan.probes.map fun time => (time, Event.probe)
  (visits ++ root ++ probes).mergeSort fun first second => first.1 ≤ second.1

structure Started where
  visit : Nat
  context : ScopeId
  call : CallId

structure Stage where
  state : State
  root : ScopeId
  started : List Started
  probes : List Probe

namespace Stage

def context (state : State) (root : ScopeId) (visit : Visit) : State × ScopeId :=
  let made := state.derive root none
  let made :=
    match visit.timeout with
    | some millis => made.1.derive made.2 (some (made.1.clock + millis))
    | none => made
  let made :=
    match visit.deadline with
    | some time => made.1.derive made.2 (some time)
    | none => made
  if visit.canceledBefore then (made.1.cancelScope made.2, made.2) else made

def find? (stage : Stage) (visit : Nat) : Option Started :=
  stage.started.find? fun started => started.visit == visit

def apply (pipeline : Pipeline Nat) (plan : Plan) (stage : Stage) : Event → Stage
  | .start number =>
      match plan.visits[number]? with
      | none => stage
      | some visit =>
          let (state, context) := context stage.state stage.root visit
          let (state, call) := state.openCall context (pipeline.scripts visit.request)
          { stage with state := state, started := stage.started ++ [⟨number, context, call⟩] }
  | .cancel number =>
      match stage.find? number with
      | none => stage
      | some started => { stage with state := stage.state.cancelScope started.context }
  | .abort number =>
      match stage.find? number with
      | none => stage
      | some started => { stage with state := stage.state.abortCall started.call }
  | .cancelRoot => { stage with state := stage.state.cancelScope stage.root }
  | .probe => { stage with probes := stage.probes ++ [stage.state.probe] }

def play (pipeline : Pipeline Nat) (plan : Plan) (stage : Stage) (event : Nat × Event) : Stage :=
  let stage := { stage with state := stage.state.advanceTo event.1 }
  let stage := stage.apply pipeline plan event.2
  { stage with state := stage.state.settleNow }

end Stage

inductive Fate where
  | aborted
  | ended (time : Nat) (contextCause : Option Cause) (report : Report)

structure Remark where
  time : Nat
  request : Nat
  position : Nat
  index : Nat
  tag : String
  deriving DecidableEq, Repr

def Remark.le (first second : Remark) : Bool :=
  if first.time ≠ second.time then first.time < second.time
  else if first.request ≠ second.request then first.request < second.request
  else if first.position ≠ second.position then first.position < second.position
  else if first.index ≠ second.index then first.index < second.index
  else first.tag ≤ second.tag

structure Outcome where
  fates : List Fate
  probes : List Probe
  remarks : List Remark
  running : Int
  available : Nat
  rootCause : Option Cause

def fate? (state : State) (started : Started) : Option Fate := do
  let call ← state.calls[started.call]?
  match call.ended with
  | some (time, cause) => some (.ended time cause call.tally.report)
  | none => if call.aborted then some .aborted else none

def remark? (plan : Plan) (started : List Started) (note : Note) : Option Remark := do
  let started ← started.find? fun started => started.call == note.duty.call
  let visit ← plan.visits[started.visit]?
  return ⟨note.time, visit.request, note.duty.position, note.index, note.tag⟩

def perform? (pipeline : Pipeline Nat) (plan : Plan) : Option Outcome := do
  let (state, background) := (State.start (.new plan.slots)).addBackground
  let made := state.derive background none
  let made :=
    match plan.timeout with
    | some millis => made.1.derive made.2 (some (made.1.clock + millis))
    | none => made
  let made :=
    match plan.deadline with
    | some time => made.1.derive made.2 (some time)
    | none => made
  let stage : Stage := { state := made.1, root := made.2, started := [], probes := [] }
  let stage := plan.events.foldl (Stage.play pipeline plan) stage
  let state := stage.state.settle none
  let inOrder := stage.started.mergeSort fun first second => first.visit ≤ second.visit
  let fates ← inOrder.mapM (fate? state)
  return {
    fates := fates
    probes := stage.probes
    remarks := (state.notes.reverse.filterMap (remark? plan stage.started)).mergeSort Remark.le
    running := state.running
    available := state.limiter.free
    rootCause := state.cause? stage.root }

end Rehearsal

end OrderDesk
