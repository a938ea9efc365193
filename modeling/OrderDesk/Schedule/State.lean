import OrderDesk.Schedule.Action
import OrderDesk.Schedule.Limiter
import OrderDesk.Schedule.Report
import OrderDesk.Schedule.Scope

/-! Everything that moves: a clock, the line of workers that can run, timers, scopes, the
limiter, the count of running bodies, tasks and calls. A task works off a script. A call opens
one task for each of its steps and enters their outcomes as they settle. -/

namespace OrderDesk.Schedule

abbrev TaskId := Nat

abbrev CallId := Nat

inductive Worker where
  | task (id : TaskId)
  | call (id : CallId)
  deriving DecidableEq, Repr

structure Timer where
  due : Nat
  task : TaskId
  deriving DecidableEq, Repr

inductive Ending where
  | returned (millis : Nat) (outcome : Outcome)
  | crashed (message : String)

inductive Life where
  | live
  /-- Told to drop everything as soon as it gets to run. -/
  | doomed
  | ended (time : Nat) (ending : Ending)
  | dropped

structure Duty where
  call : CallId
  position : Nat
  deriving DecidableEq, Repr

/-- A task that waits does so in the first action of its script, until the time `wake` if it has
one. A task on its own keeps the slots that it holds when it ends. -/
structure Task where
  scope : ScopeId
  duty : Option Duty
  script : Script
  waits : Bool
  wake : Option Nat
  started : Nat
  guards : Nat
  slots : Nat
  life : Life

def Task.new (scope : ScopeId) (duty : Option Duty) (script : Script) (started : Nat) : Task :=
  { scope := scope, duty := duty, script := script, waits := false, wake := none
    started := started, guards := 0, slots := 0, life := .live }

/-- A call in progress joins the tasks in `finished`, which settled in this order; `left` counts
the tasks that it has not joined. -/
structure Call where
  context : ScopeId
  scope : ScopeId
  started : Nat
  tasks : List TaskId
  finished : List TaskId
  left : Nat
  tally : Tally
  aborted : Bool
  ended : Option (Nat × Option Cause)

def Call.new (context scope : ScopeId) (started : Nat) (names : List String)
    (tasks : List TaskId) : Call :=
  { context := context, scope := scope, started := started, tasks := tasks, finished := []
    left := tasks.length, tally := .start names, aborted := false, ended := none }

structure Note where
  time : Nat
  duty : Duty
  index : Nat
  tag : String
  deriving DecidableEq, Repr

/-- Notes are kept latest first. Everything else that is a list and can be waited for is in the
order of arrival. -/
structure State where
  clock : Nat
  ready : List Worker
  timers : List Timer
  listeners : List (TaskId × ScopeId)
  scopes : Scopes
  limiter : Limiter
  running : Int
  tasks : List Task
  calls : List Call
  notes : List Note

namespace State

def start (limiter : Limiter) : State :=
  { clock := 0, ready := [], timers := [], listeners := [], scopes := [], limiter := limiter
    running := 0, tasks := [], calls := [], notes := [] }

/-- The same clock, limiter and count, with all that is over forgotten. -/
def restart (state : State) : State :=
  { start state.limiter with clock := state.clock, running := state.running }

def wake (state : State) (worker : Worker) : State :=
  if state.ready.contains worker then state else { state with ready := state.ready ++ [worker] }

def wakeAll (state : State) (tasks : List TaskId) : State :=
  tasks.foldl (fun state task => state.wake (.task task)) state

def cause? (state : State) (scope : ScopeId) : Option Cause :=
  state.scopes.cause? scope state.clock

/-- What a task hears that begins to wait for the end of a scope. A timer for a time that has come
fires at once. -/
def doneAtOnce? (state : State) (scope : ScopeId) : Option Cause :=
  state.scopes.race scope fun due => due ≤ state.clock

/-- What the task `id` hears that has waited for the end of a scope. Its timer for the deadline has
fired if it is not set any more. -/
def done? (state : State) (id : TaskId) (scope : ScopeId) : Option Cause :=
  state.scopes.race scope fun due => !state.timers.contains ⟨due, id⟩

theorem doneAtOnce?_eq (state : State) (scope : ScopeId) :
    state.doneAtOnce? scope = state.cause? scope :=
  Scopes.race_eq fun _ _ => rfl

def addBackground (state : State) : State × ScopeId :=
  ({ state with scopes := state.scopes.addBackground }, state.scopes.length)

def derive (state : State) (parent : ScopeId) (deadline : Option Nat) : State × ScopeId :=
  ({ state with scopes := state.scopes.derive parent deadline }, state.scopes.length)

def cancelScope (state : State) (target : ScopeId) : State :=
  let heard := state.listeners.filter fun listener => state.scopes.isWithin listener.2 target
  { state with scopes := state.scopes.cancel target }.wakeAll (heard.map Prod.fst)

def withLimiter (state : State) (change : Limiter × Option TaskId) : State :=
  let state := { state with limiter := change.1 }
  match change.2 with
  | some task => state.wake (.task task)
  | none => state

def giveSlot (state : State) : State :=
  state.withLimiter state.limiter.give

def giveSlots (state : State) : Nat → State
  | 0 => state
  | count + 1 => state.giveSlot.giveSlots count

def giveBack (state : State) (task : Task) : State :=
  { state with running := state.running - task.guards }.giveSlots task.slots

/-- Sets a timer for the deadline of a scope and listens to its cancellation. -/
def listen (state : State) (id : TaskId) (scope : ScopeId) : State :=
  let timers :=
    match state.scopes.deadline? scope with
    | some due => state.timers ++ [⟨due, id⟩]
    | none => state.timers
  { state with timers := timers, listeners := state.listeners ++ [(id, scope)] }

def setTimer (state : State) (id : TaskId) (due : Nat) : State :=
  { state with timers := state.timers ++ [⟨due, id⟩] }

def unlisten (state : State) (id : TaskId) : State :=
  { state with
    timers := state.timers.filter fun timer => timer.task != id
    listeners := state.listeners.filter fun listener => listener.1 != id }

/-! ## Actions -/

/-- What comes of an action: the body goes on, or ends, or waits. -/
inductive Advance where
  | proceed (state : State) (task : Task)
  | stop (state : State) (ending : Ending)
  | wait (state : State) (task : Task)

def returned (state : State) (task : Task) (outcome : Outcome) : Ending :=
  .returned (state.clock - task.started) outcome

def stopWith (state : State) (task : Task) (failure : Failure) : Advance :=
  .stop state (state.returned task (some failure))

/-- The first attempt at an action. -/
def attempt (state : State) (id : TaskId) (task : Task) : Action → Advance
  | .wait millis =>
      if millis = 0 then .proceed state task
      else
        match state.doneAtOnce? task.scope with
        | some cause => state.stopWith task (.cancelled cause)
        | none =>
            let due := state.clock + millis
            .wait ((state.listen id task.scope).setTimer id due)
              { task with waits := true, wake := some due }
  | .sleep millis =>
      if millis = 0 then .proceed state task
      else
        let due := state.clock + millis
        .wait (state.setTimer id due) { task with waits := true, wake := some due }
  | .acquire =>
      match (state.cause? task.scope).or (state.doneAtOnce? task.scope) with
      | some cause => state.stopWith task (.cancelled cause)
      | none =>
          match state.limiter.take? with
          | some limiter =>
              .proceed { state with limiter := limiter } { task with slots := task.slots + 1 }
          | none =>
              let state := state.listen id task.scope
              .wait { state with limiter := state.limiter.wait id }
                { task with waits := true, wake := none }
  | .release =>
      if task.slots = 0 then .proceed state task
      else .proceed state.giveSlot { task with slots := task.slots - 1 }
  | .enter =>
      .proceed { state with running := state.running + 1 } { task with guards := task.guards + 1 }
  | .leave =>
      if task.guards = 0 then .proceed state task
      else
        .proceed { state with running := state.running - 1 } { task with guards := task.guards - 1 }
  | .cancel => .proceed (state.cancelScope task.scope) task
  | .done =>
      match state.doneAtOnce? task.scope with
      | some cause => state.stopWith task (.cancelled cause)
      | none => .wait (state.listen id task.scope) { task with waits := true, wake := none }
  | .swallow =>
      match state.doneAtOnce? task.scope with
      | some _ => .proceed state task
      | none => .wait (state.listen id task.scope) { task with waits := true, wake := none }
  | .check =>
      match state.cause? task.scope with
      | some cause => state.stopWith task (.cancelled cause)
      | none => .proceed state task
  | .require slots failure =>
      if state.limiter.free < slots then state.stopWith task failure else .proceed state task
  | .note index tag =>
      match task.duty with
      | some duty => .proceed { state with notes := ⟨state.clock, duty, index, tag⟩ :: state.notes } task
      | none => .proceed state task
  | .fail failure => state.stopWith task failure
  | .crash message => .stop state (.crashed message)
  | .finish => .stop state (state.returned task none)

/-- A later look at the action that a task waits in. The end of the scope counts before anything
else that may have come at the same time. -/
def resume (state : State) (id : TaskId) (task : Task) (action : Action) : Advance :=
  let quiet := state.unlisten id
  let awake := { task with waits := false, wake := none }
  let due := task.wake.any fun wake => wake ≤ state.clock
  match action with
  | .wait _ =>
      match state.done? id task.scope with
      | some cause => quiet.stopWith task (.cancelled cause)
      | none => if due then .proceed quiet awake else .wait state task
  | .sleep _ => if due then .proceed quiet awake else .wait state task
  | .acquire =>
      match state.done? id task.scope with
      | some cause => (quiet.withLimiter (quiet.limiter.leave id)).stopWith task (.cancelled cause)
      | none =>
          if state.limiter.granted.contains id then
            .proceed { quiet with limiter := quiet.limiter.claim id }
              { awake with slots := task.slots + 1 }
          else .wait state task
  | .done =>
      match state.done? id task.scope with
      | some cause => quiet.stopWith task (.cancelled cause)
      | none => .wait state task
  | .swallow =>
      match state.done? id task.scope with
      | some _ => .proceed quiet awake
      | none => .wait state task
  | _ => .proceed quiet awake

def setTask (state : State) (id : TaskId) (task : Task) : State :=
  { state with tasks := state.tasks.set id task }

def report (state : State) (id : TaskId) : Option Duty → State
  | none => state
  | some duty =>
      { state with
        calls := state.calls.modify duty.call fun call =>
          { call with finished := call.finished ++ [id] } }.wake (.call duty.call)

def finish (state : State) (id : TaskId) (task : Task) (ending : Ending) : State :=
  let life := Life.ended state.clock ending
  match task.duty with
  | none => state.setTask id { task with script := [], waits := false, wake := none, life := life }
  | some duty =>
      ((state.giveBack task).setTask id
        { task with
          script := [], waits := false, wake := none, guards := 0, slots := 0, life := life }).report
        id (some duty)

def perform (state : State) (id : TaskId) (task : Task) : Script → State
  | [] => state.finish id task (state.returned task none)
  | action :: rest =>
      match state.attempt id task action with
      | .proceed state task => perform state id task rest
      | .stop state ending => state.finish id task ending
      | .wait state task => state.setTask id { task with script := action :: rest }

def drop (state : State) (id : TaskId) (task : Task) : State :=
  let state := state.unlisten id
  let state := state.withLimiter (state.limiter.leave id)
  let gone := { task with script := [], waits := false, wake := none, life := Life.dropped }
  match task.duty with
  | none => state.setTask id gone
  | some _ => (state.giveBack task).setTask id { gone with guards := 0, slots := 0 }

def runTask (state : State) (id : TaskId) : State :=
  match state.tasks[id]? with
  | none => state
  | some task =>
      match task.life with
      | .live =>
          match task.waits, task.script with
          | true, action :: rest =>
              match state.resume id task action with
              | .proceed state task => state.perform id task rest
              | .stop state ending => state.finish id task ending
              | .wait _ _ => state
          | _, script => state.perform id task script
      | .doomed => state.drop id task
      | _ => state

def settled? (state : State) (call : Call) (id : TaskId) : Option Settled := do
  let task ← state.tasks[id]?
  let duty ← task.duty
  match task.life with
  | .ended _ (.returned millis outcome) => some ⟨duty.position, millis, outcome⟩
  | .ended _ (.crashed message) =>
      some ⟨duty.position, state.clock - call.started, some (.other (.crash message))⟩
  | _ => none

/-- Enters settled tasks one after another. Each failure cancels the scope of the call. -/
def join (state : State) (call : Call) : List TaskId → State × Call
  | [] => (state, call)
  | id :: rest =>
      match state.settled? call id with
      | none => join state call rest
      | some settled =>
          let state := if settled.outcome.isSome then state.cancelScope call.scope else state
          join state { call with tally := call.tally.settle settled, left := call.left - 1 } rest

def runCall (state : State) (id : CallId) : State :=
  match state.calls[id]? with
  | none => state
  | some call =>
      if call.aborted || call.ended.isSome then state
      else
        let (state, call) := state.join { call with finished := [] } call.finished
        let ended :=
          if call.left = 0 then some (state.clock, state.cause? call.context) else none
        { state with calls := state.calls.set id { call with ended := ended } }

def run (state : State) : Worker → State
  | .task id => state.runTask id
  | .call id => state.runCall id

def spawn (state : State) (scope : ScopeId) (duty : Option Duty) (script : Script) : State :=
  let task := Task.new scope duty script state.clock
  { state with tasks := state.tasks ++ [task] }.wake (.task state.tasks.length)

def spawnSteps (state : State) (scope : ScopeId) (call : CallId) :
    Nat → List Script → State × List TaskId
  | _, [] => (state, [])
  | position, script :: scripts =>
      let id := state.tasks.length
      let (state, ids) :=
        (state.spawn scope (some ⟨call, position⟩) script).spawnSteps scope call (position + 1) scripts
      (state, id :: ids)

/-- Opens a call in a context. Its steps share a scope of their own, derived from the context. -/
def openCall (state : State) (context : ScopeId) (steps : List (String × Script)) :
    State × CallId :=
  let id := state.calls.length
  let started := state.clock
  let (state, scope) := state.derive context none
  let (state, tasks) := state.spawnSteps scope id 0 (steps.map Prod.snd)
  let call := Call.new context scope started (steps.map Prod.fst) tasks
  ({ state with calls := state.calls ++ [call] }, id)

def doom (state : State) (id : TaskId) : State :=
  match state.tasks[id]? with
  | none => state
  | some task =>
      match task.life with
      | .live => (state.setTask id { task with life := .doomed }).wake (.task id)
      | _ => state

/-- Gives up on a call, unless it has ended. Its tasks drop everything, first step first. -/
def abortCall (state : State) (id : CallId) : State :=
  match state.calls[id]? with
  | none => state
  | some call =>
      if call.aborted || call.ended.isSome then state
      else
        let state : State := { state with calls := state.calls.set id { call with aborted := true } }
        call.tasks.foldl doom state

end State

end OrderDesk.Schedule
