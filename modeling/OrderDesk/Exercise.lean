import OrderDesk.Schedule.Clock

/-! Exercises drive scopes, one limiter and the running count directly, one operation after
another. Before an operation and after it, everything happens that can happen by then. -/

namespace OrderDesk

open Schedule

namespace Exercise

/-- An operation. Contexts and tasks are numbered from zero in the order in which they come
about, and context zero is there from the beginning. -/
inductive Operation where
  | background
  | clone (context : Nat)
  | child (context : Nat)
  | withTimeout (context : Nat) (millis : Nat)
  | withDeadline (context : Nat) (time : Nat)
  | cancel (context : Nat)
  | cause (context : Nat)
  | deadline (context : Nat)
  | advance (millis : Nat)
  | done (context : Nat)
  | wait (context : Nat) (millis : Nat)
  | acquire (context : Nat)
  | release (task : Nat)
  | abort (task : Nat)
  | capacity
  | newCapacity (requested : Int)
  | increment
  | decrement
  | enter
  | leave
  deriving Repr

inductive Answer where
  | nothing
  | context (number : Nat)
  | task (number : Nat)
  | cause (cause : Option Cause)
  | deadline (time : Option Nat)
  | flag (value : Bool)
  | number (value : Nat)
  deriving DecidableEq, Repr

inductive Result where
  | ok
  | slot
  | stopped (cause : Cause)
  deriving DecidableEq, Repr

structure Fired where
  task : Nat
  result : Result
  time : Nat
  deriving DecidableEq, Repr

/-- A context is a scope with a number of its own; clones share a scope. -/
structure Session where
  state : State
  contexts : List ScopeId
  guards : Nat

structure Snapshot where
  answer : Answer
  time : Nat
  fired : List Fired
  available : Nat
  running : Int
  deriving DecidableEq, Repr

namespace Session

def start (capacity : Int) : Session :=
  let (state, scope) := (State.start (.new capacity)).addBackground
  { state := state, contexts := [scope], guards := 0 }

/-- Contexts that do not exist stand for the one that always does. -/
def scope (session : Session) (context : Nat) : ScopeId :=
  session.contexts.getD context 0

def addContext (session : Session) (made : State × ScopeId) : Session × Answer :=
  ({ session with state := made.1, contexts := session.contexts ++ [made.2] },
    .context session.contexts.length)

def addTask (session : Session) (context : Nat) (action : Action) : Session × Answer :=
  ({ session with state := session.state.spawn (session.scope context) none [action] },
    .task session.state.tasks.length)

def count (session : Session) (difference : Int) : Session :=
  { session with
    state := { session.state with running := session.state.running + difference } }

def perform (session : Session) : Operation → Session × Answer
  | .background => session.addContext session.state.addBackground
  | .clone context => session.addContext (session.state, session.scope context)
  | .child context => session.addContext (session.state.derive (session.scope context) none)
  | .withTimeout context millis =>
      let due := session.state.clock + millis
      session.addContext (session.state.derive (session.scope context) (some due))
  | .withDeadline context time =>
      session.addContext (session.state.derive (session.scope context) (some time))
  | .cancel context =>
      ({ session with state := session.state.cancelScope (session.scope context) }, .nothing)
  | .cause context => (session, .cause (session.state.cause? (session.scope context)))
  | .deadline context =>
      (session, .deadline (session.state.scopes.deadline? (session.scope context)))
  | .advance millis =>
      ({ session with state := session.state.advanceTo (session.state.clock + millis) }, .nothing)
  | .done context => session.addTask context .done
  | .wait context millis => session.addTask context (.wait millis)
  | .acquire context => session.addTask context .acquire
  | .release number =>
      match session.state.tasks[number]? with
      | some task =>
          if task.slots = 0 then (session, .flag false)
          else
            let state := session.state.setTask number { task with slots := task.slots - 1 }
            ({ session with state := state.giveSlot }, .flag true)
      | none => (session, .flag false)
  | .abort number => ({ session with state := session.state.doom number }, .nothing)
  | .capacity => (session, .number session.state.limiter.capacity)
  | .newCapacity requested => (session, .number (Limiter.new requested).capacity)
  | .increment => (session.count 1, .nothing)
  | .decrement => (session.count (-1), .nothing)
  | .enter => ({ session.count 1 with guards := session.guards + 1 }, .nothing)
  | .leave =>
      if session.guards = 0 then (session, .flag false)
      else ({ session.count (-1) with guards := session.guards - 1 }, .flag true)

def fired? (number : Nat) (task : Task) : Option Fired :=
  match task.life with
  | .ended time (.returned _ none) => some ⟨number, if task.slots = 0 then .ok else .slot, time⟩
  | .ended time (.returned _ (some failure)) =>
      failure.cancellation.map fun cause => ⟨number, .stopped cause, time⟩
  | _ => none

def firedFrom (number : Nat) : List Task → List Fired
  | [] => []
  | task :: tasks => (fired? number task).toList ++ firedFrom (number + 1) tasks

def ends (session : Session) : List Fired :=
  firedFrom 0 session.state.tasks

def step (session : Session) (operation : Operation) : Session × Snapshot :=
  let (next, answer) := session.perform operation
  let next := { next with state := next.state.settleNow }
  let known := session.ends.map Fired.task
  (next,
    { answer := answer
      time := next.state.clock
      fired := next.ends.filter fun fired => !known.contains fired.task
      available := next.state.limiter.free
      running := next.state.running })

def run (session : Session) : List Operation → List Snapshot
  | [] => []
  | operation :: operations =>
      let (next, snapshot) := session.step operation
      snapshot :: next.run operations

end Session

def snapshots (capacity : Int) (operations : List Operation) : List Snapshot :=
  (Session.start capacity).run operations

end Exercise

end OrderDesk
