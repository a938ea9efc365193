import OrderDesk.Schedule.Clock

/-! Runs: a state under everything that can happen to it, one move after another. Workers in line
run in any order, and the clock moves only while nobody is in line and never past a timer. From
outside, scopes are made and canceled, calls are opened and given up, and tasks that work for no
call come and go. A history remembers two things that a state forgets: the bodies that have
begun, and what each call has joined. Settling is one of the runs. -/

namespace OrderDesk.Schedule

inductive Move where
  | addBackground
  | derive (parent : ScopeId) (deadline : Option Nat)
  | cancel (target : ScopeId)
  | openCall (context : ScopeId) (steps : List (String × Script))
  | abortCall (id : CallId)
  | spawn (scope : ScopeId) (script : Script)
  | doom (id : TaskId)
  | release (id : TaskId)
  | turn (worker : Worker)
  | jump (time : Nat)

def Task.isFresh (task : Task) : Bool :=
  match task.life with
  | .live => !task.waits
  | _ => false

namespace State

/-- Whether a task works for no call, so that it can be told what to do from outside. -/
def isLoose (state : State) (id : TaskId) : Bool :=
  state.tasks[id]?.any fun task => task.duty.isNone

def release (state : State) (id : TaskId) : State :=
  match state.tasks[id]? with
  | none => state
  | some task =>
      if task.slots = 0 then state
      else (state.setTask id { task with slots := task.slots - 1 }).giveSlot

/-- Nobody is in line, and no timer would be passed over. Time is virtual, so it only passes while
everybody waits, and it stops at each timer. -/
def canJump (state : State) (time : Nat) : Bool :=
  state.ready.isEmpty && state.timers.all fun timer => time ≤ timer.due

def apply (state : State) : Move → State
  | .addBackground => state.addBackground.1
  | .derive parent deadline => (state.derive parent deadline).1
  | .cancel target => state.cancelScope target
  | .openCall context steps => (state.openCall context steps).1
  | .abortCall id => state.abortCall id
  | .spawn scope script => state.spawn scope none script
  | .doom id => if state.isLoose id then state.doom id else state
  | .release id => if state.isLoose id then state.release id else state
  | .turn worker =>
      if worker ∈ state.ready then { state with ready := state.ready.erase worker }.run worker
      else state
  | .jump time => if state.canJump time then state.jump time else state

def play (state : State) (moves : List Move) : State :=
  moves.foldl apply state

@[simp] theorem play_nil (state : State) : state.play [] = state := rfl

@[simp] theorem play_cons (state : State) (move : Move) (moves : List Move) :
    state.play (move :: moves) = (state.apply move).play moves := rfl

theorem play_append (state : State) (first second : List Move) :
    state.play (first ++ second) = (state.play first).play second :=
  List.foldl_append

end State

/-- The first turn of the body of a step. -/
structure Beginning where
  duty : Duty
  time : Nat
  script : Script

namespace State

def begun (state : State) : Move → List Beginning
  | .turn (.task id) =>
      match state.tasks[id]? with
      | some task =>
          if .task id ∈ state.ready ∧ task.isFresh then
            (task.duty.map fun duty => ⟨duty, state.clock, task.script⟩).toList
          else []
      | none => []
  | _ => []

def entries (state : State) (call : Call) : List Settled :=
  if call.aborted || call.ended.isSome then []
  else call.finished.filterMap (state.settled? call)

def joined (state : State) : Move → List (CallId × Settled)
  | .turn (.call id) =>
      match state.calls[id]? with
      | some call =>
          if .call id ∈ state.ready then (state.entries call).map (id, ·) else []
      | none => []
  | _ => []

end State

structure History where
  state : State
  begun : List Beginning
  joined : List (CallId × Settled)

namespace History

def start (limiter : Limiter) : History :=
  { state := .start limiter, begun := [], joined := [] }

def add (history : History) (move : Move) : History :=
  { state := history.state.apply move
    begun := history.begun ++ history.state.begun move
    joined := history.joined ++ history.state.joined move }

def play (history : History) (moves : List Move) : History :=
  moves.foldl add history

def joinedBy (history : History) (id : CallId) : List Settled :=
  (history.joined.filter fun entry => entry.1 == id).map Prod.snd

/-- When the body for `duty` has begun, and what it does. -/
def beginnings (history : History) (duty : Duty) : List (Nat × Script) :=
  (history.begun.filter fun beginning => beginning.duty == duty).map fun beginning =>
    (beginning.time, beginning.script)

@[simp] theorem play_nil (history : History) : history.play [] = history := rfl

@[simp] theorem play_cons (history : History) (move : Move) (moves : List Move) :
    history.play (move :: moves) = (history.add move).play moves := rfl

theorem play_append (history : History) (first second : List Move) :
    history.play (first ++ second) = (history.play first).play second :=
  List.foldl_append

theorem state_play (history : History) (moves : List Move) :
    (history.play moves).state = history.state.play moves := by
  induction moves generalizing history with
  | nil => rfl
  | cons move moves ih => exact ih (history.add move)

theorem joinedBy_add (history : History) (move : Move) (id : CallId) :
    (history.add move).joinedBy id = history.joinedBy id ++
      ((history.state.joined move).filter fun entry => entry.1 == id).map Prod.snd := by
  simp [joinedBy, add]

theorem beginnings_add (history : History) (move : Move) (duty : Duty) :
    (history.add move).beginnings duty = history.beginnings duty ++
      ((history.state.begun move).filter fun beginning => beginning.duty == duty).map
        fun beginning => (beginning.time, beginning.script) := by
  simp [beginnings, add]

/-- What holds at the beginning and survives every move holds after every run. -/
theorem play_keeps (holds : History → Prop) (history : History) (moves : List Move)
    (first : holds history) (step : ∀ history move, holds history → holds (history.add move)) :
    holds (history.play moves) := by
  induction moves generalizing history with
  | nil => exact first
  | cons move moves ih => exact ih (history.add move) (step history move first)

end History

/-! ## Settling is a run -/

namespace State

theorem foldl_earlier_le (timers : List Timer) (start : Option Nat) (due : Nat)
    (least : timers.foldl (fun least timer => earlier least (some timer.due)) start = some due) :
    (∀ time ∈ start, due ≤ time) ∧ ∀ timer ∈ timers, due ≤ timer.due := by
  induction timers generalizing start with
  | nil =>
      simp only [List.foldl_nil] at least
      simp [least]
  | cons timer timers ih =>
      obtain ⟨first, others⟩ := ih _ least
      cases start with
      | none =>
          have bound := first timer.due (by simp [earlier])
          refine ⟨by simp, ?_⟩
          intro other member
          rcases List.mem_cons.mp member with same | later
          · exact same ▸ bound
          · exact others other later
      | some time =>
          have bound := first (min time timer.due) (by simp [earlier])
          refine ⟨by simp; omega, ?_⟩
          intro other member
          rcases List.mem_cons.mp member with same | later
          · subst same
            omega
          · exact others other later

theorem nextDue_le (state : State) (due : Nat) (next : state.nextDue = some due) :
    ∀ timer ∈ state.timers, due ≤ timer.due :=
  (foldl_earlier_le state.timers none due next).2

/-- The next thing that happens is the turn of the first in line, or that time passes. -/
theorem move_of_tick {limit : Option Nat} {before after : State}
    (ticked : before.tick limit = some after) :
    (∃ worker, before.ready.head? = some worker ∧ before.apply (.turn worker) = after) ∨
      ∃ time, before.canJump time = true ∧ before.apply (.jump time) = after := by
  unfold tick at ticked
  split at ticked
  · rename_i worker rest line
    obtain rfl := Option.some.inj ticked
    refine .inl ⟨worker, by simp [line], ?_⟩
    have first : worker ∈ before.ready := by simp [line]
    simp only [apply, first, if_true]
    simp [line]
  · rename_i line
    split at ticked
    · cases ticked
    · rename_i due next
      split at ticked
      · obtain rfl := Option.some.inj ticked
        have possible : before.canJump due = true := by
          simpa [canJump, line] using nextDue_le before due next
        refine .inr ⟨due, possible, ?_⟩
        simp only [apply, possible, if_true]
      · cases ticked

end State

end OrderDesk.Schedule
