import OrderDesk.Proofs.Calls

/-! No timer is overdue: a timer is set for a later time, and time does not pass over it. So a task
that waits goes by what is so. It has been told that its scope has ended as soon as the scope has, and
if its own timer is set, it is told the cause that anybody finds who looks at the scope. -/

namespace OrderDesk.Schedule

theorem Scopes.race_isSome {scopes : Scopes} {scope : ScopeId} {fired : Nat → Bool} {now : Nat}
    (ended : (scopes.cause? scope now).isSome = true)
    (late : ∀ due, due ≤ now → fired due = true) : (scopes.race scope fired).isSome = true := by
  unfold Scopes.cause? at ended
  split at ended
  · cases ended
  · rename_i known found
    simp only [Scopes.race, deadline?, found, Option.bind_some, Option.any_some]
    split at ended
    · rename_i passed
      obtain ⟨due, set, come⟩ := (Option.any_eq_true _ _).mp passed
      simp [set, late due (by simpa using come)]
    · split at ended
      · rename_i canceled
        rw [canceled]
        split <;> rfl
      · cases ended

namespace State

def Advance.reached : Advance → State
  | .proceed next _ => next
  | .stop next _ => next
  | .wait next _ => next

def Punctual (state : State) : Prop :=
  ∀ timer ∈ state.timers, state.clock < timer.due

variable {state : State} {scope : ScopeId}

theorem Punctual.fired (punctual : state.Punctual) {id : TaskId} {due : Nat}
    (come : due ≤ state.clock) : (!state.timers.contains ⟨due, id⟩) = true := by
  have unset : ⟨due, id⟩ ∉ state.timers :=
    fun member => Nat.not_lt.mpr come (punctual _ member)
  simpa using unset

theorem Punctual.done?_isSome (punctual : state.Punctual) (id : TaskId)
    (ended : (state.cause? scope).isSome = true) : (state.done? id scope).isSome = true :=
  Scopes.race_isSome ended fun _ come => punctual.fired come

theorem Punctual.cause?_of_done? (punctual : state.Punctual) {id : TaskId}
    (waits : state.done? id scope = none) : state.cause? scope = none := by
  rw [← Option.not_isSome_iff_eq_none]
  intro ended
  simpa [waits] using punctual.done?_isSome id ended

/-- Who has a timer set for the deadline is told what a look at the scope tells. -/
theorem Punctual.done?_eq (punctual : state.Punctual) {id : TaskId}
    (timed : ∀ due, state.scopes.deadline? scope = some due → state.clock < due →
      ⟨due, id⟩ ∈ state.timers) :
    state.done? id scope = state.cause? scope := by
  refine Scopes.race_eq fun due set => ?_
  rcases Nat.lt_or_ge state.clock due with early | come
  · simp [timed due set early, early]
  · rw [punctual.fired come, decide_eq_true come]

theorem clock_lt_of_cause {due : Nat} (opened : state.cause? scope = none)
    (deadline : state.scopes.deadline? scope = some due) : state.clock < due := by
  unfold cause? Scopes.cause? at opened
  obtain ⟨own, found, set⟩ := Option.bind_eq_some_iff.mp deadline
  simp only [found, set, Option.any_some] at opened
  refine Nat.lt_of_not_le fun late => ?_
  simp [late] at opened

theorem Punctual.wake (punctual : state.Punctual) (worker : Worker) :
    (state.wake worker).Punctual := by
  rw [wake_eq]
  exact punctual

theorem Punctual.wakeAll (punctual : state.Punctual) (tasks : List TaskId) :
    (state.wakeAll tasks).Punctual := by
  rw [wakeAll_eq]
  exact punctual

theorem Punctual.cancelScope (punctual : state.Punctual) (target : ScopeId) :
    (state.cancelScope target).Punctual :=
  (show Punctual { state with scopes := state.scopes.cancel target } from punctual).wakeAll _

theorem Punctual.withLimiter (punctual : state.Punctual) (change : Limiter × Option TaskId) :
    (state.withLimiter change).Punctual := by
  obtain ⟨limiter, woken⟩ := change
  cases woken with
  | none => exact punctual
  | some task => exact (show Punctual { state with limiter := limiter } from punctual).wake _

theorem Punctual.giveSlots (punctual : state.Punctual) (count : Nat) :
    (state.giveSlots count).Punctual := by
  induction count generalizing state with
  | zero => exact punctual
  | succ count ih => exact ih (punctual.withLimiter _)

theorem Punctual.giveBack (punctual : state.Punctual) (task : Task) :
    (state.giveBack task).Punctual :=
  (show Punctual { state with running := state.running - task.guards } from punctual).giveSlots _

theorem Punctual.unlisten (punctual : state.Punctual) (id : TaskId) :
    (state.unlisten id).Punctual :=
  fun timer member => punctual timer (List.mem_filter.mp member).1

theorem Punctual.setTimer (punctual : state.Punctual) (id : TaskId) {due : Nat}
    (later : state.clock < due) : (state.setTimer id due).Punctual := by
  intro timer member
  rcases List.mem_append.mp member with old | new
  · exact punctual timer old
  · obtain rfl := List.mem_singleton.mp new
    exact later

theorem Punctual.listen (punctual : state.Punctual) (opened : state.cause? scope = none)
    (id : TaskId) : (state.listen id scope).Punctual := by
  intro timer member
  simp only [State.listen] at member
  split at member
  · rename_i due set
    exact punctual.setTimer id (clock_lt_of_cause opened set) timer member
  · exact punctual timer member

theorem Punctual.attempt (punctual : state.Punctual) (id : TaskId) (task : Task) (action : Action) :
    (state.attempt id task action).reached.Punctual := by
  cases action <;> simp only [State.attempt, stopWith, doneAtOnce?_eq, Option.or_self] <;>
    (repeat' split)
  all_goals first
    | exact punctual
    | exact punctual.withLimiter _
    | exact punctual.cancelScope _
    | exact punctual.listen ‹_› id
    | skip
  · rename_i lasts _ opened
    exact (punctual.listen opened id).setTimer id (Nat.lt_add_of_pos_right (Nat.pos_of_ne_zero lasts))
  · rename_i lasts
    exact punctual.setTimer id (Nat.lt_add_of_pos_right (Nat.pos_of_ne_zero lasts))

theorem Punctual.resume (punctual : state.Punctual) (id : TaskId) (task : Task) (action : Action) :
    (state.resume id task action).reached.Punctual := by
  cases action <;> simp only [State.resume, stopWith] <;> (repeat' split)
  all_goals first
    | exact punctual
    | exact punctual.unlisten id
    | exact (punctual.unlisten id).withLimiter _

theorem Punctual.report (punctual : state.Punctual) (id : TaskId) (duty : Duty) :
    (state.report id (some duty)).Punctual := by
  have told : Punctual { state with
      calls := state.calls.modify duty.call fun call =>
        { call with finished := call.finished ++ [id] } } := punctual
  exact told.wake _

theorem Punctual.finish (punctual : state.Punctual) (id : TaskId) (task : Task) (ending : Ending) :
    (state.finish id task ending).Punctual := by
  unfold State.finish
  split
  · exact punctual
  · rename_i duty _
    have settled (gone : Task) : ((state.giveBack task).setTask id gone).Punctual :=
      punctual.giveBack task
    exact (settled _).report id duty

theorem Punctual.drop (punctual : state.Punctual) (id : TaskId) (task : Task) :
    (state.drop id task).Punctual := by
  have left := (punctual.unlisten id).withLimiter ((state.unlisten id).limiter.leave id)
  unfold State.drop
  split
  · exact left
  · exact left.giveBack task

theorem Punctual.perform (punctual : state.Punctual) (id : TaskId) (task : Task) (script : Script) :
    (state.perform id task script).Punctual := by
  refine perform_keeps (fun now _ _ => now.Punctual) Punctual ?_ ?_ state task script punctual
  · intro now current action rest punctual
    have reached := punctual.attempt id current action
    split <;> rename_i tried <;> rw [tried] at reached
    · exact reached
    · exact reached.finish id current _
    · exact reached
  · exact fun now current punctual => punctual.finish id current _

theorem Punctual.runTask (punctual : state.Punctual) (id : TaskId) :
    (state.runTask id).Punctual := by
  unfold State.runTask
  split
  · exact punctual
  · rename_i task _
    split
    · split
      · rename_i action rest _ _
        have reached := punctual.resume id task action
        split <;> (try rename_i tried; rw [tried] at reached)
        · exact reached.perform id _ rest
        · exact reached.finish id task _
        · exact punctual
      · exact punctual.perform id task _
    · exact punctual.drop id task
    · exact punctual

theorem Punctual.runCall (punctual : state.Punctual) (id : CallId) :
    (state.runCall id).Punctual := by
  rcases runCall_cases state id with same | ⟨call, found, aborted, ended⟩
  · rwa [same]
  · rw [runCall_of_going found aborted ended]
    have heard : (state.hearing call.scope (state.entries call)).Punctual := by
      unfold hearing
      split
      · exact punctual
      · exact punctual.cancelScope call.scope
    exact heard

/-! ## Moves -/

theorem Punctual.spawn (punctual : state.Punctual) (scope : ScopeId) (duty : Option Duty)
    (script : Script) : (state.spawn scope duty script).Punctual := by
  have added : Punctual { state with
      tasks := state.tasks ++ [Task.new scope duty script state.clock] } := punctual
  exact added.wake _

theorem Punctual.spawnSteps (punctual : state.Punctual) (call : CallId) (position : Nat)
    (scripts : List Script) : (state.spawnSteps scope call position scripts).1.Punctual := by
  induction scripts generalizing state position with
  | nil => exact punctual
  | cons script scripts ih =>
      exact ih (punctual.spawn scope (some ⟨call, position⟩) script) (position + 1)

theorem Punctual.doom (punctual : state.Punctual) (id : TaskId) : (state.doom id).Punctual := by
  unfold State.doom
  split
  · exact punctual
  · split
    · exact (show (state.setTask id _).Punctual from punctual).wake _
    · exact punctual

theorem Punctual.foldl_doom (punctual : state.Punctual) (ids : List TaskId) :
    (ids.foldl State.doom state).Punctual := by
  induction ids generalizing state with
  | nil => exact punctual
  | cons first rest ih => exact ih (punctual.doom first)

theorem Punctual.abortCall (punctual : state.Punctual) (id : CallId) :
    (state.abortCall id).Punctual := by
  unfold State.abortCall
  split
  · exact punctual
  · split
    · exact punctual
    · refine Punctual.foldl_doom ?_ _
      exact punctual

theorem Punctual.jump (punctual : state.Punctual) (time : Nat) : (state.jump time).Punctual := by
  intro timer member
  rw [timers_jump, List.mem_filter] at member
  have later := punctual timer member.1
  have kept : time < timer.due := by simpa using member.2
  rw [clock_jump]
  exact Nat.max_lt.mpr ⟨later, kept⟩

theorem Punctual.apply (punctual : state.Punctual) (move : Move) :
    (state.apply move).Punctual := by
  cases move with
  | addBackground => exact punctual
  | derive parent deadline => exact punctual
  | cancel target => exact punctual.cancelScope target
  | openCall context steps =>
      have derived : (state.derive context none).1.Punctual := punctual
      exact derived.spawnSteps _ 0 _
  | abortCall id => exact punctual.abortCall id
  | spawn scope script => exact punctual.spawn scope none script
  | doom id =>
      simp only [State.apply]
      split
      · exact punctual.doom id
      · exact punctual
  | release id =>
      simp only [State.apply, State.release]
      repeat' split
      · exact punctual
      · exact punctual
      · exact (show (state.setTask id _).Punctual from punctual).withLimiter _
      · exact punctual
  | turn worker =>
      have popped : Punctual { state with ready := state.ready.erase worker } := punctual
      simp only [State.apply]
      split
      · cases worker with
        | task id => exact popped.runTask id
        | call id => exact popped.runCall id
      · exact punctual
  | jump time =>
      simp only [State.apply]
      split
      · exact punctual.jump time
      · exact punctual

theorem Punctual.play (punctual : state.Punctual) (moves : List Move) :
    (state.play moves).Punctual := by
  induction moves generalizing state with
  | nil => exact punctual
  | cons move moves ih => exact ih (punctual.apply move)

theorem punctual_start (limiter : Limiter) : (start limiter).Punctual := by
  simp [Punctual, start]

end State

end OrderDesk.Schedule
