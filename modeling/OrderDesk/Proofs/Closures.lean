import OrderDesk.Proofs.Scoping
import OrderDesk.Proofs.Slots

/-! Whatever a state names exists: those in line, those who wait for a timer, for a cancellation or
for a slot, and the scopes in which tasks and calls work. So all that is still to come starts with
nothing in its name. This holds after every run in which scopes are made before they are used. -/

namespace OrderDesk.Schedule

namespace State

structure Serves (state : State) (known : Worker → Prop) : Prop where
  ready : ∀ worker ∈ state.ready, known worker
  timers : ∀ timer ∈ state.timers, known (.task timer.task)
  listeners : ∀ listener ∈ state.listeners, known (.task listener.1)
  line : ∀ task ∈ state.limiter.line, known (.task task)

def Has (state : State) : Worker → Prop
  | .task id => id < state.tasks.length
  | .call id => id < state.calls.length

variable {known : Worker → Prop} {state : State} {id : TaskId}

theorem Serves.mono (serves : state.Serves known) {more : Worker → Prop}
    (grows : ∀ worker, known worker → more worker) : state.Serves more :=
  ⟨fun worker member => grows _ (serves.ready worker member),
    fun timer member => grows _ (serves.timers timer member),
    fun listener member => grows _ (serves.listeners listener member),
    fun task member => grows _ (serves.line task member)⟩

theorem Serves.wake (serves : state.Serves known) {worker : Worker} (here : known worker) :
    (state.wake worker).Serves known := by
  unfold State.wake
  split
  · exact serves
  · refine { serves with ready := fun other member => ?_ }
    rcases List.mem_append.mp member with old | new
    · exact serves.ready other old
    · exact List.mem_singleton.mp new ▸ here

theorem Serves.wakeAll (serves : state.Serves known) {tasks : List TaskId}
    (here : ∀ task ∈ tasks, known (.task task)) : (state.wakeAll tasks).Serves known := by
  induction tasks generalizing state with
  | nil => exact serves
  | cons task tasks ih =>
      exact ih (serves.wake (here task (by simp))) fun other member => here other (by simp [member])

theorem Serves.cancelScope (serves : state.Serves known) (target : ScopeId) :
    (state.cancelScope target).Serves known := by
  have marked : { state with scopes := state.scopes.cancel target }.Serves known := { serves with }
  refine marked.wakeAll fun task member => ?_
  obtain ⟨listener, kept, rfl⟩ := List.mem_map.mp member
  exact serves.listeners listener (List.mem_of_mem_filter kept)

theorem Serves.withLimiter (serves : state.Serves known) {change : Limiter × Option TaskId}
    (line : ∀ task ∈ change.1.line, task ∈ state.limiter.line)
    (granted : ∀ task ∈ change.2, task ∈ state.limiter.line) :
    (state.withLimiter change).Serves known := by
  have changed : { state with limiter := change.1 }.Serves known :=
    { serves with line := fun task member => serves.line task (line task member) }
  unfold State.withLimiter
  split
  · rename_i task same
    exact changed.wake (serves.line task (granted task same))
  · exact changed

theorem Serves.giveSlot (serves : state.Serves known) : state.giveSlot.Serves known :=
  serves.withLimiter (fun _ member => state.limiter.line_give ▸ member)
    fun _ granted => Limiter.mem_line_of_give granted

theorem Serves.giveSlots (serves : state.Serves known) (count : Nat) :
    (state.giveSlots count).Serves known := by
  induction count generalizing state with
  | zero => exact serves
  | succ count ih => exact ih serves.giveSlot

theorem Serves.giveBack (serves : state.Serves known) (task : Task) :
    (state.giveBack task).Serves known := by
  have counted : { state with running := state.running - task.guards }.Serves known :=
    { serves with }
  exact counted.giveSlots task.slots

theorem Serves.leave (serves : state.Serves known) (id : TaskId) :
    (state.withLimiter (state.limiter.leave id)).Serves known := by
  refine serves.withLimiter (fun task member => ?_) fun _ granted =>
    Limiter.mem_line_of_leave granted
  rw [Limiter.line_leave] at member
  exact List.mem_of_mem_erase member

theorem Serves.setTimer (serves : state.Serves known) (here : known (.task id)) (due : Nat) :
    (state.setTimer id due).Serves known := by
  refine { serves with timers := fun timer member => ?_ }
  rcases List.mem_append.mp member with old | new
  · exact serves.timers timer old
  · exact List.mem_singleton.mp new ▸ here

theorem Serves.listen (serves : state.Serves known) (here : known (.task id)) (scope : ScopeId) :
    (state.listen id scope).Serves known := by
  have listeners : ∀ listener ∈ state.listeners ++ [(id, scope)], known (.task listener.1) := by
    intro listener member
    rcases List.mem_append.mp member with old | new
    · exact serves.listeners listener old
    · exact List.mem_singleton.mp new ▸ here
  unfold State.listen
  split
  · rename_i due _
    exact { serves.setTimer here due with listeners := listeners }
  · exact { serves with listeners := listeners }

theorem Serves.unlisten (serves : state.Serves known) (id : TaskId) :
    (state.unlisten id).Serves known :=
  { serves with
    timers := fun timer member => serves.timers timer (List.mem_of_mem_filter member)
    listeners := fun listener member =>
      serves.listeners listener (List.mem_of_mem_filter member) }

theorem Serves.setTask (serves : state.Serves known) (id : TaskId) (task : Task) :
    (state.setTask id task).Serves known :=
  { serves with }

def Places (known : Worker → Prop) (task : Task) : Prop :=
  ∀ duty ∈ task.duty, known (.call duty.call)

theorem Serves.finish (serves : state.Serves known) {task : Task} (places : Places known task)
    (ending : Ending) : (state.finish id task ending).Serves known := by
  unfold State.finish
  split
  · exact serves.setTask id _
  · rename_i duty works
    have given := serves.giveBack task
    refine Serves.wake ?_ (places duty works)
    exact ⟨given.ready, given.timers, given.listeners, given.line⟩

theorem Serves.drop (serves : state.Serves known) (id : TaskId) (task : Task) :
    (state.drop id task).Serves known := by
  have left := (serves.unlisten id).leave id
  unfold State.drop
  split
  · exact left.setTask id _
  · exact (left.giveBack task).setTask id _

def Advance.Serves (known : Worker → Prop) : Advance → Prop
  | .proceed state task => state.Serves known ∧ Places known task
  | .stop state _ => state.Serves known
  | .wait state _ => state.Serves known

theorem attempt_serves (serves : state.Serves known) (here : known (.task id)) {task : Task}
    (places : Places known task) (action : Action) :
    (state.attempt id task action).Serves known := by
  cases action <;> simp only [attempt, stopWith] <;> (repeat' split)
  all_goals simp only [Advance.Serves]
  all_goals first
    | exact ⟨serves, places⟩
    | exact ⟨{ serves with }, places⟩
    | exact serves
    | exact serves.setTimer here _
    | exact serves.listen here _
    | exact (serves.listen here _).setTimer here _
    | skip
  · rename_i taken
    refine ⟨{ serves with line := fun other member => ?_ }, places⟩
    exact serves.line other (Limiter.line_take? taken ▸ member)
  · have listens := serves.listen here task.scope
    refine { listens with line := fun other member => ?_ }
    have line : (state.limiter.wait id).line = state.limiter.line ++ [id] := by
      simp [Limiter.line, Limiter.wait]
    rcases List.mem_append.mp (line ▸ member) with old | new
    · exact serves.line other old
    · exact List.mem_singleton.mp new ▸ here
  · exact ⟨serves.giveSlot, places⟩
  · exact ⟨serves.cancelScope task.scope, places⟩

theorem resume_serves (serves : state.Serves known) (id : TaskId) {task : Task}
    (places : Places known task) (action : Action) : (state.resume id task action).Serves known := by
  have quiet := serves.unlisten id
  cases action <;> simp only [resume, stopWith] <;> (repeat' split)
  all_goals simp only [Advance.Serves]
  all_goals first
    | exact ⟨quiet, places⟩
    | exact quiet
    | exact serves
    | exact quiet.leave id
    | skip
  · rename_i granted
    have line := Limiter.line_claim (List.contains_iff_mem.mp granted)
    refine ⟨{ quiet with line := fun other member => ?_ }, places⟩
    exact serves.line other (List.mem_of_mem_erase (line ▸ member))

theorem perform_serves (serves : state.Serves known) (here : known (.task id)) {task : Task}
    (places : Places known task) (script : Script) :
    (state.perform id task script).Serves known := by
  refine perform_keeps (fun state task _ => state.Serves known ∧ Places known task)
    (fun after => after.Serves known) ?_ ?_ state task script ⟨serves, places⟩
  · rintro state task action rest ⟨serves, places⟩
    have tried := attempt_serves serves here places action
    split <;> rename_i same <;> rw [same] at tried
    · exact tried
    · exact Serves.finish tried places _
    · exact Serves.setTask tried id _
  · rintro state task ⟨serves, places⟩
    exact serves.finish places _

theorem Serves.runTask (serves : state.Serves known) (here : known (.task id))
    (places : ∀ task, state.tasks[id]? = some task → Places known task) :
    (state.runTask id).Serves known := by
  unfold State.runTask
  split
  · exact serves
  · rename_i task found
    have placed := places task found
    split
    · split
      · rename_i action rest _ _
        have tried := resume_serves serves id placed action
        split <;> rename_i same <;> rw [same] at tried
        · exact perform_serves tried.1 here tried.2 rest
        · exact Serves.finish tried placed _
        · exact serves
      · exact perform_serves serves here placed _
    · exact serves.drop id task
    · exact serves

theorem Serves.runCall (serves : state.Serves known) (id : CallId) :
    (state.runCall id).Serves known := by
  rcases runCall_cases state id with same | ⟨call, found, aborted, ended⟩
  · rw [same]
    exact serves
  · rw [runCall_of_going found aborted ended]
    have heeded : (state.hearing call.scope (state.entries call)).Serves known := by
      unfold hearing
      split
      · exact serves
      · exact serves.cancelScope _
    exact { heeded with }

theorem Serves.jump (serves : state.Serves known) (time : Nat) :
    (state.jump time).Serves known := by
  have passed : State.Serves
      { state with
        clock := max state.clock time
        timers := state.timers.filter fun timer => !(timer.due ≤ time) } known :=
    { serves with
      timers := fun timer member => serves.timers timer (List.mem_of_mem_filter member) }
  refine passed.wakeAll fun task member => ?_
  obtain ⟨timer, kept, rfl⟩ := List.mem_map.mp member
  exact serves.timers timer (List.mem_of_mem_filter kept)

theorem Serves.doom (serves : state.Serves known) (here : known (.task id)) :
    (state.doom id).Serves known := by
  unfold State.doom
  split
  · exact serves
  · split
    · exact (serves.setTask id _).wake here
    · exact serves

theorem Serves.foldl_doom (serves : state.Serves known) {ids : List TaskId}
    (here : ∀ id ∈ ids, known (.task id)) : (ids.foldl State.doom state).Serves known := by
  induction ids generalizing state with
  | nil => exact serves
  | cons id ids ih =>
      exact ih (serves.doom (here id (by simp))) fun other member => here other (by simp [member])

theorem Serves.abortCall (serves : state.Serves known) {id : CallId}
    (here : ∀ call, state.calls[id]? = some call → ∀ task ∈ call.tasks, known (.task task)) :
    (state.abortCall id).Serves known := by
  unfold State.abortCall
  split
  · exact serves
  · rename_i call found
    split
    · exact serves
    · have marked : State.Serves
          { state with calls := state.calls.set id { call with aborted := true } } known :=
        { serves with }
      exact marked.foldl_doom (here call found)

theorem Serves.release (serves : state.Serves known) (id : TaskId) :
    (state.release id).Serves known := by
  unfold State.release
  split
  · exact serves
  · split
    · exact serves
    · exact (serves.setTask id _).giveSlot

theorem Serves.spawn (serves : state.Serves known) (here : known (.task state.tasks.length))
    (scope : ScopeId) (duty : Option Duty) (script : Script) :
    (state.spawn scope duty script).Serves known := by
  have added : State.Serves
      { state with tasks := state.tasks ++ [Task.new scope duty script state.clock] } known :=
    { serves with }
  exact added.wake here

theorem Serves.spawnSteps (serves : state.Serves known) (scope : ScopeId) (call : CallId)
    (position : Nat) (scripts : List Script)
    (here : ∀ index < scripts.length, known (.task (state.tasks.length + index))) :
    (state.spawnSteps scope call position scripts).1.Serves known := by
  induction scripts generalizing state position with
  | nil => exact serves
  | cons script scripts ih =>
      refine ih (serves.spawn (here 0 (by simp)) scope _ script) (position + 1) ?_
      intro index below
      have later := here (index + 1) (by simpa using below)
      simpa [State.spawn, Nat.add_assoc, Nat.add_comm 1] using later

theorem Serves.openCall (serves : state.Serves known) (context : ScopeId)
    (steps : List (String × Script))
    (here : ∀ index < steps.length, known (.task (state.tasks.length + index))) :
    (state.openCall context steps).1.Serves known := by
  have derived : (state.derive context none).1.Serves known := { serves with }
  have spawned := derived.spawnSteps state.scopes.length state.calls.length 0
    (steps.map Prod.snd) fun index below => here index (by simpa using below)
  exact { spawned with }

/-- Scopes are made before they are used, the first in line has its turn, and time passes when it
can. -/
def Allows (state : State) : Move → Prop
  | .derive parent _ => parent < state.scopes.length
  | .cancel target => target < state.scopes.length
  | .openCall context _ => context < state.scopes.length
  | .spawn scope _ => scope < state.scopes.length
  | .turn worker => state.ready.head? = some worker
  | .jump time => state.canJump time = true
  | _ => True

instance (state : State) (move : Move) : Decidable (state.Allows move) :=
  match move with
  | .derive parent _ => inferInstanceAs (Decidable (parent < state.scopes.length))
  | .cancel target => inferInstanceAs (Decidable (target < state.scopes.length))
  | .openCall context _ => inferInstanceAs (Decidable (context < state.scopes.length))
  | .spawn scope _ => inferInstanceAs (Decidable (scope < state.scopes.length))
  | .turn worker => inferInstanceAs (Decidable (state.ready.head? = some worker))
  | .jump time => inferInstanceAs (Decidable (state.canJump time = true))
  | .addBackground => .isTrue trivial
  | .abortCall _ => .isTrue trivial
  | .doom _ => .isTrue trivial
  | .release _ => .isTrue trivial

/-- A task that comes on its own comes into a scope that exists. -/
def Admits (state : State) : Move → Prop
  | .spawn scope _ => scope < state.scopes.length
  | _ => True

instance (state : State) (move : Move) : Decidable (state.Admits move) :=
  match move with
  | .spawn scope _ => inferInstanceAs (Decidable (scope < state.scopes.length))
  | .addBackground | .derive _ _ | .cancel _ | .openCall _ _ | .abortCall _ | .doom _ | .release _
  | .turn _ | .jump _ => .isTrue trivial

theorem admits_of_allows {state : State} {move : Move} (allowed : state.Allows move) :
    state.Admits move := by
  cases move with
  | spawn scope script => exact allowed
  | _ => trivial

def Posts : State → List Move → Prop
  | _, [] => True
  | state, move :: moves => state.Admits move ∧ (state.apply move).Posts moves

instance decidablePosts : (state : State) → (moves : List Move) → Decidable (state.Posts moves)
  | _, [] => .isTrue trivial
  | state, move :: moves =>
      have _ := decidablePosts (state.apply move) moves
      inferInstanceAs (Decidable (state.Admits move ∧ (state.apply move).Posts moves))

theorem posts_of_no_spawn {state : State} {moves : List Move}
    (never : ∀ move ∈ moves, ∀ scope script, move ≠ .spawn scope script) : state.Posts moves := by
  induction moves generalizing state with
  | nil => trivial
  | cons move moves ih =>
      refine ⟨?_, ih fun other member => never other (List.mem_cons_of_mem _ member)⟩
      cases move with
      | spawn scope script => exact absurd rfl (never _ List.mem_cons_self scope script)
      | _ => trivial

theorem posts_append (state : State) (first second : List Move) :
    state.Posts (first ++ second) ↔ state.Posts first ∧ (state.play first).Posts second := by
  induction first generalizing state with
  | nil => exact ⟨fun posts => ⟨trivial, posts⟩, And.right⟩
  | cons move moves ih =>
      simp only [List.cons_append, Posts, ih, play_cons, and_assoc]

/-- Every one of the moves is allowed when it is made. -/
def Follows : State → List Move → Prop
  | _, [] => True
  | state, move :: moves => state.Allows move ∧ (state.apply move).Follows moves

instance decidableFollows : (state : State) → (moves : List Move) → Decidable (state.Follows moves)
  | _, [] => .isTrue trivial
  | state, move :: moves =>
      have _ := decidableFollows (state.apply move) moves
      inferInstanceAs (Decidable (state.Allows move ∧ (state.apply move).Follows moves))

theorem follows_append (state : State) (first second : List Move) :
    state.Follows (first ++ second) ↔
      state.Follows first ∧ (state.play first).Follows second := by
  induction first generalizing state with
  | nil => exact ⟨fun follows => ⟨trivial, follows⟩, And.right⟩
  | cons move moves ih =>
      simp only [List.cons_append, Follows, ih, play_cons, and_assoc]

theorem exists_follows_of_settle (limit : Option Nat) (state : State) :
    ∃ moves, state.Follows moves ∧ state.play moves = state.settle limit ∧
      ∀ move ∈ moves, (∃ worker, move = .turn worker) ∨ ∃ time, move = .jump time := by
  apply settle_keeps (fun reached => ∃ moves, state.Follows moves ∧ state.play moves = reached ∧
    ∀ move ∈ moves, (∃ worker, move = .turn worker) ∨ ∃ time, move = .jump time)
  · exact ⟨[], trivial, rfl, by simp⟩
  · rintro before after ⟨moves, follows, reached, inner⟩ ticked
    obtain ⟨move, allowed, moved, kind⟩ : ∃ move, before.Allows move ∧ before.apply move = after ∧
        ((∃ worker, move = .turn worker) ∨ ∃ time, move = .jump time) := by
      rcases move_of_tick ticked with ⟨worker, first, moved⟩ | ⟨time, possible, moved⟩
      · exact ⟨.turn worker, first, moved, .inl ⟨worker, rfl⟩⟩
      · exact ⟨.jump time, possible, moved, .inr ⟨time, rfl⟩⟩
    refine ⟨moves ++ [move], ?_, ?_, ?_⟩
    · rw [follows_append, reached]
      exact ⟨follows, allowed, trivial⟩
    · rw [play_append, reached]
      exact moved
    · intro other member
      rcases List.mem_append.mp member with old | new
      · exact inner other old
      · exact List.mem_singleton.mp new ▸ kind

/-! ## Nothing is named before it exists -/

structure Closed (state : State) : Prop where
  serves : state.Serves state.Has
  posts : ∀ scope ∈ state.posts, scope < state.scopes.length
  bases : ∀ scope ∈ state.bases, scope < state.scopes.length

theorem has_apply (state : State) (move : Move) {worker : Worker} (here : state.Has worker) :
    (state.apply move).Has worker := by
  cases worker with
  | task id => exact Nat.lt_of_lt_of_le here (length_tasks_le state move)
  | call id => exact Nat.lt_of_lt_of_le here (length_calls_le state move)

theorem Wired.has_task {state : State} (wired : state.Wired) {id : CallId} {call : Call}
    (found : state.calls[id]? = some call) {task : TaskId} (member : task ∈ call.tasks) :
    state.Has (.task task) := by
  obtain ⟨position, placed⟩ := List.getElem?_of_mem member
  obtain ⟨_, present, _⟩ := (wired task id position).mpr ⟨call, found, placed⟩
  exact (List.getElem?_eq_some_iff.mp present).1

theorem Serves.apply (serves : state.Serves known) (wired : state.Wired) (move : Move)
    (old : ∀ worker, state.Has worker → known worker)
    (new : ∀ worker, (state.apply move).Has worker → known worker)
    (exist : ∀ worker ∈ state.ready, state.Has worker) : (state.apply move).Serves known := by
  cases move with
  | addBackground => exact { serves with }
  | derive parent deadline => exact { serves with }
  | cancel target => exact serves.cancelScope target
  | openCall context steps =>
      refine serves.openCall context steps fun index below => new _ ?_
      have opened := opened_openCall state context steps
      simp only [Has, State.apply, opened.tasks, List.length_append, stepTasks, List.length_mapIdx,
        List.length_map]
      exact Nat.add_lt_add_left below _
  | abortCall id =>
      exact serves.abortCall fun call found task member => old _ (wired.has_task found member)
  | spawn scope script =>
      refine serves.spawn (new _ ?_) scope none script
      simp [Has, State.apply, State.spawn]
  | doom id =>
      simp only [State.apply]
      split
      · rename_i loose
        refine serves.doom (old _ ?_)
        simp only [isLoose, Option.any_eq_true] at loose
        obtain ⟨task, found, _⟩ := loose
        exact (List.getElem?_eq_some_iff.mp found).1
      · exact serves
  | release id =>
      simp only [State.apply]
      split
      · exact serves.release id
      · exact serves
  | turn worker =>
      have popped : State.Serves { state with ready := state.ready.erase worker } known :=
        { serves with
          ready := fun other member => serves.ready other (List.mem_of_mem_erase member) }
      simp only [State.apply]
      split
      · rename_i inLine
        cases worker with
        | task id =>
            refine popped.runTask (old _ (exist _ inLine)) fun task found duty works => ?_
            exact old _ (wired.duty_lt found works)
        | call id => exact popped.runCall id
      · exact serves
  | jump time =>
      simp only [State.apply]
      split
      · exact serves.jump time
      · exact serves

/-- What is new works in a scope that was there before, or in one that comes with it. -/
theorem Closed.apply_of_admits (closed : state.Closed) (wired : state.Wired) {move : Move}
    (admits : state.Admits move) : (state.apply move).Closed := by
  have grows := (apply_extends state move).length_le
  have serves : (state.apply move).Serves (state.apply move).Has :=
    (closed.serves.mono fun _ => has_apply state move).apply wired move
      (fun _ => has_apply state move) (fun _ here => here) closed.serves.ready
  have posts : ∀ scope ∈ state.posts, scope < (state.apply move).scopes.length :=
    fun scope member => Nat.lt_of_lt_of_le (closed.posts scope member) grows
  have bases : ∀ scope ∈ state.bases, scope < (state.apply move).scopes.length :=
    fun scope member => Nat.lt_of_lt_of_le (closed.bases scope member) grows
  rcases sameWiring_apply state move with same | ⟨context, steps, rfl⟩ | ⟨scope, script, rfl⟩
  · exact ⟨serves, same.posts ▸ posts, same.bases ▸ bases⟩
  · have opened := opened_openCall state context steps
    have fresh : state.scopes.length < (state.apply (.openCall context steps)).scopes.length := by
      simp only [State.apply, opened.scopes, Scopes.derive]
      split <;> simp
    refine ⟨serves, fun scope member => ?_, fun scope member => ?_⟩
    · obtain ⟨task, there, rfl⟩ := List.mem_map.mp member
      simp only [State.apply, opened.tasks, List.mem_append] at there
      rcases there with old | new
      · exact posts task.scope (List.mem_map_of_mem old)
      · obtain ⟨index, placed⟩ := List.getElem?_of_mem new
        rw [getElem?_stepTasks] at placed
        obtain ⟨_, _, rfl⟩ := Option.map_eq_some_iff.mp placed
        exact fresh
    · obtain ⟨call, there, rfl⟩ := List.mem_map.mp member
      simp only [State.apply, opened.calls, List.mem_append] at there
      rcases there with old | new
      · exact bases call.scope (List.mem_map_of_mem old)
      · obtain rfl := List.mem_singleton.mp new
        exact fresh
  · refine ⟨serves, fun other member => ?_, fun other member => ?_⟩
    · obtain ⟨task, there, rfl⟩ := List.mem_map.mp member
      simp only [State.apply, State.spawn, tasks_wake, List.mem_append] at there
      rcases there with old | new
      · exact posts task.scope (List.mem_map_of_mem old)
      · obtain rfl := List.mem_singleton.mp new
        exact Nat.lt_of_lt_of_le admits grows
    · obtain ⟨call, there, rfl⟩ := List.mem_map.mp member
      simp only [State.apply, State.spawn, calls_wake] at there
      exact bases call.scope (List.mem_map_of_mem there)

theorem Closed.apply (closed : state.Closed) (wired : state.Wired) {move : Move}
    (allowed : state.Allows move) : (state.apply move).Closed :=
  closed.apply_of_admits wired (admits_of_allows allowed)

theorem closed_start {limiter : Limiter} (nobody : limiter.line = []) :
    (start limiter).Closed := by
  refine ⟨⟨?_, ?_, ?_, ?_⟩, ?_, ?_⟩
  · simp [start]
  · simp [start]
  · simp [start]
  · simp [start, nobody]
  · simp [start, posts]
  · simp [start, bases]

theorem Closed.play_of_posts (closed : state.Closed) (wired : state.Wired) {moves : List Move}
    (posts : state.Posts moves) : (state.play moves).Closed := by
  induction moves generalizing state with
  | nil => exact closed
  | cons move moves ih =>
      exact ih (closed.apply_of_admits wired posts.1) (wired.apply move) posts.2

theorem Closed.play (closed : state.Closed) (wired : state.Wired) {moves : List Move}
    (follows : state.Follows moves) : (state.play moves).Closed := by
  induction moves generalizing state with
  | nil => exact closed
  | cons move moves ih =>
      exact ih (closed.apply wired follows.1) (wired.apply move) follows.2

end State

end OrderDesk.Schedule
