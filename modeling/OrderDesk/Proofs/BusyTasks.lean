import OrderDesk.Proofs.ScopeTimers
import OrderDesk.Proofs.Stages

/-! The desk with a list of the orders that it has taken on. Every task works off a leg of its order,
and whoever is busy is going to be woken, whatever else happens. -/

namespace OrderDesk

open Schedule

namespace Schedule

namespace State

variable {before state after : State} {id other : TaskId} {task found next : Task} {leg : Leg}
  {courier : Bool} {late : Prop} {duty : Duty}

/-- The clock stands still, and the task `id` keeps its timers and its place in line. -/
structure Bides (before : State) (id : TaskId) (after : State) : Prop where
  clock : after.clock = before.clock
  timers : ∀ due, ⟨due, id⟩ ∈ before.timers → ⟨due, id⟩ ∈ after.timers
  ready : .task id ∈ before.ready → .task id ∈ after.ready

theorem Bides.refl (state : State) (id : TaskId) : state.Bides id state :=
  ⟨rfl, fun _ there => there, fun there => there⟩

theorem Bides.trans (earlier : before.Bides id state) (later : state.Bides id after) :
    before.Bides id after :=
  ⟨later.clock.trans earlier.clock, fun due there => later.timers due (earlier.timers due there),
    fun there => later.ready (earlier.ready there)⟩

theorem Minds.bides (minds : before.Minds id after) : before.Bides id after :=
  ⟨minds.clock, minds.timers, minds.ready⟩

theorem bides_cancelScope (state : State) (target : ScopeId) (id : TaskId) :
    state.Bides id (state.cancelScope target) := by
  have woken := stirs_wakeAll { state with scopes := state.scopes.cancel target }
    ((state.listeners.filter fun listener => state.scopes.isWithin listener.2 target).map Prod.fst)
  refine ⟨woken.clock, fun due there => ?_, woken.ready (.task id)⟩
  simpa [cancelScope] using there

theorem Bides.stroke (foreign : other ≠ id) (stroke : before.Stroke other task after) :
    before.Bides id after := by
  cases stroke with
  | count running => exact ⟨rfl, fun _ there => there, fun there => there⟩
  | note notes => exact ⟨rfl, fun _ there => there, fun there => there⟩
  | limit change _ _ => exact (minds_withLimiter before change id).bides
  | setTimer due => exact ⟨rfl, fun _ there => List.mem_append_left _ there, fun there => there⟩
  | listen =>
      refine ⟨rfl, fun _ there => ?_, fun there => there⟩
      simp only [listen]
      split
      · exact List.mem_append_left _ there
      · exact there
  | unlisten =>
      exact ⟨rfl, fun _ there => List.mem_filter.mpr ⟨there, by simpa using foreign.symm⟩,
        fun there => there⟩
  | cancel listed => exact bides_cancelScope before task.scope id
  | setTask next => exact ⟨rfl, fun _ there => there, fun there => there⟩
  | report duty works =>
      have woken := (minds_wake { before with
        calls := before.calls.modify duty.call fun call =>
          { call with finished := call.finished ++ [other] } } (.call duty.call) id).bides
      exact ⟨woken.clock, woken.timers, woken.ready⟩

theorem bides_strokes (foreign : other ≠ id) (done : Strokes other task before after) :
    before.Bides id after := by
  induction done with
  | refl => exact .refl before id
  | tail _ stroke ih => exact ih.trans (.stroke foreign stroke)

theorem bides_runCall (state : State) (call : CallId) (id : TaskId) :
    state.Bides id (state.runCall call) := by
  rcases runCall_cases state call with same | ⟨record, known, aborted, ended⟩
  · rw [same]
    exact .refl state id
  · have heard : state.Bides id (state.hearing record.scope (state.entries record)) := by
      unfold hearing
      split
      · exact .refl state id
      · exact bides_cancelScope state record.scope id
    rw [runCall_of_going known aborted ended]
    exact ⟨heard.clock, heard.timers, heard.ready⟩

theorem bides_turn (state : State) {worker : Worker} (foreign : worker ≠ .task id) :
    state.Bides id (state.apply (.turn worker)) := by
  simp only [apply]
  split
  · have popped := (minds_pop state foreign).bides
    cases worker with
    | call call => exact popped.trans (bides_runCall _ call id)
    | task other =>
        have apart : other ≠ id := fun same => foreign (same ▸ rfl)
        cases present : state.tasks[other]? with
        | none => simpa only [run, runTask, present] using popped
        | some record => exact popped.trans (bides_strokes apart (strokes_runTask present))
  · exact .refl state id

theorem Alarms.bides (alarms : before.Alarms id task) (bides : before.Bides id after) :
    after.Alarms id task := fun due busy =>
  ⟨fun early => bides.timers due ((alarms due busy).1 (bides.clock ▸ early)),
    fun late => bides.ready ((alarms due busy).2 (bides.clock ▸ late))⟩

theorem Alarms.jump (alarms : state.Alarms id task) {time : Nat}
    (possible : state.canJump time = true) : (state.jump time).Alarms id task := by
  obtain ⟨quiet, none_skipped⟩ : state.ready = [] ∧ ∀ timer ∈ state.timers, time ≤ timer.due := by
    simpa [canJump] using possible
  intro due busy
  obtain ⟨timed, alert⟩ := alarms due busy
  rw [clock_jump, timers_jump]
  refine ⟨fun early => List.mem_filter.mpr ⟨timed (by omega), by simp; omega⟩, fun passed => ?_⟩
  have ahead : state.clock < due := by
    refine Nat.lt_of_not_le fun now => ?_
    have inLine := alert now
    rw [quiet] at inLine
    cases inLine
  have fires : due ≤ time := by omega
  refine mem_ready_wakeAll _ _ id (List.mem_map.mpr ⟨⟨due, id⟩, ?_, rfl⟩)
  exact List.mem_filter.mpr ⟨timed ahead, by simpa using fires⟩

theorem tasks_turn_of_foreign {worker : Worker} (foreign : worker ≠ .task id)
    (present : state.tasks[id]? = some task) :
    (state.apply (.turn worker)).tasks[id]? = some task := by
  simp only [apply]
  split
  · cases worker with
    | call call => simpa only [run, tasks_runCall] using present
    | task other => exact getElem?_tasks_runTask (fun same => foreign (same ▸ rfl)) present
  · exact present

theorem exists_goes_turn (positive : 0 < leg.millis) (present : state.tasks[id]? = some task)
    (works : task.duty = some duty) (suits : leg.Suits courier state.clock task)
    (alarms : state.Alarms id task) (worker : Worker)
    (lates : late → state.Punctual ∧ (state.cause? task.scope).isSome = true) :
    ∃ next, Goes leg courier state.clock late task id (state.apply (.turn worker)) next := by
  by_cases own : worker = .task id
  · subst own
    simp only [apply]
    split
    · let popped : State := { state with ready := state.ready.erase (.task id) }
      have present' : popped.tasks[id]? = some task := present
      have told (is_late : late) : (popped.done? id task.scope).isSome = true := by
        obtain ⟨punctual, ended⟩ := lates is_late
        exact Punctual.done?_isSome (show popped.Punctual from punctual) id ended
      exact goes_runTask positive present' works suits (fun due busy => (alarms due busy).1) told
    · exact ⟨task, present, rfl, rfl, suits, Leg.leads_refl _, alarms, fun _ _ life => .inl life⟩
  · exact ⟨task, tasks_turn_of_foreign own present, rfl, rfl, suits, Leg.leads_refl _,
      alarms.bides (bides_turn state own), fun _ _ life => .inl life⟩

theorem clock_turn (state : State) (worker : Worker) :
    (state.apply (.turn worker)).clock = state.clock := by
  rcases clock_apply state (.turn worker) with same | ⟨time, other, _⟩
  · exact same
  · cases other

theorem clock_turns (state : State) (workers : List Worker) :
    (state.play (workers.map Move.turn)).clock = state.clock := by
  induction workers generalizing state with
  | nil => rfl
  | cons worker workers ih =>
      rw [List.map_cons, play_cons, ih, clock_turn]

theorem cause_isSome_apply {scope : ScopeId} (state : State) (move : Move)
    (ended : (state.cause? scope).isSome = true) :
    ((state.apply move).cause? scope).isSome = true :=
  (apply_extends state move).cause_isSome (clock_le_apply state move) ended

theorem cause_isSome_play {scope : ScopeId} (state : State) (moves : List Move)
    (ended : (state.cause? scope).isSome = true) :
    ((state.play moves).cause? scope).isSome = true := by
  induction moves generalizing state with
  | nil => exact ended
  | cons move moves ih => exact ih _ (cause_isSome_apply state move ended)

theorem exists_goes_turns (positive : 0 < leg.millis) (present : state.tasks[id]? = some task)
    (works : task.duty = some duty) (suits : leg.Suits courier state.clock task)
    (alarms : state.Alarms id task) (workers : List Worker)
    (lates : late → state.Punctual ∧ (state.cause? task.scope).isSome = true) :
    ∃ next, Goes leg courier state.clock late task id (state.play (workers.map Move.turn)) next := by
  induction workers generalizing state task with
  | nil => exact ⟨task, present, rfl, rfl, suits, Leg.leads_refl _, alarms, fun _ _ life => .inl life⟩
  | cons worker workers ih =>
      have clock := clock_turn state worker
      obtain ⟨middle, first⟩ := exists_goes_turn positive present works suits alarms worker lates
      obtain ⟨next, rest⟩ := ih first.found (first.works.trans works) (clock.symm ▸ first.suits)
        first.alarms fun is_late => by
          obtain ⟨punctual, ended⟩ := lates is_late
          exact ⟨punctual.apply _, first.scope ▸ cause_isSome_apply state _ ended⟩
      rw [clock] at rest
      refine ⟨next, rest.found, rest.works.trans first.works, rest.scope.trans first.scope, rest.suits,
        first.leads.trans positive rest.leads, rest.alarms, fun time ending life => ?_⟩
      rcases rest.timed time ending life with same | now
      · exact first.timed time ending same
      · exact .inr now

/-! ## Orders and their tasks -/

structure WorksFor (state : State) (orders : List Order) (id : TaskId) (task : Task) (duty : Duty)
    (leg : Leg) : Prop where
  works : task.duty = some duty
  order : ∃ order, orders[duty.call]? = some order ∧ order.legs[duty.position]? = some leg
  suits : leg.Suits duty.isCourier state.clock task
  alarms : state.Alarms id task

structure Manned (orders : List Order) (state : State) : Prop where
  size : state.calls.length = orders.length
  working : ∀ (id : TaskId) (task : Task), state.tasks[id]? = some task →
    ∃ duty leg, state.WorksFor orders id task duty leg

theorem WorksFor.positive {orders : List Order} (works : state.WorksFor orders id task duty leg) :
    0 < leg.millis := by
  obtain ⟨order, _, listed⟩ := works.order
  exact order.legs_pos leg (List.mem_of_getElem? listed)

theorem WorksFor.bides {orders : List Order} (works : before.WorksFor orders id task duty leg)
    (bides : before.Bides id after) : after.WorksFor orders id task duty leg :=
  ⟨works.works, works.order, bides.clock ▸ works.suits, works.alarms.bides bides⟩

variable {orders : List Order}

/-- What keeps every task at work keeps the desk manned. -/
theorem Manned.step (manned : before.Manned orders) (same : before.SameWiring after)
    (keeps : ∀ (id : TaskId) (task : Task) (duty : Duty) (leg : Leg), before.tasks[id]? = some task →
      before.WorksFor orders id task duty leg →
        ∃ next, after.tasks[id]? = some next ∧ after.WorksFor orders id next duty leg) :
    after.Manned orders := by
  have calls := congrArg List.length same.rosters
  have tasks := congrArg List.length same.duties
  simp only [rosters, duties, List.length_map] at calls tasks
  refine ⟨calls.trans manned.size, fun id next there => ?_⟩
  have bound := (List.getElem?_eq_some_iff.mp there).1
  rw [tasks] at bound
  have present := List.getElem?_eq_getElem bound
  obtain ⟨duty, leg, works⟩ := manned.working id _ present
  obtain ⟨again, there', works'⟩ := keeps id _ duty leg present works
  obtain rfl : next = again := Option.some.inj (there.symm.trans there')
  exact ⟨duty, leg, works'⟩

theorem sameWiring_of_kind {move : Move}
    (call : ∀ context steps, move ≠ .openCall context steps)
    (spawn : ∀ scope script, move ≠ .spawn scope script) (state : State) :
    state.SameWiring (state.apply move) := by
  rcases sameWiring_apply state move with same | ⟨context, steps, rfl⟩ | ⟨scope, script, rfl⟩
  · exact same
  · exact absurd rfl (call context steps)
  · exact absurd rfl (spawn scope script)

theorem Manned.spared (manned : state.Manned orders) {move : Move}
    (same : state.SameWiring (state.apply move)) (tasks : (state.apply move).tasks = state.tasks)
    (minds : ∀ id, state.Minds id (state.apply move)) : (state.apply move).Manned orders :=
  manned.step same fun id task _ _ present works =>
    ⟨task, tasks ▸ present, works.bides (minds id).bides⟩

theorem Manned.addBackground (manned : state.Manned orders) :
    (state.apply .addBackground).Manned orders :=
  manned.spared (sameWiring_of_kind (by simp) (by simp) state) rfl fun id => minds_append state _ id

theorem Manned.derive (manned : state.Manned orders) (parent : ScopeId) (deadline : Option Nat) :
    (state.apply (.derive parent deadline)).Manned orders :=
  manned.spared (sameWiring_of_kind (by simp) (by simp) state) rfl fun id =>
    minds_derive state parent deadline id

theorem Manned.turn (manned : state.Manned orders) (worker : Worker) :
    (state.apply (.turn worker)).Manned orders := by
  refine manned.step (sameWiring_of_kind (by simp) (by simp) state) ?_
  intro id task duty leg present works
  obtain ⟨next, goes⟩ := exists_goes_turn works.positive present works.works works.suits works.alarms
    worker False.elim
  exact ⟨next, goes.found, goes.works.trans works.works, works.order,
    clock_turn state worker ▸ goes.suits, goes.alarms⟩

theorem Manned.jump (manned : state.Manned orders) (time : Nat) :
    (state.apply (.jump time)).Manned orders := by
  refine manned.step (sameWiring_of_kind (by simp) (by simp) state) ?_
  intro id task duty leg present works
  have later := clock_le_apply state (.jump time)
  simp only [apply] at later ⊢
  split
  · rename_i possible
    rw [if_pos possible] at later
    exact ⟨task, by simpa using present, works.works, works.order, works.suits.mono later,
      works.alarms.jump possible⟩
  · exact ⟨task, present, works⟩

theorem WorksFor.doom (works : before.WorksFor orders id task duty leg) :
    after.WorksFor orders id { task with life := .doomed } duty leg :=
  ⟨works.works, works.order, .doomed rfl, fun due busy => by simp [Task.stage] at busy⟩

theorem Manned.abortCall (manned : state.Manned orders) (call : CallId) :
    (state.apply (.abortCall call)).Manned orders := by
  refine manned.step (sameWiring_of_kind (by simp) (by simp) state) ?_
  intro id task duty leg present works
  have bides := (minds_abortCall state call id).bides
  simp only [apply]
  cases known : state.calls[call]? with
  | none =>
      have same : state.abortCall call = state := by simp only [State.abortCall, known]
      rw [same]
      exact ⟨task, present, works⟩
  | some record =>
      by_cases stopped : (record.aborted || record.ended.isSome) = true
      · rw [abortCall_of_over known stopped]
        exact ⟨task, present, works⟩
      · have doomed := abortCall_of_going known (Bool.not_eq_true _ ▸ stopped)
        by_cases told : id ∈ record.tasks ∧ task.life = .live
        · exact ⟨_, (doomed.live id told.1 task present told.2).1, works.doom⟩
        · refine ⟨task, doomed.other id task present fun member live => told ⟨member, live⟩, ?_⟩
          exact works.bides bides

theorem Manned.openCall (manned : state.Manned orders) (context : ScopeId) (order : Order) :
    (state.apply (.openCall context (orderPipeline.scripts order))).Manned (orders ++ [order]) := by
  have opened := opened_openCall state context (orderPipeline.scripts order)
  refine ⟨?_, fun id next there => ?_⟩
  · simp [apply, opened.calls, manned.size]
  · simp only [apply, opened.tasks] at there
    rcases Nat.lt_or_ge id state.tasks.length with known | new
    · rw [List.getElem?_append_left known] at there
      obtain ⟨duty, leg, works⟩ := manned.working id next there
      have bides := (minds_openCall state context (orderPipeline.scripts order) id).bides
      obtain ⟨record, placed, listed⟩ := works.order
      have bound := (List.getElem?_eq_some_iff.mp placed).1
      exact ⟨duty, leg, works.works, ⟨record, by rwa [List.getElem?_append_left bound], listed⟩,
        bides.clock ▸ works.suits, works.alarms.bides bides⟩
    · rw [List.getElem?_append_right new, getElem?_stepTasks, List.getElem?_map, Option.map_map,
        Option.map_eq_some_iff] at there
      obtain ⟨step, named, rfl⟩ := there
      let duty : Duty := ⟨state.calls.length, id - state.tasks.length⟩
      obtain ⟨leg, listed, rfl⟩ := order.exists_leg duty named
      refine ⟨duty, leg, rfl, ⟨order, ?_, listed⟩, .fresh rfl rfl rfl, fun due busy => ?_⟩
      · simp [duty, manned.size]
      · simp [Task.stage, Task.new] at busy

end State

end Schedule

namespace Desk

def Event.taken? : Event → Option Order
  | .handle order => if order.id.isEmpty then none else some order
  | .drop _ | .turn _ | .jump _ => none

def taken (events : List Event) : List Order :=
  events.filterMap Event.taken?

theorem manned_apply {desk : Desk} {orders : List Order} (usual : desk.handler.pipeline = orderPipeline)
    (manned : desk.state.Manned orders) (event : Event) :
    (desk.apply event).state.Manned (orders ++ event.taken?.toList) := by
  cases event with
  | handle order =>
      rw [state_apply, moves, Event.taken?]
      split
      · simpa using manned
      · rw [usual]
        exact (manned.addBackground.derive _ _).openCall (desk.state.scopes.length + 1) order
  | drop call =>
      rw [Event.taken?, Option.toList_none, List.append_nil]
      exact manned.abortCall call
  | turn worker =>
      rw [Event.taken?, Option.toList_none, List.append_nil]
      exact manned.turn worker
  | jump time =>
      rw [Event.taken?, Option.toList_none, List.append_nil]
      exact manned.jump time

theorem manned_run {desk : Desk} {orders : List Order} (usual : desk.handler.pipeline = orderPipeline)
    (manned : desk.state.Manned orders) (events : List Event) :
    (desk.run events).state.Manned (orders ++ taken events) := by
  induction events generalizing desk orders with
  | nil =>
      rw [taken, List.filterMap_nil, List.append_nil]
      exact manned
  | cons event events ih =>
      have later := ih (handler_apply desk event ▸ usual) (manned_apply usual manned event)
      have listed : taken (event :: events) = event.taken?.toList ++ taken events := by
        cases same : event.taken? <;> simp [taken, same]
      rw [listed, ← List.append_assoc]
      exact later

end Desk

end OrderDesk
