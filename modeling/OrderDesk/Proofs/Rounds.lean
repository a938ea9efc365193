import OrderDesk.Proofs.CourierLine

/-! A desk from one instant at which nobody is in line to run to the next. In between, an order is taken
on or given up or time passes, and then everybody takes the turns that there are to take. Meanwhile a
task ends by itself only when it is due, a call is given up only from outside, and whoever waits for a
courier stays younger than all who have one. -/

namespace OrderDesk

open Schedule

namespace Desk

variable {settings : Settings} {events : List Event} {event : Event} {workers : List Worker}
  {base : Nat} {id : TaskId} {task next : Task} {call : Call}

def Event.IsOutside : Event → Prop
  | .turn _ => False
  | .handle _ | .drop _ | .jump _ => True

/-- The state in which the workers take their turns after something has happened. -/
abbrev opening (settings : Settings) (events : List Event) (event : Event) : State :=
  (((ofSettings settings).run events).apply event).state

theorem stateAfter_snoc (settings : Settings) (events : List Event) (event : Event) :
    stateAfter settings (events ++ [event]) = opening settings events event := by
  rw [stateAfter, run_append]
  rfl

theorem exists_effect_opening (settings : Settings) (events : List Event) (event : Event) :
    ∃ after, opening settings events event = after ∧
      ((ofSettings settings).run events).Effect event after :=
  exists_effect (usual_run settings events) event

theorem exists_task_opening (outside : event.IsOutside)
    (present : (stateAfter settings events).tasks[id]? = some task) :
    ∃ next, (opening settings events event).tasks[id]? = some next ∧
      (next = task ∨ next = { task with life := .doomed } ∧ task.life = .live) := by
  obtain ⟨after, same, effect⟩ := exists_effect_opening settings events event
  rw [same]
  cases effect with
  | refused unnamed => exact ⟨task, present, .inl rfl⟩
  | opened named state context tasks =>
      refine ⟨task, ?_, .inl rfl⟩
      rw [(State.opened_openCall _ _ _).tasks, tasks,
        List.getElem?_append_left (List.getElem?_eq_some_iff.mp present).1]
      exact present
  | moved kind =>
      cases event with
      | handle order => cases kind
      | turn worker => exact outside.elim
      | jump time =>
          obtain rfl := Option.some.inj kind
          refine ⟨task, ?_, .inl rfl⟩
          simp only [State.apply]
          split
          · simpa using present
          · exact present
      | drop call =>
          obtain rfl := Option.some.inj kind
          rw [State.apply]
          cases known : (stateAfter settings events).calls[call]? with
          | none =>
              refine ⟨task, ?_, .inl rfl⟩
              simpa only [State.abortCall, known] using present
          | some record =>
              by_cases stopped : (record.aborted || record.ended.isSome) = true
              · rw [State.abortCall_of_over known stopped]
                exact ⟨task, present, .inl rfl⟩
              · have doomed := State.abortCall_of_going known (Bool.not_eq_true _ ▸ stopped)
                by_cases told : id ∈ record.tasks ∧ task.life = .live
                · exact ⟨_, (doomed.live id told.1 task present told.2).1, .inr ⟨rfl, told.2⟩⟩
                · exact ⟨task, doomed.other id task present fun member live => told ⟨member, live⟩,
                    .inl rfl⟩

theorem stageOf_opening (outside : event.IsOutside)
    (found : (opening settings events event).tasks[id]? = some next) :
    (stateAfter settings events).stageOf id = next.stage ∧
      (∀ time ending, next.life = .ended time ending →
        ∃ task, (stateAfter settings events).tasks[id]? = some task ∧
          task.life = .ended time ending) ∨
    next.stage = .doomed ∧ ∃ task, (stateAfter settings events).tasks[id]? = some task ∧
      task.life = .live := by
  cases present : (stateAfter settings events).tasks[id]? with
  | some task =>
      obtain ⟨again, there, rfl | ⟨rfl, live⟩⟩ := exists_task_opening outside present
      · obtain rfl : next = again := Option.some.inj (found.symm.trans there)
        exact .inl ⟨State.stageOf_of_found present, fun time ending life => ⟨next, rfl, life⟩⟩
      · obtain rfl := Option.some.inj (found.symm.trans there)
        exact .inr ⟨rfl, task, rfl, live⟩
  | none =>
      -- The task is new, and so it comes with an order.
      have unknown := List.getElem?_eq_none_iff.mp present
      obtain ⟨after, same, effect⟩ := exists_effect_opening settings events event
      rw [same] at found
      cases effect with
      | refused unnamed =>
          rw [present] at found
          cases found
      | opened named state context tasks =>
          rw [(State.opened_openCall _ _ _).tasks, tasks, List.getElem?_append_right unknown,
            State.getElem?_stepTasks] at found
          obtain ⟨script, _, rfl⟩ := Option.map_eq_some_iff.mp found
          exact .inl ⟨by simp [State.stageOf, present, Task.stage, Task.new],
            fun time ending life => by cases life⟩
      | moved kind =>
          have size := congrArg List.length (Event.sameWiring kind (stateAfter settings events)).duties
          simp only [State.duties, List.length_map] at size
          have bound := (List.getElem?_eq_some_iff.mp found).1
          exact absurd (size ▸ bound) (Nat.not_lt.mpr unknown)

theorem exists_call_opening {id : CallId} {old : Call}
    (known : (stateAfter settings events).calls[id]? = some old) :
    ∃ call, (opening settings events event).calls[id]? = some call ∧ old.Continues call ∧
      (old.aborted = true → call.aborted = true) ∧
      (call.aborted = true → old.aborted = true ∨ event = .drop id ∧ old.ended = none) := by
  obtain ⟨after, same, effect⟩ := exists_effect_opening settings events event
  rw [same]
  cases effect with
  | refused unnamed => exact ⟨old, known, .refl old, fun given => given, .inl⟩
  | opened named state context _ calls =>
      refine ⟨old, ?_, .refl old, fun given => given, .inl⟩
      rw [(State.opened_openCall _ _ _).calls, calls,
        List.getElem?_append_left (List.getElem?_eq_some_iff.mp known).1]
      exact known
  | @moved _ move kind =>
      obtain ⟨call, advances⟩ := State.exists_advances move known
      refine ⟨call, advances.found, advances.continues, advances.stays, fun aborted => ?_⟩
      rcases advances.aborted with kept | ⟨rfl, unended⟩
      · exact .inl (kept.symm.trans aborted)
      · exact .inr ⟨Event.eq_drop kind, unended⟩

theorem call_of_new {id : CallId} (new : (stateAfter settings events).calls.length ≤ id)
    (found : (opening settings events event).calls[id]? = some call) :
    id = (stateAfter settings events).calls.length ∧ call.aborted = false ∧
      call.started = (stateAfter settings events).clock := by
  obtain ⟨after, same, effect⟩ := exists_effect_opening settings events event
  rw [same] at found
  have bound := (List.getElem?_eq_some_iff.mp found).1
  cases effect with
  | refused unnamed => exact absurd bound (Nat.not_lt.mpr new)
  | moved kind =>
      have size := congrArg List.length (Event.sameWiring kind (stateAfter settings events)).rosters
      simp only [State.rosters, List.length_map] at size
      exact absurd (size ▸ bound) (Nat.not_lt.mpr new)
  | opened named state context _ calls _ clock =>
      rw [(State.opened_openCall _ _ _).calls, calls, List.length_append,
        List.length_singleton] at bound
      rw [(State.opened_openCall _ _ _).calls, calls, List.getElem?_append_right new,
        List.getElem?_singleton] at found
      split at found
      · obtain rfl := Option.some.inj found
        exact ⟨Nat.le_antisymm (Nat.le_of_lt_succ bound) new, rfl, clock⟩
      · cases found

def round (events : List Event) (event : Event) (workers : List Worker) : List Event :=
  events ++ event :: workers.map Event.turn

theorem state_turns (desk : Desk) (workers : List Worker) :
    (desk.run (workers.map Event.turn)).state = desk.state.play (workers.map Move.turn) := by
  induction workers generalizing desk with
  | nil => rfl
  | cons worker workers ih => exact ih (desk.apply (.turn worker))

theorem state_round (settings : Settings) (events : List Event) (event : Event)
    (workers : List Worker) : stateAfter settings (round events event workers) =
      (opening settings events event).play (workers.map Move.turn) := by
  rw [stateAfter, round, run_append]
  exact state_turns _ workers

theorem clock_round (settings : Settings) (events : List Event) (event : Event)
    (workers : List Worker) : (stateAfter settings (round events event workers)).clock =
      (opening settings events event).clock := by
  rw [state_round, State.clock_turns]

theorem taken_round (events : List Event) (event : Event) (workers : List Worker) :
    taken (round events event workers) = taken (events ++ [event]) := by
  have nothing : taken (workers.map Event.turn) = [] := by
    simp [taken, List.filterMap_map, Event.taken?, Function.comp_def]
  rw [round, List.append_cons, taken_append, nothing, List.append_nil]

theorem exists_round (settings : Settings) (events : List Event) (event : Event) :
    ∃ workers, stateAfter settings (round events event workers) =
        (opening settings events event).settleNow ∧
      (stateAfter settings (round events event workers)).ready = [] := by
  have punctual := punctual_run settings (events ++ [event])
  rw [stateAfter_snoc] at punctual
  obtain ⟨quiet, _, workers, turns⟩ := State.exists_turns_of_settleNow punctual
  have reached := (state_round settings events event workers).trans turns
  exact ⟨workers, reached, reached ▸ quiet⟩

structure Passes (settings : Settings) (events : List Event) (event : Event) (workers : List Worker)
    (id : TaskId) (next : Task) (leg : Leg) (call : Call) : Prop where
  order : ∃ order, (taken (events ++ [event]))[id / 3]? = some order ∧ order.legs[id % 3]? = some leg
  works : (stateAfter settings (round events event workers)).WorksFor
    (taken (events ++ [event])) id next ⟨id / 3, id % 3⟩ leg
  part : IsPart (stateAfter settings (round events event workers)) (id / 3) id next
  leads : leg.Leads (stateAfter settings (round events event workers)).clock
    (call.started + settings.requestTimeout ≤ (stateAfter settings (round events event workers)).clock)
    ((stateAfter settings events).stageOf id) next.stage
  stops : (opening settings events event).stageOf id = .doomed → next.stage = .finished .stopped
  timed : ∀ time ending, next.life = .ended time ending →
    (∃ task, (stateAfter settings events).tasks[id]? = some task ∧
      task.life = .ended time ending) ∨
    time = (stateAfter settings (round events event workers)).clock

theorem exists_call_turns {state : State} {id : CallId} {call : Call}
    (found : state.calls[id]? = some call) (workers : List Worker) :
    ∃ after, (state.play (workers.map Move.turn)).calls[id]? = some after ∧ call.Continues after ∧
      after.aborted = call.aborted := by
  induction workers generalizing state call with
  | nil => exact ⟨call, found, .refl call, rfl⟩
  | cons worker workers ih =>
      obtain ⟨next, advances⟩ := State.exists_advances (.turn worker) found
      obtain ⟨after, there, continues, aborted⟩ := ih advances.found
      refine ⟨after, there, advances.continues.trans continues, aborted.trans ?_⟩
      rcases advances.aborted with same | ⟨other, _⟩
      · exact same
      · cases other

theorem exists_call_before {id : CallId}
    (found : (stateAfter settings (round events event workers)).calls[id]? = some call) :
    (∃ old, (stateAfter settings events).calls[id]? = some old ∧ old.Continues call ∧
      (old.aborted = true → call.aborted = true) ∧
      (call.aborted = true → old.aborted = true ∨ event = .drop id ∧ old.ended = none)) ∨
    id = (stateAfter settings events).calls.length ∧ call.aborted = false ∧
      call.started = (stateAfter settings events).clock := by
  rw [state_round] at found
  have size : ((opening settings events event).play (workers.map Move.turn)).calls.length =
      (opening settings events event).calls.length := by
    refine State.length_calls_play fun move member => ?_
    obtain ⟨worker, _, rfl⟩ := List.mem_map.mp member
    exact .inl ⟨worker, rfl⟩
  have bound := (List.getElem?_eq_some_iff.mp found).1
  rw [size] at bound
  have present := List.getElem?_eq_getElem bound
  obtain ⟨again, there, continues, kept⟩ := exists_call_turns present workers
  obtain rfl : call = again := Option.some.inj (found.symm.trans there)
  by_cases known : id < (stateAfter settings events).calls.length
  · have before := List.getElem?_eq_getElem known
    obtain ⟨middle, same, continues', stays, given⟩ :=
      exists_call_opening before
    rw [present] at same
    obtain rfl := Option.some.inj same
    rw [kept]
    exact .inl ⟨_, before, continues'.trans continues, stays, given⟩
  · obtain ⟨last, going, started⟩ := call_of_new (Nat.le_of_not_lt known) present
    exact .inr ⟨last, kept.trans going, continues.started.trans started⟩

theorem cause_of_late_opening {id : CallId} {task : TaskId} {middle : Task}
    (known : (stateAfter settings (round events event workers)).calls[id]? = some call)
    (part : IsPart (opening settings events event) id task middle)
    (late : call.started + settings.requestTimeout ≤ (opening settings events event).clock) :
    ((opening settings events event).cause? middle.scope).isSome = true := by
  have there := (List.getElem?_eq_some_iff.mp known).1
  rw [length_calls, taken_round, ← length_calls settings, stateAfter_snoc] at there
  obtain ⟨first, start⟩ : ∃ first, (opening settings events event).calls[id]? = some first :=
    ⟨_, List.getElem?_eq_getElem there⟩
  obtain ⟨again, known', continues, _⟩ := exists_call_turns start workers
  rw [← state_round, known] at known'
  obtain rfl := Option.some.inj known'
  have charged := start
  rw [← stateAfter_snoc] at charged
  obtain ⟨order, charge⟩ := exists_charge settings (events ++ [event]) charged
  rw [stateAfter_snoc] at charge
  exact charge.cause_of_late part (continues.started ▸ late)

theorem exists_passes (outside : event.IsOutside)
    (quiet : (stateAfter settings (round events event workers)).ready = [])
    (found : (stateAfter settings (round events event workers)).tasks[id]? = some next)
    (known : (stateAfter settings (round events event workers)).calls[id / 3]? = some call) :
    ∃ leg, Passes settings events event workers id next leg call := by
  obtain ⟨order, leg, listed, legs, works, part⟩ := exists_leg found
  have cases' := stage_cases quiet found works
  rw [taken_round] at listed works
  have clock := clock_round settings events event workers
  obtain ⟨middle, present⟩ : ∃ middle, (opening settings events event).tasks[id]? = some middle := by
    have bound := (List.getElem?_eq_some_iff.mp found).1
    rw [length_tasks, taken_round, ← length_tasks settings, stateAfter_snoc] at bound
    exact ⟨_, List.getElem?_eq_getElem bound⟩
  have present' : (stateAfter settings (events ++ [event])).tasks[id]? = some middle := by
    rw [stateAfter_snoc]
    exact present
  obtain ⟨order', leg', listed', legs', works', part'⟩ := exists_leg present'
  obtain rfl : order = order' := Option.some.inj (listed.symm.trans listed')
  obtain rfl : leg = leg' := Option.some.inj (legs.symm.trans legs')
  rw [stateAfter_snoc] at works' part'
  have lates := cause_of_late_opening known part'
  have punctual := punctual_run settings (events ++ [event])
  rw [stateAfter_snoc] at punctual
  obtain ⟨again, goes⟩ := State.exists_goes_turns works'.positive present works'.works works'.suits
    works'.alarms workers fun late => ⟨punctual, lates late⟩
  rw [← state_round] at goes
  obtain rfl : next = again := Option.some.inj (found.symm.trans goes.found)
  rw [← clock] at goes
  have stops (doomed : middle.stage = .doomed) : next.stage = .finished .stopped := by
    have leads := goes.leads
    rw [doomed] at leads
    rcases leads with still | finished
    · rcases cases' with ⟨queued, _⟩ | ⟨due, busy, _⟩ | ⟨finish, finished, _⟩
      · simp [still] at queued
      · simp [still] at busy
      · simp [still] at finished
    · exact finished
  refine ⟨leg, ⟨order, listed, legs⟩, works, part, ?_,
    fun doomed => stops (State.stageOf_of_found present ▸ doomed), ?_⟩
  · rcases stageOf_opening outside present with ⟨same, _⟩ | ⟨doomed, task, there, live⟩
    · rw [same]
      exact goes.leads
    · rw [State.stageOf_of_found there, stops doomed]
      exact Leg.leads_stopped live
  · intro time ending life
    rcases goes.timed time ending life with same | now
    · -- It was over before the turns, and nothing from outside gets a task over.
      rcases stageOf_opening outside present with ⟨_, ended⟩ | ⟨doomed, _⟩
      · exact .inl (ended time ending same)
      · rw [State.stage_of_ended same] at doomed
        cases doomed
    · exact .inr now

theorem exists_next (present : (opening settings events event).tasks[id]? = some task)
    (workers : List Worker) :
    ∃ next, (stateAfter settings (round events event workers)).tasks[id]? = some next := by
  have bound := (List.getElem?_eq_some_iff.mp present).1
  rw [← stateAfter_snoc, length_tasks, ← taken_round events event workers,
    ← length_tasks settings] at bound
  exact ⟨_, List.getElem?_eq_getElem bound⟩

theorem exists_over (settings : Settings) (event : Event) (workers : List Worker)
    (present : (stateAfter settings events).tasks[id]? = some task) (finished : task.isOver = true) :
    ∃ next, (stateAfter settings (round events event workers)).tasks[id]? = some next ∧
      next.life = task.life := by
  rw [stateAfter, round, run_append, state_run]
  exact State.exists_over_play (wired_run settings events) present finished _

theorem isOver_round (known : id < (stateAfter settings events).tasks.length)
    (finished : ∀ task, (stateAfter settings events).tasks[id]? = some task → task.isOver = true)
    (found : (stateAfter settings (round events event workers)).tasks[id]? = some next) :
    next.isOver = true := by
  have present := List.getElem?_eq_getElem known
  obtain ⟨again, there, life⟩ := exists_over settings event workers present (finished _ present)
  obtain rfl : next = again := Option.some.inj (found.symm.trans there)
  rw [Task.isOver, life]
  exact finished _ present

theorem isRanked_opening (outside : event.IsOutside)
    (ranked : (stateAfter settings events).IsRanked) : (opening settings events event).IsRanked := by
  obtain ⟨after, same, effect⟩ := exists_effect_opening settings events event
  rw [same]
  cases effect with
  | refused unnamed => exact ranked
  | @opened order named state context tasks _ limiter =>
      have opened := State.opened_openCall state context (orderPipeline.scripts order)
      refine ranked.congr (opened.limiter.trans limiter) fun id => ?_
      refine Nat.le_trans (State.slotsOf_append opened.tasks (fun task member => ?_) id)
        (Nat.le_of_eq (State.slotsOf_congr tasks id))
      obtain ⟨position, there⟩ := List.getElem?_of_mem member
      rw [State.getElem?_stepTasks] at there
      obtain ⟨script, _, rfl⟩ := Option.map_eq_some_iff.mp there
      rfl
  | moved kind =>
      cases event with
      | handle order => cases kind
      | turn worker => exact outside.elim
      | drop call =>
          obtain rfl := Option.some.inj kind
          rw [State.apply, State.abortCall]
          split
          · exact ranked
          · split
            · exact ranked
            · rename_i found _ _
              obtain ⟨limiter, slots⟩ := State.kept_foldl_doom
                { stateAfter settings events with
                  calls := (stateAfter settings events).calls.set call { found with aborted := true } }
                found.tasks
              exact ranked.congr limiter slots
      | jump time =>
          obtain rfl := Option.some.inj kind
          rw [State.apply]
          split
          · exact ranked.congr (State.limiter_wakeAll _ _) fun id =>
              Nat.le_of_eq (State.slotsOf_congr (State.tasks_jump _ _) id)
          · exact ranked

theorem position_of_isCourier {duty : Duty} (courier : duty.isCourier = true) :
    duty.position = 2 := by
  obtain ⟨call, position⟩ := duty
  match position with
  | 0 => simp [Duty.isCourier, orderPipeline_names] at courier
  | 1 => simp [Duty.isCourier, orderPipeline_names] at courier
  | 2 => rfl
  | position + 3 => simp [Duty.isCourier, orderPipeline_names] at courier

theorem isSettled_opening (outside : event.IsOutside)
    (quiet : (stateAfter settings events).ready = []) :
    (opening settings events event).IsSettled := by
  intro id task duty found stage works needs
  have seated := found
  rw [← stateAfter_snoc] at seated
  obtain ⟨_, _, _, _, own, _⟩ := exists_leg seated
  obtain rfl : ⟨id / 3, id % 3⟩ = duty := Option.some.inj (own.works.symm.trans works)
  have last : id % 3 = 2 := position_of_isCourier needs
  have new : ¬ id < (stateAfter settings events).tasks.length := by
    intro known
    have present := List.getElem?_eq_getElem known
    obtain ⟨_, _, _, _, own', _⟩ := exists_leg present
    rcases stageOf_opening outside found with ⟨same, _⟩ | ⟨doomed, _⟩
    · rw [State.stageOf_of_found present, stage] at same
      rcases stage_cases quiet present own' with ⟨queued, _⟩ | ⟨due, busy, _⟩ | ⟨finish, finished, _⟩
      · simp [same] at queued
      · simp [same] at busy
      · simp [same] at finished
    · simp [stage] at doomed
  have bound := (List.getElem?_eq_some_iff.mp seated).1
  have size : (opening settings events event).tasks.length =
      3 * (taken events).length + 3 * (taken [event]).length := by
    rw [← stateAfter_snoc, length_tasks, taken_append, List.length_append, Nat.mul_add]
  have small : (taken [event]).length ≤ 1 := by
    cases same : event.taken? <;> simp [taken, same]
  rw [stateAfter_snoc, size] at bound
  rw [length_tasks] at new
  have youngest (id before added : Nat) (last : id % 3 = 2) (new : ¬ id < 3 * before)
      (bound : id < 3 * before + 3 * added) (small : added ≤ 1) :
      id + 1 = 3 * before + 3 * added := by omega
  rw [size]
  exact youngest id _ _ last new bound small

theorem isRanked_round (outside : event.IsOutside) (quiet : (stateAfter settings events).ready = [])
    (ranked : (stateAfter settings events).IsRanked) (workers : List Worker) :
    (stateAfter settings (round events event workers)).IsRanked ∧
      (stateAfter settings (round events event workers)).IsSettled := by
  induction workers using List.reverseRecOn with
  | nil =>
      rw [state_round]
      exact ⟨isRanked_opening outside ranked, isSettled_opening outside quiet⟩
  | append_singleton workers worker ih =>
      have turned : stateAfter settings (round events event (workers ++ [worker])) =
          (stateAfter settings (round events event workers)).apply (.turn worker) := by
        rw [state_round, state_round, List.map_append, State.play_append]
        rfl
      have manned := manned_of_run settings (round events event workers)
      rw [turned]
      exact ⟨ih.1.turn ih.2 (lined_run settings _) (staffed_run settings _) manned worker,
        ih.2.turn manned worker⟩

/-! ## Between rounds -/

structure Poised (settings : Settings) (base : Nat) (events : List Event) : Prop where
  quiet : (stateAfter settings events).ready = []
  ranked : (stateAfter settings events).IsRanked
  /-- Whoever gives up a call stops one of its tasks. -/
  given : ∀ (id : CallId) (call : Call), base ≤ id →
    (stateAfter settings events).calls[id]? = some call → call.aborted = true →
    ∃ task found, IsPart (stateAfter settings events) id task found ∧ found.stage = .finished .stopped

/-- A call that is given up while it is in progress, or was over before, is over afterwards. -/
theorem done_of_drop {id : CallId} {old : Call}
    (there : (stateAfter settings events).calls[id]? = some old)
    (known : (stateAfter settings (round events (.drop id) workers)).calls[id]? = some call) :
    call.aborted = true ∨ call.ended.isSome = true := by
  rw [state_round] at known
  have first : ∃ middle, (opening settings events (.drop id)).calls[id]? = some middle ∧
      (middle.aborted = true ∨ middle.ended.isSome = true) := by
    by_cases stopped : (old.aborted || old.ended.isSome) = true
    · have same : opening settings events (.drop id) = stateAfter settings events :=
        State.abortCall_of_over there stopped
      exact ⟨old, same ▸ there, by simpa using stopped⟩
    · have doomed := State.abortCall_of_going there (Bool.not_eq_true _ ▸ stopped)
      have calls : (opening settings events (.drop id)).calls = _ := doomed.calls
      refine ⟨{ old with aborted := true }, ?_, .inl rfl⟩
      rw [calls]
      exact List.getElem?_set_self (List.getElem?_eq_some_iff.mp there).1
  obtain ⟨middle, found, finished⟩ := first
  obtain ⟨after, reached, finished'⟩ := State.over_play found finished (workers.map Move.turn)
  obtain rfl : call = after := Option.some.inj (known.symm.trans reached)
  exact finished'

/-- Giving up a call that is in progress stops one of its tasks. -/
theorem exists_stopped {id : CallId} {old : Call}
    (quiet : (stateAfter settings events).ready = [])
    (quiet' : (stateAfter settings (round events (.drop id) workers)).ready = [])
    (known : (stateAfter settings events).calls[id]? = some old) (going : old.aborted = false)
    (unended : old.ended = none) :
    ∃ task found, IsPart (stateAfter settings (round events (.drop id) workers)) id task found ∧
      found.stage = .finished .stopped := by
  obtain ⟨order, charge⟩ := exists_charge settings events known
  obtain ⟨history, same, attentive⟩ := charge.attentive
  obtain ⟨task, member, found, present, live, _⟩ :=
    attentive.exists_blocked (same ▸ quiet) going unended
  rw [same] at present
  obtain ⟨doomed, _⟩ :=
    (State.abortCall_of_going known (by simp [going, unended])).live task member found present live
  have there : (opening settings events (.drop id)).tasks[task]? =
      some { found with life := .doomed } := doomed
  obtain ⟨next, reached⟩ := exists_next there workers
  obtain ⟨call, some_call⟩ := exists_call reached
  have outside : Event.IsOutside (.drop id) := trivial
  obtain ⟨leg, passes⟩ := exists_passes outside quiet' reached some_call
  obtain ⟨again, part⟩ := charge.exists_part member
  have own : task / 3 = id := call_of_isPart part
  exact ⟨task, next, own ▸ passes.part, passes.stops (State.stageOf_of_found there)⟩

theorem Poised.round (poised : Poised settings base events) (outside : event.IsOutside)
    (quiet : (stateAfter settings (round events event workers)).ready = []) :
    Poised settings base (round events event workers) := by
  refine ⟨quiet, (isRanked_round outside poised.quiet poised.ranked workers).1, ?_⟩
  intro id call new known aborted
  rcases exists_call_before known with ⟨old, there, _, _, given⟩ | ⟨_, going, _⟩
  · by_cases already : old.aborted = true
    · obtain ⟨task, found, part, stopped⟩ := poised.given id old new there already
      have finished := Task.isOver_iff.mpr ⟨_, stopped⟩
      obtain ⟨next, present, life⟩ := exists_over settings event workers part.present finished
      exact ⟨task, next, isPart_of_found present (call_of_isPart part),
        (Task.stage_of_life life finished).trans stopped⟩
    · obtain ⟨rfl, unended⟩ := (given aborted).resolve_left already
      exact exists_stopped poised.quiet quiet there (by simpa using already) unended
  · rw [going] at aborted
    cases aborted

end Desk

end OrderDesk
