import OrderDesk.Proofs.IdleDesks
import OrderDesk.Proofs.QuietCalls
import OrderDesk.Proofs.Seniority

/-! Who is who at a desk. The tasks of an order are three in a row, and each works off a leg of the
order. While nobody is in line to run, every task that is not over waits for a courier or for a time to
come, exactly the busy couriers have slots, and whoever is in line for one finds them all with older
tasks. -/

namespace OrderDesk

open Schedule

namespace Schedule

theorem Task.isOver_iff {task : Task} :
    task.isOver = true ↔ ∃ finish, task.stage = .finished finish := by
  constructor
  · intro finished
    cases life : task.life with
    | live => simp [Task.isOver, life] at finished
    | doomed => simp [Task.isOver, life] at finished
    | ended time ending => exact ⟨ending.finish, State.stage_of_ended life⟩
    | dropped => exact ⟨.stopped, by simp [Task.stage, life]⟩
  · rintro ⟨finish, stage⟩
    cases life : task.life with
    | live =>
        simp only [Task.stage, life] at stage
        split at stage
        · cases wake : task.wake <;> simp [wake] at stage
        · cases stage
    | doomed => simp [Task.stage, life] at stage
    | ended time ending => simp [Task.isOver, life]
    | dropped => simp [Task.isOver, life]

theorem Task.stage_of_life {task next : Task} (life : next.life = task.life)
    (finished : task.isOver = true) : next.stage = task.stage := by
  cases same : task.life with
  | live => simp [Task.isOver, same] at finished
  | doomed => simp [Task.isOver, same] at finished
  | ended time ending => rw [State.stage_of_ended same, State.stage_of_ended (life.trans same)]
  | dropped => simp [Task.stage, life, same]

namespace State

variable {state before after : State} {id : TaskId} {task : Task}

theorem exists_over_play (wired : state.Wired) (present : state.tasks[id]? = some task)
    (finished : task.isOver = true) (moves : List Move) :
    ∃ next, (state.play moves).tasks[id]? = some next ∧ next.life = task.life := by
  induction moves generalizing state task with
  | nil => exact ⟨task, present, rfl⟩
  | cons move moves ih =>
      obtain ⟨middle, becomes⟩ := exists_becomes wired move present
      have same : middle.life = task.life := by
        cases becomes.evolves with
        | same life _ _ => exact life
        | worked _ _ live _ => simp [Task.isOver, live] at finished
        | doomed live _ _ _ _ => simp [Task.isOver, live] at finished
        | dropped doomed _ _ => simp [Task.isOver, doomed] at finished
      have finished' : middle.isOver = true := by
        rw [Task.isOver, same]
        exact finished
      obtain ⟨next, there, life⟩ := ih (wired.play [move]) becomes.found finished'
      exact ⟨next, there, life.trans same⟩

def stageOf (state : State) (id : TaskId) : Stage :=
  state.tasks[id]?.elim .fresh Task.stage

theorem stageOf_of_found (found : state.tasks[id]? = some task) : state.stageOf id = task.stage := by
  simp [stageOf, found]

theorem exists_of_stageOf {finish : Finish} (finished : state.stageOf id = .finished finish) :
    ∃ task, state.tasks[id]? = some task ∧ task.stage = .finished finish := by
  cases found : state.tasks[id]? with
  | none => simp [stageOf, found] at finished
  | some task => exact ⟨task, rfl, (stageOf_of_found found).symm.trans finished⟩

/-- Every call has three tasks, and they are numbered in the order of the calls. -/
def IsSeated (state : State) : Prop :=
  state.duties = (List.range (3 * state.calls.length)).map fun id => some ⟨id / 3, id % 3⟩

theorem IsSeated.same (seated : before.IsSeated) (wiring : before.SameWiring after) :
    after.IsSeated := by
  have calls := congrArg List.length wiring.rosters
  simp only [rosters, List.length_map] at calls
  rw [IsSeated, wiring.duties, calls]
  exact seated

end State

end Schedule

namespace Desk

variable {settings : Settings} {events : List Event} {id : TaskId} {task : Task}
  {orders : List Order}

theorem balanced_run (settings : Settings) (events : List Event) :
    (stateAfter settings events).IsBalanced (Limiter.clamp settings.couriers) := by
  have first : (ofSettings settings).state.IsBalanced (Limiter.clamp settings.couriers) :=
    State.balanced_start rfl rfl
  rw [stateAfter, state_run]
  exact first.play _

theorem tended_run (settings : Settings) (events : List Event) :
    (stateAfter settings events).Tended none := by
  have first : (ofSettings settings).state.Tended none := State.tended_start rfl
  have balanced : (ofSettings settings).state.IsBalanced (Limiter.clamp settings.couriers) :=
    State.balanced_start rfl rfl
  rw [stateAfter, state_run]
  exact first.play balanced _

theorem punctual_run (settings : Settings) (events : List Event) :
    (stateAfter settings events).Punctual := by
  rw [stateAfter, state_run]
  exact (State.punctual_start _).play _

theorem attended_run (settings : Settings) (events : List Event) :
    (stateAfter settings events).Attended fun _ _ => True := by
  have first : (ofSettings settings).state.Attended fun _ _ => True := State.attended_start _ _
  have wired : (ofSettings settings).state.Wired := (History.sound_start _).wired
  rw [stateAfter, state_run]
  exact first.play_posts wired (State.punctual_start _) (posts_movesOf (ofSettings settings) events)

theorem lined_run (settings : Settings) (events : List Event) :
    (stateAfter settings events).IsLined (Limiter.clamp settings.couriers) :=
  ⟨tended_run settings events, balanced_run settings events, punctual_run settings events,
    attended_run settings events⟩

theorem exists_crewed (settings : Settings) (events : List Event) :
    ∃ history, history.state = stateAfter settings events ∧ Crewed history := by
  have first : Crewed (.start (.new settings.couriers)) := by
    refine ⟨History.sound_start _, by simp [State.Staffed, History.start, State.start], ?_⟩
    simp [History.start, State.start]
  have balanced : (History.start (.new settings.couriers)).state.IsBalanced
      (Limiter.clamp settings.couriers) := State.balanced_start rfl rfl
  exact ⟨_, state_record (ofSettings settings) _ events rfl,
    (crewed_record first balanced rfl events).1⟩

theorem wired_run (settings : Settings) (events : List Event) :
    (stateAfter settings events).Wired := by
  obtain ⟨history, same, crewed⟩ := exists_crewed settings events
  exact same ▸ crewed.sound.wired

theorem staffed_run (settings : Settings) (events : List Event) :
    (stateAfter settings events).Staffed := by
  obtain ⟨history, same, crewed⟩ := exists_crewed settings events
  exact same ▸ crewed.staffed

theorem isSeated_apply {desk : Desk} (usual : desk.handler.pipeline = orderPipeline)
    (seated : desk.state.IsSeated) (event : Event) : (desk.apply event).state.IsSeated := by
  obtain ⟨after, same, effect⟩ := exists_effect usual event
  rw [same]
  cases effect with
  | refused unnamed => exact seated
  | moved kind => exact seated.same (Event.sameWiring kind desk.state)
  | @opened order named state context tasks calls =>
      have opened := State.opened_openCall state context (orderPipeline.scripts order)
      have more : 3 * (desk.state.calls.length + 1) = 3 * desk.state.calls.length + 3 := rfl
      have duties : state.duties = desk.state.duties := by rw [State.duties, tasks, State.duties]
      rw [State.IsSeated, State.duties, opened.tasks, opened.calls, List.map_append, calls,
        List.length_append, List.length_singleton, more, List.range_add, List.map_append]
      congr 1
      · exact duties.trans seated
      · have seats (position : Nat) (small : position < 3) :
            (3 * desk.state.calls.length + position) / 3 = desk.state.calls.length ∧
              (3 * desk.state.calls.length + position) % 3 = position := by omega
        have first := seats 0 (by omega)
        have second := seats 1 (by omega)
        have third := seats 2 (by omega)
        simp only [State.stepTasks, Pipeline.scripts, orderPipeline, List.map_cons, List.map_nil,
          List.mapIdx_cons, List.mapIdx_nil, Task.new, List.range_succ, List.range_zero,
          List.nil_append, List.cons_append, first, second, third]

theorem isSeated_run (settings : Settings) (events : List Event) :
    (stateAfter settings events).IsSeated := by
  induction events using List.reverseRecOn with
  | nil => rfl
  | append_singleton events event ih =>
      rw [stateAfter, run_append]
      exact isSeated_apply (usual_run settings events) ih event

theorem length_calls (settings : Settings) (events : List Event) :
    (stateAfter settings events).calls.length = (taken events).length :=
  (manned_of_run settings events).size

theorem length_tasks (settings : Settings) (events : List Event) :
    (stateAfter settings events).tasks.length = 3 * (taken events).length := by
  have size := congrArg List.length (isSeated_run settings events)
  simpa [State.duties, length_calls] using size

theorem exists_leg (present : (stateAfter settings events).tasks[id]? = some task) :
    ∃ order leg, (taken events)[id / 3]? = some order ∧ order.legs[id % 3]? = some leg ∧
      (stateAfter settings events).WorksFor (taken events) id task ⟨id / 3, id % 3⟩ leg ∧
      IsPart (stateAfter settings events) (id / 3) id task := by
  obtain ⟨duty, leg, works⟩ := (manned_of_run settings events).working id task present
  have seat : (stateAfter settings events).duties[id]? = some (some duty) := by
    rw [State.duties, List.getElem?_map, present, Option.map_some, works.works]
  rw [isSeated_run settings events, List.getElem?_map] at seat
  obtain ⟨same, listed, seat⟩ := Option.map_eq_some_iff.mp seat
  obtain ⟨_, rfl⟩ := List.getElem?_eq_some_iff.mp listed
  rw [List.getElem_range] at seat
  obtain rfl := Option.some.inj seat
  obtain ⟨order, taken, legs⟩ := works.order
  exact ⟨order, leg, taken, legs, works, present, _, works.works⟩

theorem call_of_isPart {call : CallId} (part : IsPart (stateAfter settings events) call id task) :
    id / 3 = call := by
  obtain ⟨_, _, _, _, _, own⟩ := exists_leg part.present
  obtain ⟨position, works⟩ := part.works
  obtain ⟨position', works'⟩ := own.works
  rw [works] at works'
  exact (congrArg Duty.call (Option.some.inj works')).symm

theorem isPart_of_found {call : CallId} (present : (stateAfter settings events).tasks[id]? = some task)
    (same : id / 3 = call) : IsPart (stateAfter settings events) call id task := by
  obtain ⟨_, _, _, _, _, own⟩ := exists_leg present
  exact same ▸ own

/-- Whoever is not over waits, for a courier or for a time to come. -/
theorem stage_cases (quiet : (stateAfter settings events).ready = []) {duty : Duty} {leg : Leg}
    (present : (stateAfter settings events).tasks[id]? = some task)
    (works : (stateAfter settings events).WorksFor orders id task duty leg) :
    task.stage = .queued ∧ duty.isCourier = true ∨
      (∃ due, task.stage = .busy due ∧ (stateAfter settings events).clock < due ∧
        due ≤ (stateAfter settings events).clock + leg.millis) ∨
      ∃ finish, task.stage = .finished finish ∧ (finish = .stopped ∨ finish = leg.finish) := by
  obtain ⟨history, same, crewed⟩ := exists_crewed settings events
  cases works.suits with
  | fresh live idle script =>
      obtain ⟨_, _, _, _, _, _, _, working⟩ := crewed.exists_working (same ▸ present)
      obtain ⟨_, _, inLine, _⟩ := working.fresh (by simp [Task.isFresh, live, idle])
      rw [same, quiet] at inLine
      cases inLine
  | queued live waits wake script needs =>
      exact .inl ⟨by simp [Task.stage, live, waits, wake], needs⟩
  | busy due live waits wake script soon =>
      have stage := State.stage_of_busy live waits wake
      refine .inr (.inl ⟨due, stage, ?_, soon⟩)
      by_contra past
      have inLine := (works.alarms due stage).2 (Nat.le_of_not_lt past)
      rw [quiet] at inLine
      cases inLine
  | doomed life =>
      have inLine := (tended_run settings events).heeded id task present life (by simp)
      rw [quiet] at inLine
      cases inLine
  | finished finish stage own => exact .inr (.inr ⟨finish, stage, own⟩)

theorem finish_of_over (quiet : (stateAfter settings events).ready = []) {duty : Duty} {leg : Leg}
    {finish : Finish} (present : (stateAfter settings events).tasks[id]? = some task)
    (works : (stateAfter settings events).WorksFor orders id task duty leg)
    (finished : task.stage = .finished finish) : finish = .stopped ∨ finish = leg.finish := by
  rcases stage_cases quiet present works with ⟨queued, _⟩ | ⟨due, busy, _⟩ | ⟨finish', finished', own⟩
  · simp [finished] at queued
  · simp [finished] at busy
  · obtain rfl := Stage.finished.inj (finished.symm.trans finished')
    exact own

theorem exists_call (present : (stateAfter settings events).tasks[id]? = some task) :
    ∃ call, (stateAfter settings events).calls[id / 3]? = some call := by
  have bound := (List.getElem?_eq_some_iff.mp present).1
  rw [length_tasks, ← length_calls settings] at bound
  exact ⟨_, List.getElem?_eq_getElem (Nat.div_lt_of_lt_mul bound)⟩

/-! ## Couriers -/

/-- Whoever is in line finds all slots taken, by older tasks. -/
theorem older_of_queued (quiet : (stateAfter settings events).ready = [])
    (ranked : (stateAfter settings events).IsRanked) {duty : Duty} {leg : Leg}
    (present : (stateAfter settings events).tasks[id]? = some task)
    (works : (stateAfter settings events).WorksFor orders id task duty leg)
    (queued : task.stage = .queued) :
    sumOf Task.slots (stateAfter settings events).tasks = Limiter.clamp settings.couriers ∧
      ∀ other, 0 < (stateAfter settings events).slotsOf other → other < id := by
  have balanced := balanced_run settings events
  have rests := State.atRest_of_quiet (tended_run settings events) balanced
    (attended_run settings events) quiet
  have waits := (rests.inLine id task present).mp (State.isQueued_of_stage works.suits queued)
  obtain ⟨ahead, behind, _, older⟩ := ranked id waits
  refine ⟨(rests.full (List.ne_nil_of_mem waits)).2.trans (Balanced.capacity balanced), ?_⟩
  intro other held
  exact older other (.inr (.inr held))

theorem slots_of_busy {duty : Duty} {leg : Leg} {due : Nat}
    (present : (stateAfter settings events).tasks[id]? = some task)
    (works : (stateAfter settings events).WorksFor orders id task duty leg)
    (courier : duty.isCourier = true) (busy : task.stage = .busy due) : task.slots = 1 := by
  obtain ⟨history, same, crewed⟩ := exists_crewed settings events
  rw [crewed.slots_eq task (same ▸ List.mem_of_getElem? present)]
  cases works.suits with
  | fresh live idle _ => simp [Task.stage, live, idle] at busy
  | queued live waits wake _ _ => simp [Task.stage, live, waits, wake] at busy
  | busy due live waits wake script _ =>
      have none_left : acquires leg.core = 0 := by
        cases problem : leg.outcome <;> simp [Leg.core, problem, acquires, Action.isAcquire]
      simp [Task.isBusyCourier, Task.isOver, live, waits, works.works, courier, script, none_left]
  | doomed life => simp [Task.stage, life] at busy
  | finished finish finished _ => simp [finished] at busy

/-- Nobody but a busy courier has a slot, and it has only one. -/
theorem busy_of_slots (quiet : (stateAfter settings events).ready = []) {duty : Duty} {leg : Leg}
    (present : (stateAfter settings events).tasks[id]? = some task)
    (works : (stateAfter settings events).WorksFor orders id task duty leg)
    (holds : 0 < task.slots) :
    task.slots = 1 ∧ duty.isCourier = true ∧ ∃ due, task.stage = .busy due := by
  obtain ⟨history, same, crewed⟩ := exists_crewed settings events
  have slots := crewed.slots_eq task (same ▸ List.mem_of_getElem? present)
  split at slots
  · rename_i busy
    simp only [Task.isBusyCourier, works.works, Option.any_some, Bool.and_eq_true,
      Bool.not_eq_eq_eq_not, Bool.not_true, beq_iff_eq] at busy
    obtain ⟨⟨⟨going, waits⟩, courier⟩, none_left⟩ := busy
    refine ⟨slots, courier, ?_⟩
    rcases stage_cases quiet present works with ⟨queued, _⟩ | ⟨due, busy, _⟩ | ⟨finish, finished, _⟩
    · have inLine := State.isQueued_of_stage works.suits queued
      obtain ⟨_, _, rest, script⟩ := State.shape_of_isQueued inLine
      rw [script, acquires_acquire] at none_left
      cases none_left
    · exact ⟨due, busy⟩
    · rw [Task.isOver_iff.mpr ⟨finish, finished⟩] at going
      cases going
  · omega

theorem sumOf_slots_rested {seats : Nat} (rested : ∀ (id : TaskId) (task : Task), id < seats →
      (stateAfter settings events).tasks[id]? = some task → task.isOver = true) :
    sumOf Task.slots ((stateAfter settings events).tasks.take seats) = 0 := by
  refine sumOf_eq_zero _ fun task member => ?_
  obtain ⟨id, found⟩ := List.getElem?_of_mem member
  rw [List.getElem?_take] at found
  split at found
  · rename_i old
    obtain ⟨_, _, shaped⟩ := staffed_run settings events task (List.mem_of_getElem? found)
    exact (shaped.stopped (rested id task old found)).2
  · cases found

end Desk

end OrderDesk
