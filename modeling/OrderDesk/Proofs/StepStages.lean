import OrderDesk.Proofs.Instants

/-! What a turn makes of the body of a step. A body that finds its scope ended gives way to that.
Any other sets to work when it is entered, except that a courier has to get a slot first and perhaps
to wait for it. It is at work until a time that it is going to be woken for, and ends when its turn
comes at that time. -/

namespace OrderDesk

open Schedule

namespace Leg

structure Idles (leg : Leg) (task : Task) : Prop where
  live : task.life = .live
  idle : task.waits = false
  script : task.script = leg.body leg.isCourier
  nothing : task.slots = 0

structure Queues (leg : Leg) (task : Task) : Prop where
  live : task.life = .live
  waits : task.waits = true
  wake : task.wake = none
  script : task.script = .acquire :: leg.core
  needs : leg.isCourier = true
  nothing : task.slots = 0

structure Works (leg : Leg) (state : State) (id : TaskId) (task : Task) (due : Nat) : Prop where
  live : task.life = .live
  waits : task.waits = true
  script : task.script = leg.core
  slots : task.slots = leg.isCourier.toNat
  wakes : state.Wakes id task due

variable {leg : Leg} {task : Task}

theorem isQueued_of_core (script : task.script = leg.core) : task.isQueued = false := by
  unfold Task.isQueued
  rw [script]
  split <;> simp_all [core]

theorem Idles.unqueued (idles : leg.Idles task) : task.isQueued = false := by
  by_contra queued
  have waits := (State.shape_of_isQueued (Bool.not_eq_false _ ▸ queued)).2.1
  simp [idles.idle] at waits

end Leg

namespace Schedule

variable {leg : Leg} {before after state : State} {id : TaskId} {scope : ScopeId} {task : Task}
  {duty : Duty}

def Task.Yielded (task : Task) (before : State) (scope : ScopeId) : Prop :=
  ∃ cause millis, before.cause? scope = some cause ∧
    task.life = .ended before.clock (.returned millis (some (.cancelled cause))) ∧ task.slots = 0

namespace State

/-! ## Turns of a body -/

theorem limiter_finish (works : task.duty = some duty) (nothing : task.slots = 0)
    (ending : Ending) : (state.finish id task ending).limiter = state.limiter := by
  simp [finish, works, report, giveBack, nothing, giveSlots, setTask]

theorem exists_yielded (bound : id < after.tasks.length) (works : task.duty = some duty)
    (clock : after.clock = before.clock) {cause : Cause} (ended : before.cause? scope = some cause)
    (millis : Nat) :
    ∃ next,
      (after.finish id task (.returned millis (some (.cancelled cause)))).tasks[id]? = some next ∧
      next.Yielded before scope := by
  have found := getElem?_finish bound works (.returned millis (some (.cancelled cause)))
  exact ⟨_, found, cause, millis, ended, congrArg (Life.ended · _) clock, rfl⟩

theorem exists_core (positive : 0 < leg.millis) (bound : id < state.tasks.length)
    (works : task.duty = some duty) (live : task.life = .live)
    (slots : task.slots = leg.isCourier.toNat) :
    ∃ next, (state.perform id task leg.core).tasks[id]? = some next ∧
      (next.Yielded state task.scope ∨
        leg.Works (state.perform id task leg.core) id next (state.clock + leg.millis)) := by
  cases ended : state.cause? task.scope with
  | some cause =>
      rw [perform_core_stopped positive ended]
      obtain ⟨next, found, yielded⟩ := exists_yielded bound works rfl ended
        (state.clock - task.started)
      exact ⟨next, found, .inl yielded⟩
  | none =>
      rw [perform_core_waits positive ended]
      have found := List.getElem?_set_self (a := { task with
        waits := true, wake := some (state.clock + leg.millis), script := leg.core }) bound
      refine ⟨_, found, .inr ⟨live, rfl, rfl, slots, ?_⟩⟩
      refine wakes_of_armed live rfl rfl ?_ ?_
      · exact Nat.lt_add_of_pos_right positive
      · exact List.mem_append_right _ List.mem_cons_self

theorem perform_body_stopped (positive : 0 < leg.millis) (courier : Bool) {cause : Cause}
    (ended : state.cause? task.scope = some cause) :
    state.perform id task (leg.body courier) =
      State.finish { state with running := state.running + 1 } id
        { task with guards := task.guards + 1 }
        (.returned (state.clock - task.started) (some (.cancelled cause))) := by
  let entered : State := { state with running := state.running + 1 }
  let inside : Task := { task with guards := task.guards + 1 }
  have ended' : entered.cause? inside.scope = some cause := ended
  cases courier with
  | false => exact perform_core_stopped positive ended'
  | true =>
      simp only [entered, inside] at ended'
      simp only [Leg.body, perform, attempt, doneAtOnce?_eq, Option.or_self, if_true, stopWith, ended']
      rfl

theorem exists_refusal (positive : 0 < leg.millis) (found : state.tasks[id]? = some task)
    (works : task.duty = some duty) (idles : leg.Idles task) (inLine : .task id ∈ state.ready)
    {cause : Cause} (ended : state.cause? task.scope = some cause) :
    let after := state.apply (.turn (.task id))
    ∃ next millis, after.tasks[id]? = some next ∧ next.duty = some duty ∧
      next.life = .ended state.clock (.returned millis (some (.cancelled cause))) ∧
      next.slots = 0 ∧ after.limiter = state.limiter := by
  intro after
  let popped : State := { state with ready := state.ready.erase (.task id) }
  let entered : State := { popped with running := state.running + 1 }
  let inside : Task := { task with guards := task.guards + 1 }
  have present : popped.tasks[id]? = some task := found
  have bound : id < entered.tasks.length := (List.getElem?_eq_some_iff.mp found).1
  have stopped : popped.cause? task.scope = some cause := ended
  have turned : after = entered.finish id inside
      (.returned (state.clock - task.started) (some (.cancelled cause))) := by
    simp only [after, State.apply, if_pos inLine, run]
    rw [runTask_of_fresh present idles.live idles.idle, idles.script]
    exact perform_body_stopped positive leg.isCourier stopped
  have works' : inside.duty = some duty := works
  have nothing : inside.slots = 0 := idles.nothing
  rw [turned]
  refine ⟨_, _, getElem?_finish bound works' _, works', rfl, rfl, ?_⟩
  exact limiter_finish works' nothing _

theorem exists_acquire (positive : 0 < leg.millis) (bound : id < state.tasks.length)
    (works : task.duty = some duty) (live : task.life = .live) (needs : leg.isCourier = true)
    (nothing : task.slots = 0) :
    let after := state.perform id task (.acquire :: leg.core)
    ∃ next, after.tasks[id]? = some next ∧
      (next.Yielded state task.scope ∨ leg.Works after id next (state.clock + leg.millis) ∨
        leg.Queues next ∧ after.limiter.granted = state.limiter.granted) := by
  simp only [perform, attempt, doneAtOnce?_eq, Option.or_self, stopWith]
  cases ended : state.cause? task.scope with
  | some cause =>
      obtain ⟨next, found, yielded⟩ := exists_yielded bound works rfl ended
        (state.clock - task.started)
      exact ⟨next, found, .inl yielded⟩
  | none =>
      cases taken : state.limiter.take? with
      | some limiter =>
          let taking : State := { state with limiter := limiter }
          let holding : Task := { task with slots := task.slots + 1 }
          have bound' : id < taking.tasks.length := bound
          have works' : holding.duty = some duty := works
          have slots : holding.slots = leg.isCourier.toNat := by simp [holding, needs, nothing]
          obtain ⟨next, found, becomes⟩ := exists_core positive bound' works' live slots
          exact ⟨next, found, becomes.imp_right .inl⟩
      | none =>
          have found := List.getElem?_set_self (a := { task with
            waits := true, wake := none, script := .acquire :: leg.core }) bound
          exact ⟨_, found, .inr (.inr ⟨⟨live, rfl, rfl, rfl, needs, nothing⟩, rfl⟩)⟩

theorem exists_entrance (positive : 0 < leg.millis) (found : state.tasks[id]? = some task)
    (works : task.duty = some duty) (idles : leg.Idles task) (inLine : .task id ∈ state.ready) :
    let after := state.apply (.turn (.task id))
    ∃ next, after.tasks[id]? = some next ∧
      (next.Yielded state task.scope ∨ leg.Works after id next (state.clock + leg.millis) ∨
        leg.Queues next ∧ after.limiter.granted = state.limiter.granted) := by
  obtain ⟨live, idle, script, nothing⟩ := idles
  let popped : State := { state with ready := state.ready.erase (.task id) }
  let entered : State := { popped with running := state.running + 1 }
  let inside : Task := { task with guards := task.guards + 1 }
  have present : popped.tasks[id]? = some task := found
  have bound : id < entered.tasks.length := (List.getElem?_eq_some_iff.mp found).1
  have works' : inside.duty = some duty := works
  simp only [State.apply, if_pos inLine, run]
  rw [runTask_of_fresh present live idle, script]
  cases needs : leg.isCourier with
  | false =>
      have slots : inside.slots = leg.isCourier.toNat := by
        rw [needs]
        exact nothing
      obtain ⟨next, there, becomes⟩ := exists_core positive bound works' live slots
      exact ⟨next, there, becomes.imp_right .inl⟩
  | true => exact exists_acquire positive bound works' live needs nothing

theorem exists_look (positive : 0 < leg.millis) (found : state.tasks[id]? = some task)
    (works : task.duty = some duty) (queues : leg.Queues task) (inLine : .task id ∈ state.ready)
    (told : task.isAttentive = true → state.done? id task.scope = state.cause? task.scope) :
    let after := state.apply (.turn (.task id))
    ∃ next, after.tasks[id]? = some next ∧
      (next.Yielded state task.scope ∨
        id ∈ state.limiter.granted ∧ leg.Works after id next (state.clock + leg.millis) ∨
        next = task ∧ id ∉ state.limiter.granted ∧ after.limiter = state.limiter) := by
  obtain ⟨live, waits, wake, script, needs, nothing⟩ := queues
  let popped : State := { state with ready := state.ready.erase (.task id) }
  have present : popped.tasks[id]? = some task := found
  have told' : popped.done? id task.scope = popped.cause? task.scope :=
    told (by simp [Task.isAttentive, live, waits, script, Action.asks])
  have bound := (List.getElem?_eq_some_iff.mp present).1
  simp only [State.apply, if_pos inLine, run]
  rw [runTask_of_waiting present live waits script]
  simp only [resume, stopWith, told']
  cases ended : popped.cause? task.scope with
  | some cause =>
      simp only
      have left := stirs_withLimiter (popped.unlisten id) ((popped.unlisten id).limiter.leave id)
      have bound' : id < ((popped.unlisten id).withLimiter
          ((popped.unlisten id).limiter.leave id)).tasks.length := left.tasks ▸ bound
      obtain ⟨next, there, yielded⟩ := exists_yielded bound' works left.clock ended _
      exact ⟨next, there, .inl yielded⟩
  | none =>
      simp only
      by_cases granted : id ∈ popped.limiter.granted
      · simp only [List.contains_iff_mem, granted, if_true]
        let claimed : State := { popped.unlisten id with limiter := popped.limiter.claim id }
        let holding : Task := { task with waits := false, wake := none, slots := task.slots + 1 }
        have bound' : id < claimed.tasks.length := bound
        have works' : holding.duty = some duty := works
        have slots : holding.slots = leg.isCourier.toNat := by simp [holding, needs, nothing]
        obtain ⟨next, there, becomes⟩ := exists_core positive bound' works' live slots
        exact ⟨next, there, becomes.imp_right fun busy => .inl ⟨granted, busy⟩⟩
      · simp only [List.contains_iff_mem, granted, if_false]
        exact ⟨task, found, .inr (.inr ⟨rfl, granted, rfl⟩)⟩

theorem exists_outcome {due : Nat} (found : state.tasks[id]? = some task)
    (works : task.duty = some duty) (busy : leg.Works state id task due)
    (inLine : .task id ∈ state.ready)
    (told : task.isAttentive = true → state.done? id task.scope = state.cause? task.scope) :
    let after := state.apply (.turn (.task id))
    ∃ next, after.tasks[id]? = some next ∧
      (next.Yielded state task.scope ∨
        (state.cause? task.scope = none ∧ due = state.clock ∧ next.slots = 0 ∧
          ∃ millis, next.life = .ended state.clock (.returned millis leg.outcome)) ∨
        leg.Works after id next due) := by
  obtain ⟨live, waits, script, slots, wakes⟩ := busy
  let popped : State := { state with ready := state.ready.erase (.task id) }
  have present : popped.tasks[id]? = some task := found
  have told' : popped.done? id task.scope = popped.cause? task.scope :=
    told (by simp [Task.isAttentive, live, waits, script, Leg.core, Action.asks])
  have bound : id < (popped.unlisten id).tasks.length := (List.getElem?_eq_some_iff.mp present).1
  simp only [State.apply, if_pos inLine, run]
  rw [runTask_of_waiting present live waits script]
  simp only [resume, stopWith, told', wakes.wake, Option.any_some, decide_eq_true_eq]
  cases ended : popped.cause? task.scope with
  | some cause =>
      simp only
      obtain ⟨next, there, yielded⟩ := exists_yielded bound works rfl ended
        (state.clock - task.started)
      exact ⟨next, there, .inl yielded⟩
  | none =>
      simp only
      by_cases late : due ≤ popped.clock
      · simp only [late, if_true, Course.perform_rest]
        let awake : Task := { task with waits := false, wake := none }
        have works' : awake.duty = some duty := works
        have there := getElem?_finish bound works'
          ((popped.unlisten id).returned awake leg.outcome)
        have same := Nat.le_antisymm late wakes.soon
        exact ⟨_, there, .inr (.inl ⟨ended, same, rfl, _, rfl⟩)⟩
      · simp only [late, if_false]
        have early := Nat.lt_of_not_le late
        have armed := (wakes.alarms due (stage_of_busy live waits wakes.wake)).1 early
        refine ⟨task, found, .inr (.inr ⟨live, waits, script, slots, ?_⟩)⟩
        exact wakes_of_armed live waits wakes.wake early armed

end State

end Schedule

end OrderDesk
