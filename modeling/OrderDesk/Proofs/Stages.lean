import OrderDesk.Proofs.OrderTimes

/-! How far the tasks of orders have come. A task has not begun, or it waits for a courier, or it is
busy until some time, or it has been told to stop, or it is over. In its turn it goes on along these
stages, and as long as the clock stands still it goes on as in one turn. -/

namespace OrderDesk

open Schedule

namespace Schedule

inductive Finish where
  | served
  | failed
  | stopped
  deriving DecidableEq

inductive Stage where
  | fresh
  | queued
  | busy (due : Nat)
  | doomed
  | finished (finish : Finish)
  deriving DecidableEq

def Ending.finish : Ending → Finish
  | .returned _ none => .served
  | .returned _ (some failure) => if failure.isCancellation then .stopped else .failed
  | .crashed _ => .failed

theorem Ending.finish_eq_served {ending : Ending} :
    ending.finish = .served ↔ ending.outcome = none := by
  cases ending with
  | returned millis outcome =>
      cases outcome with
      | none => simp [Ending.finish, Ending.outcome]
      | some failure =>
          simp only [Ending.finish, Ending.outcome, reduceCtorEq, iff_false]
          split <;> decide
  | crashed message => simp [Ending.finish, Ending.outcome]

def Task.stage (task : Task) : Stage :=
  match task.life with
  | .live => if task.waits then task.wake.elim .queued .busy else .fresh
  | .doomed => .doomed
  | .ended _ ending => .finished ending.finish
  | .dropped => .finished .stopped

def State.Alarms (state : State) (id : TaskId) (task : Task) : Prop :=
  ∀ due, task.stage = .busy due →
    (state.clock < due → ⟨due, id⟩ ∈ state.timers) ∧ (due ≤ state.clock → .task id ∈ state.ready)

end Schedule

namespace Leg

def core (leg : Leg) : Script :=
  .wait leg.millis :: (leg.outcome.map Action.fail).toList

def isCourier (leg : Leg) : Bool :=
  leg.name == "courier"

def body (leg : Leg) (courier : Bool) : Script :=
  .enter :: (if courier then .acquire :: leg.core else leg.core)

def finish (leg : Leg) : Finish :=
  if leg.problem.isSome then .failed else .served

inductive Suits (leg : Leg) (courier : Bool) (now : Nat) (task : Task) : Prop
  | fresh (live : task.life = .live) (idle : task.waits = false)
      (script : task.script = leg.body courier)
  | queued (live : task.life = .live) (waits : task.waits = true) (wake : task.wake = none)
      (script : task.script = .acquire :: leg.core) (needs : courier = true)
  | busy (due : Nat) (live : task.life = .live) (waits : task.waits = true)
      (wake : task.wake = some due) (script : task.script = leg.core) (soon : due ≤ now + leg.millis)
  | doomed (life : task.life = .doomed)
  | finished (finish : Finish) (stage : task.stage = .finished finish)
      (own : finish = .stopped ∨ finish = leg.finish)

/-- Where a task can get from a stage while the clock stands at `now`. It ends by itself only when it
is due and not too late. -/
def Leads (leg : Leg) (now : Nat) (late : Prop) : Stage → Stage → Prop
  | .fresh, next => next = .fresh ∨ next = .queued ∨ next = .busy (now + leg.millis) ∨
      next = .finished .stopped
  | .queued, next => next = .queued ∨ next = .busy (now + leg.millis) ∨ next = .finished .stopped
  | .busy due, next => next = .busy due ∨ (due ≤ now ∧ ¬ late) ∧ next = .finished leg.finish ∨
      next = .finished .stopped
  | .doomed, next => next = .doomed ∨ next = .finished .stopped
  | .finished finish, next => next = .finished finish

variable {leg : Leg} {courier : Bool} {now : Nat} {late : Prop} {task : Task}

theorem leads_refl (stage : Stage) : leg.Leads now late stage stage := by
  cases stage <;> simp [Leads]

/-- Nobody who begins to be busy ends in the same instant. -/
theorem Leads.trans {first second third : Stage} (positive : 0 < leg.millis)
    (earlier : leg.Leads now late first second) (later : leg.Leads now late second third) :
    leg.Leads now late first third := by
  have still {next : Stage} (busy : leg.Leads now late (.busy (now + leg.millis)) next) :
      next = .busy (now + leg.millis) ∨ next = .finished .stopped := by
    rcases busy with same | ⟨⟨due, _⟩, _⟩ | stopped
    · exact .inl same
    · omega
    · exact .inr stopped
  cases first with
  | fresh =>
      rcases earlier with rfl | rfl | rfl | rfl
      · exact later
      · exact .inr later
      · exact .inr (.inr (still later))
      · exact .inr (.inr (.inr later))
  | queued =>
      rcases earlier with rfl | rfl | rfl
      · exact later
      · exact .inr (still later)
      · exact .inr (.inr later)
  | busy due =>
      rcases earlier with rfl | ⟨ends, rfl⟩ | rfl
      · exact later
      · exact .inr (.inl ⟨ends, later⟩)
      · exact .inr (.inr later)
  | doomed =>
      rcases earlier with rfl | rfl
      · exact later
      · exact .inr later
  | finished finish =>
      obtain rfl := earlier
      exact later

theorem Leads.over_cases {first : Stage} {finish : Finish}
    (leads : leg.Leads now late first (.finished finish)) :
    first = .finished finish ∨ (∃ due, first = .busy due ∧ due ≤ now ∧ ¬ late) ∨ finish = .stopped := by
  cases first with
  | fresh =>
      rcases leads with other | other | other | stopped
      · cases other
      · cases other
      · cases other
      · exact .inr (.inr (Stage.finished.inj stopped))
  | queued =>
      rcases leads with other | other | stopped
      · cases other
      · cases other
      · exact .inr (.inr (Stage.finished.inj stopped))
  | busy due =>
      rcases leads with other | ⟨⟨passed, in_time⟩, _⟩ | stopped
      · cases other
      · exact .inr (.inl ⟨due, rfl, passed, in_time⟩)
      · exact .inr (.inr (Stage.finished.inj stopped))
  | doomed =>
      rcases leads with other | stopped
      · cases other
      · exact .inr (.inr (Stage.finished.inj stopped))
  | finished before => exact .inl leads.symm

theorem Leads.busy_cases {first : Stage} {due : Nat} (leads : leg.Leads now late first (.busy due)) :
    first = .busy due ∨ due = now + leg.millis ∧ (first = .fresh ∨ first = .queued) := by
  cases first with
  | fresh =>
      rcases leads with other | other | begins | other
      · cases other
      · cases other
      · exact .inr ⟨Stage.busy.inj begins, .inl rfl⟩
      · cases other
  | queued =>
      rcases leads with other | begins | other
      · cases other
      · exact .inr ⟨Stage.busy.inj begins, .inr rfl⟩
      · cases other
  | busy before =>
      rcases leads with still | ⟨_, other⟩ | other
      · exact .inl still.symm
      · cases other
      · cases other
  | doomed => rcases leads with other | other <;> cases other
  | finished finish => cases leads

theorem leads_stopped (live : task.life = .live) :
    leg.Leads now late task.stage (.finished .stopped) := by
  cases wake : task.wake <;> simp [Task.stage, live, wake] <;> split <;> simp [Leads]

theorem Suits.mono {later : Nat} (suits : leg.Suits courier now task) (order : now ≤ later) :
    leg.Suits courier later task := by
  cases suits with
  | fresh live idle script => exact .fresh live idle script
  | queued live waits wake script needs => exact .queued live waits wake script needs
  | busy due live waits wake script soon =>
      exact .busy due live waits wake script (Nat.le_trans soon (Nat.add_le_add_right order _))
  | doomed life => exact .doomed life
  | finished finish stage own => exact .finished finish stage own

end Leg

namespace Order

/-- The bodies of the steps of an order are those of its legs. -/
theorem scripts_eq (order : Order) :
    orderPipeline.scripts order =
      order.legs.map fun leg => (leg.name, leg.body leg.isCourier) := by
  simp only [Pipeline.scripts, orderPipeline, paymentStep, vendorStep, courierStep, failIf_eq]
  rfl

theorem exists_leg (order : Order) (duty : Duty) {step : String × Script}
    (named : (orderPipeline.scripts order)[duty.position]? = some step) :
    ∃ leg, order.legs[duty.position]? = some leg ∧ step = (leg.name, leg.body duty.isCourier) := by
  rw [scripts_eq, List.getElem?_map] at named
  obtain ⟨leg, found, rfl⟩ := Option.map_eq_some_iff.mp named
  have needs : leg.isCourier = duty.isCourier := by
    obtain ⟨call, position⟩ := duty
    rcases position with _ | _ | _ | position
    · obtain rfl := Option.some.inj found
      rfl
    · obtain rfl := Option.some.inj found
      rfl
    · obtain rfl := Option.some.inj found
      rfl
    · simp [legs] at found
  exact ⟨leg, found, by rw [needs]⟩

theorem body_of_timed {order : Order} {step : Step Order} {leg : Leg}
    (timed : (step, leg) ∈ orderPipeline.steps.zip order.legs) :
    step.body order = leg.body leg.isCourier := by
  obtain ⟨position, paired⟩ := List.getElem?_of_mem timed
  obtain ⟨own, listed⟩ := List.getElem?_zip_eq_some.mp paired
  have same := congrArg (fun scripts => scripts[position]?) order.scripts_eq
  simp only [Pipeline.scripts, List.getElem?_map, own, listed, Option.map_some,
    Option.some.injEq, Prod.mk.injEq] at same
  exact same.2

end Order

namespace Schedule

namespace State

variable {leg : Leg} {courier : Bool} {late : Prop} {task next : Task} {state : State}
  {id : TaskId} {duty : Duty}

/-! ## A turn -/

structure Goes (leg : Leg) (courier : Bool) (now : Nat) (late : Prop) (task : Task)
    (id : TaskId) (after : State) (next : Task) : Prop where
  found : after.tasks[id]? = some next
  works : next.duty = task.duty
  scope : next.scope = task.scope
  suits : leg.Suits courier now next
  leads : leg.Leads now late task.stage next.stage
  alarms : after.Alarms id next
  timed : ∀ time ending, next.life = .ended time ending → task.life = .ended time ending ∨ time = now

theorem getElem?_finish (bound : id < state.tasks.length) (works : task.duty = some duty)
    (ending : Ending) :
    (state.finish id task ending).tasks[id]? = some
      { task with
        script := [], waits := false, wake := none, guards := 0, slots := 0
        life := .ended state.clock ending } := by
  simp [finish, works, report, setTask, bound]

theorem stage_of_ended {time : Nat} {ending : Ending} (life : task.life = .ended time ending) :
    task.stage = .finished ending.finish := by
  simp [Task.stage, life]

theorem stage_of_busy {due : Nat} (live : task.life = .live) (waits : task.waits = true)
    (wake : task.wake = some due) : task.stage = .busy due := by
  simp [Task.stage, live, waits, wake]

theorem goes_finish {now : Nat} {old : Task} (bound : id < state.tasks.length)
    (clock : state.clock = now) (works : task.duty = some duty) (same : task.duty = old.duty)
    (place : task.scope = old.scope) {ending : Ending}
    (own : ending.finish = .stopped ∨ ending.finish = leg.finish)
    (leads : leg.Leads now late old.stage (.finished ending.finish)) :
    ∃ next, Goes leg courier now late old id (state.finish id task ending) next := by
  have found := getElem?_finish bound works ending
  refine ⟨_, found, same, place, .finished ending.finish rfl own, leads, ?_, ?_⟩
  · intro due busy
    cases busy
  · intro time ending' life
    cases life
    exact .inr clock

theorem finish_cancelled (task : Task) (cause : Cause) :
    (state.returned task (some (.cancelled cause))).finish = .stopped := rfl

theorem finish_returned (task : Task) (leg : Leg) :
    (state.returned task leg.outcome).finish = leg.finish := by
  cases problem : leg.problem with
  | none => simp [returned, Leg.outcome, Leg.finish, problem, Ending.finish]
  | some problem' => simp [returned, Leg.outcome, Leg.finish, problem, Ending.finish]; rfl

theorem perform_core_stopped (positive : 0 < leg.millis) {cause : Cause}
    (ended : state.cause? task.scope = some cause) :
    state.perform id task leg.core =
      state.finish id task (state.returned task (some (.cancelled cause))) :=
  Course.perform_stopped task (show 0 < leg.timed.millis from positive) ended

theorem perform_core_waits (positive : 0 < leg.millis) (opened : state.cause? task.scope = none) :
    state.perform id task leg.core =
      ((state.listen id task.scope).setTimer id (state.clock + leg.millis)).setTask id { task with
        waits := true, wake := some (state.clock + leg.millis), script := leg.core } := by
  have some_wait : leg.millis ≠ 0 := Nat.ne_of_gt positive
  simp only [Leg.core, perform, attempt, doneAtOnce?_eq, some_wait, if_false, opened]

theorem goes_core {now : Nat} {old : Task} (positive : 0 < leg.millis)
    (bound : id < state.tasks.length) (clock : state.clock = now) (works : task.duty = some duty)
    (same : task.duty = old.duty) (place : task.scope = old.scope) (live : task.life = .live)
    (leads : leg.Leads now late old.stage (.busy (now + leg.millis)))
    (stops : leg.Leads now late old.stage (.finished .stopped)) :
    ∃ next, Goes leg courier now late old id (state.perform id task leg.core) next := by
  cases cause : state.cause? task.scope with
  | some cause' =>
      rw [perform_core_stopped positive cause]
      exact goes_finish bound clock works same place (.inl (finish_cancelled task cause'))
        stops
  | none =>
      rw [perform_core_waits positive cause]
      let busy : Task := { task with
        waits := true, wake := some (state.clock + leg.millis), script := leg.core }
      have stage : busy.stage = .busy (now + leg.millis) :=
        by
        rw [← clock]
        exact stage_of_busy live rfl rfl
      have soon : state.clock + leg.millis ≤ now + leg.millis := Nat.le_of_eq (by rw [clock])
      refine ⟨busy, ?_, same, place, .busy _ live rfl rfl rfl soon, stage ▸ leads, ?_, ?_⟩
      · simp only [setTask, setTimer, tasks_listen, busy, Leg.core]
        exact List.getElem?_set_self bound
      · intro due known
        obtain rfl := Stage.busy.inj (stage.symm.trans known)
        refine ⟨fun _ => ?_, fun late => ?_⟩
        · simp [setTask, setTimer, clock]
        · have still : state.clock + leg.millis ≤ state.clock := by
            rw [clock]
            exact (show (setTask _ id busy).clock = now from clock) ▸ late
          omega
      · intro time ending life
        exact absurd (live.symm.trans life) (by simp)

theorem stage_perform_core (positive : 0 < leg.millis) (bound : id < state.tasks.length)
    (works : task.duty = some duty) (live : task.life = .live)
    (found : (state.perform id task leg.core).tasks[id]? = some next) :
    leg.Suits true state.clock next ∧ next.stage ≠ .queued ∧ next.stage ≠ .doomed := by
  let old : Task := { task with waits := true, wake := some (state.clock + leg.millis) }
  have stage : old.stage = .busy (state.clock + leg.millis) := stage_of_busy live rfl rfl
  have same : task.duty = old.duty := rfl
  have place : task.scope = old.scope := rfl
  obtain ⟨again, goes⟩ :
      ∃ next, Goes leg true state.clock False old id (state.perform id task leg.core) next := by
    refine goes_core positive bound rfl works same place live ?_ ?_
    · rw [stage]
      exact .inl rfl
    · rw [stage]
      exact .inr (.inr rfl)
  obtain rfl : next = again := Option.some.inj (found.symm.trans goes.found)
  have leads := goes.leads
  rw [stage] at leads
  refine ⟨goes.suits, ?_⟩
  rcases leads with busy | ⟨_, finished⟩ | finished
  · simp [busy]
  · simp [finished]
  · simp [finished]

theorem runTask_of_waiting {action : Action} {rest : Script} (found : state.tasks[id]? = some task)
    (live : task.life = .live) (waits : task.waits = true) (script : task.script = action :: rest) :
    state.runTask id =
      match state.resume id task action with
      | .proceed next advanced => next.perform id advanced rest
      | .stop next ending => next.finish id task ending
      | .wait _ _ => state := by
  cases tried : state.resume id task action <;>
    simp only [runTask, found, live, waits, script, tried]

theorem goes_of_busy {due : Nat} (found : state.tasks[id]? = some task) (works : task.duty = some duty)
    (live : task.life = .live) (waits : task.waits = true) (wake : task.wake = some due)
    (script : task.script = leg.core) (soon : due ≤ state.clock + leg.millis)
    (timed : state.clock < due → ⟨due, id⟩ ∈ state.timers)
    (lates : late → (state.done? id task.scope).isSome = true) :
    ∃ next, Goes leg courier state.clock late task id (state.runTask id) next := by
  have bound := (List.getElem?_eq_some_iff.mp found).1
  have bound' : id < (state.unlisten id).tasks.length := bound
  have stage := stage_of_busy live waits wake
  rw [runTask_of_waiting found live waits script]
  simp only [resume, stopWith]
  cases cause : state.done? id task.scope with
  | some cause' =>
      simp only
      refine goes_finish bound' rfl works rfl rfl (.inl (finish_cancelled task cause')) ?_
      rw [stage]
      exact .inr (.inr rfl)
  | none =>
      simp only [wake, Option.any_some, decide_eq_true_eq]
      by_cases ends : due ≤ state.clock
      · rw [if_pos ends]
        simp only [Course.perform_rest]
        let awake : Task := { task with waits := false, wake := none }
        have finish : ((state.unlisten id).returned awake leg.outcome).finish = leg.finish :=
          finish_returned awake leg
        refine goes_finish bound' rfl works rfl rfl (.inr finish) ?_
        rw [stage]
        refine .inr (.inl ⟨⟨ends, fun is_late => ?_⟩, congrArg Stage.finished finish⟩)
        simpa [cause] using lates is_late
      · rw [if_neg ends]
        refine ⟨task, found, rfl, rfl, .busy due live waits wake script soon, Leg.leads_refl _, ?_,
          fun time ending life => .inl life⟩
        intro other known
        obtain rfl := Stage.busy.inj (stage.symm.trans known)
        exact ⟨timed, fun is_due => absurd is_due ends⟩

theorem goes_of_queued (positive : 0 < leg.millis) (found : state.tasks[id]? = some task)
    (works : task.duty = some duty) (live : task.life = .live) (waits : task.waits = true)
    (wake : task.wake = none) (script : task.script = .acquire :: leg.core) (needs : courier = true) :
    ∃ next, Goes leg courier state.clock late task id (state.runTask id) next := by
  have bound := (List.getElem?_eq_some_iff.mp found).1
  have stage : task.stage = .queued := by simp [Task.stage, live, waits, wake]
  rw [runTask_of_waiting found live waits script]
  simp only [resume, stopWith]
  cases cause : state.done? id task.scope with
  | some cause' =>
      simp only
      have left := stirs_withLimiter (state.unlisten id) ((state.unlisten id).limiter.leave id)
      have bound' : id < ((state.unlisten id).withLimiter
          ((state.unlisten id).limiter.leave id)).tasks.length := by
        rw [left.tasks]
        exact bound
      refine goes_finish bound' left.clock works rfl rfl (.inl (finish_cancelled task cause')) ?_
      rw [stage]
      exact .inr (.inr rfl)
  | none =>
      simp only
      by_cases granted : state.limiter.granted.contains id = true
      · rw [if_pos granted]
        let claimed : State := { state.unlisten id with limiter := state.limiter.claim id }
        have bound' : id < claimed.tasks.length := bound
        refine goes_core positive bound' rfl works rfl rfl live ?_ ?_
        · rw [stage]
          exact .inr (.inl rfl)
        · rw [stage]
          exact .inr (.inr rfl)
      · rw [if_neg granted]
        refine ⟨task, found, rfl, rfl, .queued live waits wake script needs, Leg.leads_refl _, ?_,
          fun time ending life => .inl life⟩
        intro due busy
        simp [stage] at busy

theorem goes_of_fresh (positive : 0 < leg.millis) (found : state.tasks[id]? = some task)
    (works : task.duty = some duty) (live : task.life = .live) (idle : task.waits = false)
    (script : task.script = leg.body courier) :
    ∃ next, Goes leg courier state.clock late task id (state.runTask id) next := by
  have bound := (List.getElem?_eq_some_iff.mp found).1
  have stage : task.stage = .fresh := by simp [Task.stage, live, idle]
  have starts : leg.Leads state.clock late task.stage (.busy (state.clock + leg.millis)) := by
    rw [stage]
    exact .inr (.inr (.inl rfl))
  have stops : leg.Leads state.clock late task.stage (.finished .stopped) := by
    rw [stage]
    exact .inr (.inr (.inr rfl))
  let entered : State := { state with running := state.running + 1 }
  have bound' : id < entered.tasks.length := bound
  let inside : Task := { task with guards := task.guards + 1 }
  have works' : inside.duty = some duty := works
  have same : inside.duty = task.duty := rfl
  rw [runTask_of_fresh found live idle, script]
  cases courier with
  | false =>
      simp only [Leg.body, perform, attempt, Bool.false_eq_true, if_false]
      exact goes_core positive bound' rfl works rfl rfl live starts stops
  | true =>
      simp only [Leg.body, perform, attempt, doneAtOnce?_eq, Option.or_self, if_true, stopWith]
      have cause_eq : entered.cause? task.scope = state.cause? task.scope := rfl
      rw [cause_eq]
      cases cause : state.cause? task.scope with
      | some cause' =>
          simp only
          exact goes_finish bound' rfl works' same rfl (.inl (finish_cancelled inside cause'))
            stops
      | none =>
          simp only
          cases taken : state.limiter.take? with
          | some limiter =>
              simp only
              let taking : State := { entered with limiter := limiter }
              have bound'' : id < taking.tasks.length := bound
              exact goes_core positive bound'' rfl works rfl rfl live starts stops
          | none =>
              simp only
              let queued : Task := { task with
                guards := task.guards + 1, waits := true, wake := none, script := .acquire :: leg.core }
              have waiting : queued.stage = .queued := by simp [Task.stage, queued, live]
              refine ⟨queued, ?_, rfl, rfl, .queued live rfl rfl rfl rfl, ?_, ?_, ?_⟩
              · simp only [setTask, tasks_listen]
                exact List.getElem?_set_self bound
              · rw [stage, waiting]
                exact .inr (.inl rfl)
              · intro due busy
                simp [waiting] at busy
              · intro time ending life
                exact absurd (live.symm.trans life) (by simp)

theorem goes_of_doomed (found : state.tasks[id]? = some task) (life : task.life = .doomed) :
    ∃ next, Goes leg courier state.clock late task id (state.runTask id) next := by
  have bound := (List.getElem?_eq_some_iff.mp found).1
  obtain ⟨next, tasks, place, works, dropped, _⟩ := exists_tasks_drop state id task
  have stage : next.stage = .finished .stopped := by simp [Task.stage, dropped]
  have run : state.runTask id = state.drop id task := by simp only [runTask, found, life]
  refine ⟨next, ?_, works, place, .finished .stopped stage (.inl rfl), ?_, ?_, ?_⟩
  · rw [run, tasks]
    exact List.getElem?_set_self bound
  · rw [stage]
    simp [Task.stage, life, Leg.Leads]
  · intro due busy
    simp [stage] at busy
  · intro time ending ended
    simp [dropped] at ended

theorem goes_runTask (positive : 0 < leg.millis) (found : state.tasks[id]? = some task)
    (works : task.duty = some duty) (suits : leg.Suits courier state.clock task)
    (timed : ∀ due, task.stage = .busy due → state.clock < due → ⟨due, id⟩ ∈ state.timers)
    (lates : late → (state.done? id task.scope).isSome = true) :
    ∃ next, Goes leg courier state.clock late task id (state.runTask id) next := by
  cases suits with
  | fresh live idle script => exact goes_of_fresh positive found works live idle script
  | queued live waits wake script needs =>
      exact goes_of_queued positive found works live waits wake script needs
  | busy due live waits wake script soon =>
      exact goes_of_busy found works live waits wake script soon
        (timed due (stage_of_busy live waits wake)) lates
  | doomed life => exact goes_of_doomed found life
  | finished finish stage own =>
      have stopped : task.isOver = true := by
        unfold Task.stage at stage
        unfold Task.isOver
        split at stage
        · split at stage
          · cases wake : task.wake <;> simp [wake] at stage
          · cases stage
        · cases stage
        · simp [*]
        · simp [*]
      rw [runTask_of_isOver found stopped]
      refine ⟨task, found, rfl, rfl, .finished finish stage own, Leg.leads_refl _, ?_,
        fun time ending life => .inl life⟩
      intro due busy
      simp [stage] at busy

end State

end Schedule

end OrderDesk
