import OrderDesk.Pipeline
import OrderDesk.Proofs.Slots
import OrderDesk.Proofs.Tracked

/-! The bodies of an order. Each of them enters first and never leaves before it ends, and only the
courier takes a slot, once. So what such a task holds can be read off how far it has come. -/

namespace OrderDesk

open Schedule

namespace Schedule

def Action.isAcquire : Action → Bool
  | .acquire => true
  | _ => false

def Action.isPlain : Action → Bool
  | .acquire | .wait _ | .fail _ => true
  | _ => false

def acquires (script : Script) : Nat :=
  script.countP Action.isAcquire

theorem acquires_acquire (rest : Script) : acquires (.acquire :: rest) = acquires rest + 1 :=
  List.countP_cons_of_pos rfl

def Task.isOver (task : Task) : Bool :=
  match task.life with
  | .live | .doomed => false
  | .ended _ _ | .dropped => true

def Duty.isCourier (duty : Duty) : Bool :=
  orderPipeline.names[duty.position]? == some "courier"

def Duty.needs (duty : Duty) : Nat :=
  if duty.isCourier then 1 else 0

/-- Where the task of an order stands: it has not begun, or it is past its entry, or over. -/
structure Task.Shaped (task : Task) (needs : Nat) : Prop where
  idle : task.isOver = false → task.waits = false → task.guards = 0 ∧ task.slots = 0 ∧
    ∃ rest, task.script = .enter :: rest ∧ (∀ action ∈ rest, action.isPlain = true) ∧
      acquires rest = needs
  busy : task.isOver = false → task.waits = true → task.guards = 1 ∧
    (∀ action ∈ task.script, action.isPlain = true) ∧ task.slots + acquires task.script = needs
  stopped : task.isOver = true → task.guards = 0 ∧ task.slots = 0

def State.Staffed (state : State) : Prop :=
  ∀ task ∈ state.tasks, ∃ duty, task.duty = some duty ∧ task.Shaped duty.needs

namespace State

def Reshapes (before : State) (id : TaskId) (duty : Duty) (after : State) : Prop :=
  ∃ next, after.tasks = before.tasks.set id next ∧ next.duty = some duty ∧
    next.Shaped duty.needs

structure Busy (before state : State) (duty : Duty) (task : Task) (script : Script) : Prop where
  tasks : state.tasks = before.tasks
  works : task.duty = some duty
  live : task.life = .live
  guards : task.guards = 1
  plain : ∀ action ∈ script, action.isPlain = true
  slots : task.slots + acquires script = duty.needs

theorem reshapes_finish {before state : State} {id : TaskId} {duty : Duty} {task : Task}
    (ending : Ending) (tasks : state.tasks = before.tasks) (works : task.duty = some duty) :
    before.Reshapes id duty (state.finish id task ending) := by
  refine ⟨{ task with
    script := [], waits := false, wake := none, guards := 0, slots := 0
    life := .ended state.clock ending }, ?_, works, ?_⟩
  · simp [finish, works, report, setTask, tasks]
  · constructor <;> simp [Task.isOver]

theorem Busy.store {before state next : State} {id : TaskId} {duty : Duty} {task waiting : Task}
    {script : Script} (busy : before.Busy state duty task script) (tasks : next.tasks = state.tasks)
    (works : waiting.duty = task.duty) (live : waiting.life = task.life)
    (guards : waiting.guards = task.guards) (slots : waiting.slots = task.slots)
    (waits : waiting.waits = true) :
    before.Reshapes id duty (next.setTask id { waiting with script := script }) := by
  refine ⟨{ waiting with script := script }, ?_, works.trans busy.works, ?_⟩
  · simp [setTask, tasks, busy.tasks]
  · constructor
    · simp [waits]
    · exact fun _ _ => ⟨guards.trans busy.guards, busy.plain, slots ▸ busy.slots⟩
    · simp [Task.isOver, live, busy.live]

def Advance.Leaves (before : State) (id : TaskId) (duty : Duty) (action : Action) (rest : Script) :
    Advance → Prop
  | .proceed next advanced => before.Busy next duty advanced rest
  | .stop next _ => next.tasks = before.tasks
  | .wait next waiting =>
      before.Reshapes id duty (next.setTask id { waiting with script := action :: rest })

theorem attempt_leaves {before state : State} (id : TaskId) {duty : Duty} {task : Task}
    {action : Action} {rest : Script} (busy : before.Busy state duty task (action :: rest)) :
    (state.attempt id task action).Leaves before id duty action rest := by
  have plain : ∀ other ∈ rest, other.isPlain = true :=
    fun other member => busy.plain other (List.mem_cons_of_mem _ member)
  have slots := busy.slots
  cases action with
  | wait millis =>
      simp only [attempt, stopWith]
      split
      · exact ⟨busy.tasks, busy.works, busy.live, busy.guards, plain, slots⟩
      · split
        · exact busy.tasks
        · exact busy.store rfl rfl rfl rfl rfl rfl
  | acquire =>
      simp only [attempt, stopWith]
      split
      · exact busy.tasks
      · split
        · refine ⟨busy.tasks, busy.works, busy.live, busy.guards, plain, ?_⟩
          rw [acquires_acquire] at slots
          simp only
          omega
        · exact busy.store rfl rfl rfl rfl rfl rfl
  | fail failure => exact busy.tasks
  | _ => exact absurd (busy.plain _ List.mem_cons_self) (by simp [Action.isPlain])

theorem reshapes_perform {before state : State} {id : TaskId} {duty : Duty} {task : Task}
    {script : Script} (busy : before.Busy state duty task script) :
    before.Reshapes id duty (state.perform id task script) := by
  refine perform_keeps (before.Busy · duty · ·) (before.Reshapes id duty) ?_ ?_ state task script
    busy
  · intro state task action rest busy
    have left := attempt_leaves id busy
    split
    · rename_i next advanced same
      rw [same] at left
      exact left
    · rename_i next ending same
      rw [same] at left
      exact reshapes_finish ending left busy.works
    · rename_i next waiting same
      rw [same] at left
      exact left
  · exact fun state task busy => reshapes_finish _ busy.tasks busy.works

def Advance.Wakes (before : State) (duty : Duty) (rest : Script) : Advance → Prop
  | .proceed next advanced => before.Busy next duty advanced rest
  | .stop next _ => next.tasks = before.tasks
  | .wait _ _ => True

theorem resume_wakes {state : State} (id : TaskId) {duty : Duty} {task : Task} {action : Action}
    {rest : Script} (busy : state.Busy state duty task (action :: rest)) :
    (state.resume id task action).Wakes state duty rest := by
  have plain : ∀ other ∈ rest, other.isPlain = true :=
    fun other member => busy.plain other (List.mem_cons_of_mem _ member)
  have slots := busy.slots
  cases action with
  | wait millis =>
      simp only [resume, stopWith]
      split
      · exact rfl
      · split
        · exact ⟨rfl, busy.works, busy.live, busy.guards, plain, slots⟩
        · trivial
  | acquire =>
      simp only [resume, stopWith]
      split
      · exact tasks_withLimiter _ _
      · split
        · refine ⟨rfl, busy.works, busy.live, busy.guards, plain, ?_⟩
          rw [acquires_acquire] at slots
          simp only
          omega
        · trivial
  | fail failure => exact ⟨rfl, busy.works, busy.live, busy.guards, plain, slots⟩
  | _ => exact absurd (busy.plain _ List.mem_cons_self) (by simp [Action.isPlain])

theorem reshapes_runTask {state : State} {id : TaskId} {task : Task} {duty : Duty}
    (found : state.tasks[id]? = some task) (works : task.duty = some duty)
    (shaped : task.Shaped duty.needs) : state.Reshapes id duty (state.runTask id) := by
  have unchanged : state.Reshapes id duty state := by
    obtain ⟨bound, here⟩ := List.getElem?_eq_some_iff.mp found
    exact ⟨task, by rw [← here, List.set_getElem_self bound], works, shaped⟩
  unfold runTask
  simp only [found]
  split
  · rename_i live
    have going : task.isOver = false := by simp [Task.isOver, live]
    cases waits : task.waits with
    | true =>
        obtain ⟨guards, plain, slots⟩ := shaped.busy going waits
        have busy : state.Busy state duty task task.script :=
          ⟨rfl, works, live, guards, plain, slots⟩
        cases script : task.script with
        | nil => exact reshapes_perform (script ▸ busy)
        | cons action rest =>
            rw [script] at busy
            have woken := resume_wakes id busy
            simp only
            split
            · rename_i next advanced same
              rw [same] at woken
              exact reshapes_perform woken
            · rename_i next ending same
              rw [same] at woken
              exact reshapes_finish ending woken works
            · exact unchanged
    | false =>
        obtain ⟨guards, slots, rest, script, plain, needs⟩ := shaped.idle going waits
        have entered : State.Busy state { state with running := state.running + 1 } duty
            { task with script := .enter :: rest, guards := task.guards + 1 } rest :=
          ⟨rfl, works, live, by simp [guards], plain, by simp [slots, needs]⟩
        simp only [script, perform, attempt]
        exact reshapes_perform entered
  · refine ⟨{ task with
      script := [], waits := false, wake := none, guards := 0, slots := 0, life := .dropped },
      ?_, works, ?_⟩
    · simp [drop, works, setTask]
    · constructor <;> simp [Task.isOver]
  · exact unchanged

/-! ## Orders -/

def IsOrderly : Move → Prop
  | .openCall _ steps => ∃ order, steps = orderPipeline.scripts order
  | .spawn _ _ | .doom _ | .release _ => False
  | _ => True

theorem Staffed.set {before after : State} (staffed : before.Staffed) {id : TaskId} {next : Task}
    {duty : Duty} (tasks : after.tasks = before.tasks.set id next) (works : next.duty = some duty)
    (shaped : next.Shaped duty.needs) : after.Staffed := by
  intro task member
  rw [tasks] at member
  rcases List.mem_or_eq_of_mem_set member with old | rfl
  · exact staffed task old
  · exact ⟨duty, works, shaped⟩

theorem Staffed.congr {before after : State} (staffed : before.Staffed)
    (tasks : after.tasks = before.tasks) : after.Staffed := by
  intro task member
  exact staffed task (tasks ▸ member)

theorem staffed_runTask {state : State} (staffed : state.Staffed) (id : TaskId) :
    (state.runTask id).Staffed := by
  cases found : state.tasks[id]? with
  | none =>
      refine staffed.congr ?_
      simp only [runTask, found]
  | some task =>
      obtain ⟨duty, works, shaped⟩ := staffed task (List.mem_of_getElem? found)
      obtain ⟨next, tasks, works', shaped'⟩ := reshapes_runTask found works shaped
      exact staffed.set tasks works' shaped'

theorem staffed_doom {state : State} (staffed : state.Staffed) (id : TaskId) :
    (state.doom id).Staffed := by
  unfold doom
  split
  · exact staffed
  · rename_i task found
    split
    · rename_i live
      obtain ⟨duty, works, shaped⟩ := staffed task (List.mem_of_getElem? found)
      have going : task.isOver = false := by simp [Task.isOver, live]
      have tasks : ((state.setTask id { task with life := .doomed }).wake (.task id)).tasks =
          state.tasks.set id { task with life := .doomed } := by simp [setTask]
      exact staffed.set tasks works
        ⟨fun _ => shaped.idle going, fun _ => shaped.busy going, by simp [Task.isOver]⟩
    · exact staffed

theorem staffed_foldl_doom {state : State} (staffed : state.Staffed) (ids : List TaskId) :
    (ids.foldl doom state).Staffed := by
  induction ids generalizing state with
  | nil => exact staffed
  | cons id ids ih => exact ih (staffed_doom staffed id)

theorem tasks_runCall (state : State) (id : CallId) : (state.runCall id).tasks = state.tasks := by
  rcases runCall_cases state id with same | ⟨call, found, aborted, ended⟩
  · rw [same]
  · obtain ⟨stop, turned⟩ := joins_runCall found aborted ended
    exact turned.tasks

end State

/-- The bodies of an order begin by entering; then they are plain, and only the courier takes a
slot. -/
theorem script_of_order (order : Order) {id : CallId} {position : Nat} {step : String × Script}
    (named : (orderPipeline.scripts order)[position]? = some step) :
    ∃ rest, step.2 = .enter :: rest ∧ (∀ action ∈ rest, action.isPlain = true) ∧
      acquires rest = (Duty.mk id position).needs := by
  have plain_failIf (fails : Bool) (note : String) (problem : OrderProblem) :
      (∀ action ∈ failIf fails note problem, action.isPlain = true) ∧
        acquires (failIf fails note problem) = 0 := by
    cases fails <;> simp [failIf, Action.isPlain, acquires, Action.isAcquire]
  match position with
  | 0 =>
      obtain rfl := Option.some.inj named
      obtain ⟨plain, none_needed⟩ := plain_failIf
        (order.failsAt "payment" || order.amount == 0) "payment" .paymentDeclined
      refine ⟨_, rfl, ?_, ?_⟩
      · simpa [Action.isPlain] using plain
      · exact none_needed
  | 1 =>
      obtain rfl := Option.some.inj named
      obtain ⟨plain, none_needed⟩ :=
        plain_failIf (order.failsAt "vendor") "vendor notify" .vendorUnavailable
      refine ⟨_, rfl, ?_, ?_⟩
      · simpa [Action.isPlain] using plain
      · exact none_needed
  | 2 =>
      obtain rfl := Option.some.inj named
      obtain ⟨plain, none_needed⟩ :=
        plain_failIf (order.failsAt "courier") "courier assign" .noCourier
      refine ⟨_, rfl, ?_, ?_⟩
      · simpa [Action.isPlain] using plain
      · have needs : (Duty.mk id 2).needs = 1 := by
          simp [Duty.needs, Duty.isCourier, orderPipeline_names]
        rw [needs]
        exact (acquires_acquire _).trans (congrArg (· + 1) none_needed)
  | position + 3 => cases named

namespace State

theorem staffed_openCall {state : State} (staffed : state.Staffed) (context : ScopeId)
    (order : Order) : (state.openCall context (orderPipeline.scripts order)).1.Staffed := by
  have opened := opened_openCall state context (orderPipeline.scripts order)
  intro task member
  rw [opened.tasks] at member
  rcases List.mem_append.mp member with old | new
  · exact staffed task old
  · obtain ⟨position, there⟩ := List.getElem?_of_mem new
    rw [getElem?_stepTasks, List.getElem?_map, Option.map_map, Option.map_eq_some_iff] at there
    obtain ⟨step, named, rfl⟩ := there
    refine ⟨_, rfl, ?_⟩
    constructor
    · exact fun _ _ => ⟨rfl, rfl, script_of_order order named⟩
    · simp [Task.new]
    · simp [Task.isOver, Task.new]

theorem staffed_apply {state : State} (staffed : state.Staffed) {move : Move}
    (orderly : IsOrderly move) : (state.apply move).Staffed := by
  cases move with
  | addBackground => exact staffed
  | derive parent deadline => exact staffed
  | cancel target => exact staffed.congr (tasks_cancelScope _ _)
  | openCall context steps =>
      obtain ⟨order, rfl⟩ := orderly
      exact staffed_openCall staffed context order
  | abortCall id =>
      simp only [apply, abortCall]
      split
      · exact staffed
      · split
        · exact staffed
        · rename_i call _ _
          have marked : State.Staffed
              { state with calls := state.calls.set id { call with aborted := true } } := staffed
          exact staffed_foldl_doom marked call.tasks
  | turn worker =>
      simp only [apply]
      split
      · have popped : State.Staffed { state with ready := state.ready.erase worker } := staffed
        cases worker with
        | task id => exact staffed_runTask popped id
        | call id => exact popped.congr (tasks_runCall _ id)
      · exact staffed
  | jump time =>
      simp only [apply, jump]
      split
      · exact staffed.congr (tasks_wakeAll _ _)
      · exact staffed
  | spawn scope script => cases orderly
  | doom id => cases orderly
  | release id => cases orderly

end State

end Schedule

end OrderDesk
