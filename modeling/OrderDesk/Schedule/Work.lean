import OrderDesk.Schedule.State

/-! How much tasks and calls have left to do, as a number. Whenever a worker runs, either the
number falls, or the worker was woken in vain and the state keeps its timers and its line. -/

namespace OrderDesk.Schedule

/-- Two for every action that is left and two for the end, and one more if nothing has been tried
yet. -/
def Task.work (task : Task) : Nat :=
  match task.life with
  | .live | .doomed => 2 * task.script.length + (if task.waits then 2 else 3)
  | .ended _ _ | .dropped => 0

def Call.work (call : Call) : Nat := call.finished.length

def sumOf {α : Type} (weight : α → Nat) : List α → Nat
  | [] => 0
  | item :: items => weight item + sumOf weight items

namespace State

def work (state : State) : Nat := sumOf Task.work state.tasks + sumOf Call.work state.calls

@[simp] theorem tasks_wake (state : State) (worker : Worker) :
    (state.wake worker).tasks = state.tasks := by
  unfold wake
  split <;> rfl

@[simp] theorem calls_wake (state : State) (worker : Worker) :
    (state.wake worker).calls = state.calls := by
  unfold wake
  split <;> rfl

@[simp] theorem timers_wake (state : State) (worker : Worker) :
    (state.wake worker).timers = state.timers := by
  unfold wake
  split <;> rfl

@[simp] theorem tasks_wakeAll (state : State) (tasks : List TaskId) :
    (state.wakeAll tasks).tasks = state.tasks := by
  induction tasks generalizing state with
  | nil => rfl
  | cons task tasks ih => exact (ih (state.wake (.task task))).trans (tasks_wake state _)

@[simp] theorem calls_wakeAll (state : State) (tasks : List TaskId) :
    (state.wakeAll tasks).calls = state.calls := by
  induction tasks generalizing state with
  | nil => rfl
  | cons task tasks ih => exact (ih (state.wake (.task task))).trans (calls_wake state _)

@[simp] theorem timers_wakeAll (state : State) (tasks : List TaskId) :
    (state.wakeAll tasks).timers = state.timers := by
  induction tasks generalizing state with
  | nil => rfl
  | cons task tasks ih => exact (ih (state.wake (.task task))).trans (timers_wake state _)

@[simp] theorem tasks_cancelScope (state : State) (target : ScopeId) :
    (state.cancelScope target).tasks = state.tasks := tasks_wakeAll _ _

@[simp] theorem calls_cancelScope (state : State) (target : ScopeId) :
    (state.cancelScope target).calls = state.calls := calls_wakeAll _ _

@[simp] theorem tasks_withLimiter (state : State) (change : Limiter × Option TaskId) :
    (state.withLimiter change).tasks = state.tasks := by
  unfold withLimiter
  cases change.2 <;> simp

@[simp] theorem calls_withLimiter (state : State) (change : Limiter × Option TaskId) :
    (state.withLimiter change).calls = state.calls := by
  unfold withLimiter
  cases change.2 <;> simp

@[simp] theorem tasks_giveSlot (state : State) : state.giveSlot.tasks = state.tasks :=
  tasks_withLimiter _ _

@[simp] theorem calls_giveSlot (state : State) : state.giveSlot.calls = state.calls :=
  calls_withLimiter _ _

@[simp] theorem tasks_giveSlots (state : State) (count : Nat) :
    (state.giveSlots count).tasks = state.tasks := by
  induction count generalizing state with
  | zero => rfl
  | succ count ih => exact (ih state.giveSlot).trans (tasks_giveSlot state)

@[simp] theorem calls_giveSlots (state : State) (count : Nat) :
    (state.giveSlots count).calls = state.calls := by
  induction count generalizing state with
  | zero => rfl
  | succ count ih => exact (ih state.giveSlot).trans (calls_giveSlot state)

@[simp] theorem tasks_giveBack (state : State) (task : Task) :
    (state.giveBack task).tasks = state.tasks := tasks_giveSlots _ _

@[simp] theorem calls_giveBack (state : State) (task : Task) :
    (state.giveBack task).calls = state.calls := calls_giveSlots _ _

@[simp] theorem tasks_listen (state : State) (id : TaskId) (scope : ScopeId) :
    (state.listen id scope).tasks = state.tasks := rfl

@[simp] theorem calls_listen (state : State) (id : TaskId) (scope : ScopeId) :
    (state.listen id scope).calls = state.calls := rfl

@[simp] theorem tasks_setTimer (state : State) (id : TaskId) (due : Nat) :
    (state.setTimer id due).tasks = state.tasks := rfl

@[simp] theorem calls_setTimer (state : State) (id : TaskId) (due : Nat) :
    (state.setTimer id due).calls = state.calls := rfl

@[simp] theorem tasks_unlisten (state : State) (id : TaskId) :
    (state.unlisten id).tasks = state.tasks := rfl

@[simp] theorem calls_unlisten (state : State) (id : TaskId) :
    (state.unlisten id).calls = state.calls := rfl

def Advance.Keeps (before : State) : Advance → Prop
  | .proceed state _ => state.tasks = before.tasks ∧ state.calls = before.calls
  | .stop state _ => state.tasks = before.tasks ∧ state.calls = before.calls
  | .wait state task =>
      state.tasks = before.tasks ∧ state.calls = before.calls ∧ task.waits = true

theorem attempt_keeps (state : State) (id : TaskId) (task : Task) (action : Action) :
    (state.attempt id task action).Keeps state := by
  cases action <;> simp only [attempt, stopWith] <;> (repeat' split) <;> simp [Advance.Keeps]

theorem resume_keeps (state : State) (id : TaskId) (task : Task) (action : Action)
    (waits : task.waits = true) : (state.resume id task action).Keeps state := by
  cases action <;> simp only [resume, stopWith] <;> (repeat' split) <;>
    simp [Advance.Keeps, waits]

theorem sumOf_set {α : Type} (weight : α → Nat) (items : List α) (index : Nat) (old new : α)
    (found : items[index]? = some old) :
    sumOf weight (items.set index new) + weight old = sumOf weight items + weight new := by
  induction items generalizing index with
  | nil => simp at found
  | cons item items ih =>
      cases index with
      | zero =>
          obtain rfl : item = old := by simpa using found
          simp only [List.set_cons_zero, sumOf]
          omega
      | succ index =>
          have later := ih index (by simpa using found)
          simp only [List.set_cons_succ, sumOf]
          omega

theorem sumOf_modify_le {α : Type} (weight : α → Nat) (change : α → α) (items : List α)
    (index : Nat) (bounded : ∀ item, weight (change item) ≤ weight item + 1) :
    sumOf weight (items.modify index change) ≤ sumOf weight items + 1 := by
  induction items generalizing index with
  | nil => simp
  | cons item items ih =>
      cases index with
      | zero =>
          have first := bounded item
          simp only [List.modify_zero_cons, sumOf]
          omega
      | succ index =>
          have later := ih index
          simp only [List.modify_succ_cons, sumOf]
          omega

theorem work_setTask (state : State) (id : TaskId) (old new : Task)
    (found : state.tasks[id]? = some old) :
    (state.setTask id new).work + old.work = state.work + new.work := by
  have changed := sumOf_set Task.work state.tasks id old new found
  simp only [work, setTask]
  omega

theorem work_congr {state before : State} (tasks : state.tasks = before.tasks)
    (calls : state.calls = before.calls) : state.work = before.work := by
  simp only [work, tasks, calls]

theorem work_report_le (state : State) (id : TaskId) (duty : Option Duty) :
    (state.report id duty).work ≤ state.work + 1 := by
  cases duty with
  | none => simp [report]
  | some duty =>
      have counted := sumOf_modify_le Call.work
        (fun call => { call with finished := call.finished ++ [id] }) state.calls duty.call
        (fun call => by simp [Call.work])
      simp only [work, report, tasks_wake, calls_wake]
      omega

theorem work_setTask_over (state : State) (id : TaskId) (old new : Task)
    (found : state.tasks[id]? = some old) (ended : new.work = 0) :
    (state.setTask id new).work + old.work = state.work := by
  have changed := work_setTask state id old new found
  omega

theorem work_finish_le (state : State) (id : TaskId) (task old : Task) (ending : Ending)
    (found : state.tasks[id]? = some old) :
    (state.finish id task ending).work + old.work ≤ state.work + 1 := by
  unfold finish
  split
  · exact Nat.le_succ_of_le (Nat.le_of_eq (work_setTask_over state id old _ found rfl))
  · have returned := work_congr (tasks_giveBack state task) (calls_giveBack state task)
    have ended := work_setTask_over (state.giveBack task) id old
      { task with
        script := [], waits := false, wake := none, guards := 0, slots := 0
        life := .ended state.clock ending } (by simpa using found) rfl
    refine Nat.le_trans (Nat.add_le_add_right (work_report_le _ id _) old.work) ?_
    omega

theorem work_drop (state : State) (id : TaskId) (task old : Task)
    (found : state.tasks[id]? = some old) :
    (state.drop id task).work + old.work = state.work := by
  unfold drop
  split
  · refine (work_setTask_over _ id old _ (by simpa using found) rfl).trans ?_
    exact work_congr (by simp) (by simp)
  · refine (work_setTask_over _ id old _ (by simpa using found) rfl).trans ?_
    exact work_congr (by simp) (by simp)

theorem work_waiting_le (task : Task) (script : Script) (waits : task.waits = true) :
    ({ task with script := script } : Task).work ≤ 2 * script.length + 2 := by
  simp only [Task.work, waits]
  split <;> simp

theorem work_perform_le (state : State) (id : TaskId) (task old : Task) (script : Script)
    (found : state.tasks[id]? = some old) :
    (state.perform id task script).work + old.work ≤ state.work + 2 * script.length + 2 := by
  induction script generalizing state task with
  | nil =>
      have ended := work_finish_le state id task old (state.returned task none) found
      simp only [perform, List.length_nil]
      omega
  | cons action rest ih =>
      have kept := attempt_keeps state id task action
      simp only [perform, List.length_cons]
      split
      · rename_i next advanced tried
        simp only [tried, Advance.Keeps] at kept
        have same := work_congr kept.1 kept.2
        have later := ih next advanced (by simpa [kept.1] using found)
        omega
      · rename_i next ending tried
        simp only [tried, Advance.Keeps] at kept
        have same := work_congr kept.1 kept.2
        have ended := work_finish_le next id task old ending (by simpa [kept.1] using found)
        omega
      · rename_i next waiting tried
        simp only [tried, Advance.Keeps] at kept
        have same := work_congr kept.1 kept.2.1
        have stored := work_setTask next id old { waiting with script := action :: rest }
          (by simpa [kept.1] using found)
        have bounded := work_waiting_le waiting (action :: rest) kept.2.2
        simp only [List.length_cons] at bounded
        omega

/-! ## Turns -/

/-- A turn got somewhere, or else it left all but finished calls as they were. -/
def Proceeds (before after : State) : Prop :=
  after.work < before.work ∨
    after.work = before.work ∧ after.timers = before.timers ∧ after.ready = before.ready

theorem proceeds_refl (state : State) : state.Proceeds state := Or.inr ⟨rfl, rfl, rfl⟩

theorem proceeds_runTask (state : State) (id : TaskId) : state.Proceeds (state.runTask id) := by
  unfold runTask
  split
  · exact proceeds_refl state
  · rename_i task found
    split
    · rename_i live
      split
      · rename_i action rest waits script
        have kept := resume_keeps state id task action waits
        have counted : task.work = 2 * (rest.length + 1) + 2 := by
          simp [Task.work, live, waits, script]
        split
        · rename_i next advanced tried
          simp only [tried, Advance.Keeps] at kept
          have same := work_congr kept.1 kept.2
          have later := work_perform_le next id advanced task rest (by simpa [kept.1] using found)
          exact Or.inl (by omega)
        · rename_i next ending tried
          simp only [tried, Advance.Keeps] at kept
          have same := work_congr kept.1 kept.2
          have ended := work_finish_le next id task task ending (by simpa [kept.1] using found)
          exact Or.inl (by omega)
        · exact proceeds_refl state
      · rename_i script fresh
        cases body : task.script with
        | nil =>
            have ended := work_finish_le state id task task (state.returned task none) found
            have counted : 2 ≤ task.work := by
              simp only [Task.work, live]
              split <;> omega
            simp only [perform]
            exact Or.inl (by omega)
        | cons action rest =>
            have idle : task.waits = false := by
              cases waits : task.waits with
              | false => rfl
              | true => exact absurd body (fresh action rest waits)
            have later := work_perform_le state id task task (action :: rest) found
            have counted : task.work = 2 * (action :: rest).length + 3 := by
              simp [Task.work, live, idle, body]
            exact Or.inl (by omega)
    · rename_i doomed
      have dropped := work_drop state id task task found
      have counted : 2 ≤ task.work := by
        simp only [Task.work, doomed]
        split <;> omega
      exact Or.inl (by omega)
    · exact proceeds_refl state

theorem tasks_join (state : State) (call : Call) (ids : List TaskId) :
    (state.join call ids).1.tasks = state.tasks := by
  induction ids generalizing state call with
  | nil => rfl
  | cons id ids ih =>
      simp only [join]
      split
      · exact ih state call
      · rw [ih]
        split <;> simp

theorem calls_join (state : State) (call : Call) (ids : List TaskId) :
    (state.join call ids).1.calls = state.calls := by
  induction ids generalizing state call with
  | nil => rfl
  | cons id ids ih =>
      simp only [join]
      split
      · exact ih state call
      · rw [ih]
        split <;> simp

theorem finished_join (state : State) (call : Call) (ids : List TaskId) :
    (state.join call ids).2.finished = call.finished := by
  induction ids generalizing state call with
  | nil => rfl
  | cons id ids ih =>
      simp only [join]
      split
      · exact ih state call
      · rw [ih]

theorem proceeds_runCall (state : State) (id : CallId) : state.Proceeds (state.runCall id) := by
  unfold runCall
  split
  · exact proceeds_refl state
  · rename_i call found
    split
    · exact proceeds_refl state
    · cases joined : state.join { call with finished := [] } call.finished with
      | mk next after =>
          have tasks : next.tasks = state.tasks := by
            simpa [joined] using tasks_join state { call with finished := [] } call.finished
          have calls : next.calls = state.calls := by
            simpa [joined] using calls_join state { call with finished := [] } call.finished
          have finished : after.finished = [] := by
            simpa [joined] using finished_join state { call with finished := [] } call.finished
          have counted := sumOf_set Call.work state.calls id call
            { after with
              ended :=
                if after.left = 0 then some (next.clock, next.cause? after.context) else none }
            found
          have nothing : Call.work { after with
              ended :=
                if after.left = 0 then some (next.clock, next.cause? after.context) else none } =
              0 := by
            simp [Call.work, finished]
          by_cases none_left : call.finished = []
          · have unchanged : next = state := by
              simp only [none_left, join, Prod.mk.injEq] at joined
              exact joined.1.symm
            have idle : call.work = 0 := by simp [Call.work, none_left]
            refine Or.inr ⟨?_, by simp [unchanged], by simp [unchanged]⟩
            simp only [work, tasks, calls]
            omega
          · have busy : 0 < call.work := List.length_pos_iff.mpr none_left
            refine Or.inl ?_
            simp only [work, tasks, calls]
            omega

theorem proceeds_run (state : State) (worker : Worker) : state.Proceeds (state.run worker) := by
  cases worker with
  | task id => exact proceeds_runTask state id
  | call id => exact proceeds_runCall state id

end State

end OrderDesk.Schedule
