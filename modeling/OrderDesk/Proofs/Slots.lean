import Mathlib.Data.List.Nodup
import OrderDesk.Proofs.Wiring

/-! The balance of slots and guards. Every slot is free, or granted to a waiter, or held by a task,
and every guard that counts is held by a task. Nobody is in the line of the limiter twice, and
whoever is in it waits for a slot. Every move keeps the balance, whatever the tasks do. -/

namespace OrderDesk.Schedule

namespace Limiter

/-- Everyone who waits for a slot or has been granted one and has not taken notice. -/
def line (limiter : Limiter) : List Nat :=
  limiter.granted ++ limiter.waiting

def unheld (limiter : Limiter) : Nat :=
  limiter.free + limiter.granted.length

theorem line_take? {limiter next : Limiter} (taken : limiter.take? = some next) :
    next.line = limiter.line := by
  unfold take? at taken
  split at taken
  · cases taken
  · obtain rfl := Option.some.inj taken
    rfl

theorem unheld_take? {limiter next : Limiter} (taken : limiter.take? = some next) :
    next.unheld + 1 = limiter.unheld ∧ next.capacity = limiter.capacity := by
  unfold take? at taken
  split at taken
  · cases taken
  · obtain rfl := Option.some.inj taken
    simp only [unheld, and_true]
    omega

theorem line_give (limiter : Limiter) : limiter.give.1.line = limiter.line := by
  unfold give
  split
  · rfl
  · rename_i first rest waiting
    simp [line, waiting]

theorem unheld_give (limiter : Limiter) :
    limiter.give.1.unheld = limiter.unheld + 1 ∧ limiter.give.1.capacity = limiter.capacity := by
  unfold give
  split
  · simp only [unheld, and_true]
    omega
  · simp only [unheld, List.length_append, List.length_singleton, and_true]
    omega

theorem line_claim {limiter : Limiter} {task : Nat} (granted : task ∈ limiter.granted) :
    (limiter.claim task).line = limiter.line.erase task :=
  (List.erase_append_left _ granted).symm

theorem unheld_claim {limiter : Limiter} {task : Nat} (granted : task ∈ limiter.granted) :
    (limiter.claim task).unheld + 1 = limiter.unheld ∧
      (limiter.claim task).capacity = limiter.capacity := by
  have counted := List.length_erase_of_mem granted
  have some_granted := List.length_pos_of_mem granted
  simp only [unheld, claim, and_true]
  omega

theorem line_leave (limiter : Limiter) (task : Nat) :
    (limiter.leave task).1.line = limiter.line.erase task := by
  unfold leave
  split
  · rename_i granted
    rw [line_give, line_claim (List.contains_iff_mem.mp granted)]
  · rename_i absent
    exact (List.erase_append_right _ fun member =>
      absent (List.contains_iff_mem.mpr member)).symm

theorem mem_line_of_give {limiter : Limiter} {task : Nat} (granted : task ∈ limiter.give.2) :
    task ∈ limiter.line := by
  unfold give at granted
  split at granted
  · cases granted
  · rename_i first rest waiting
    obtain rfl := Option.some.inj granted
    simp [line, waiting]

theorem mem_line_of_leave {limiter : Limiter} {task other : Nat}
    (granted : other ∈ (limiter.leave task).2) : other ∈ limiter.line := by
  unfold leave at granted
  split at granted
  · rename_i held
    have member := mem_line_of_give granted
    rw [line_claim (List.contains_iff_mem.mp held)] at member
    exact List.mem_of_mem_erase member
  · cases granted

theorem unheld_leave (limiter : Limiter) (task : Nat) :
    (limiter.leave task).1.unheld = limiter.unheld ∧
      (limiter.leave task).1.capacity = limiter.capacity := by
  unfold leave
  split
  · rename_i granted
    have given := unheld_give (limiter.claim task)
    have claimed := unheld_claim (List.contains_iff_mem.mp granted)
    omega
  · exact ⟨rfl, rfl⟩

end Limiter

namespace State

@[simp] theorem limiter_wake (state : State) (worker : Worker) :
    (state.wake worker).limiter = state.limiter := by
  rw [wake_eq]

@[simp] theorem running_wake (state : State) (worker : Worker) :
    (state.wake worker).running = state.running := by
  rw [wake_eq]

@[simp] theorem limiter_wakeAll (state : State) (tasks : List TaskId) :
    (state.wakeAll tasks).limiter = state.limiter := by
  rw [wakeAll_eq]

@[simp] theorem running_wakeAll (state : State) (tasks : List TaskId) :
    (state.wakeAll tasks).running = state.running := by
  rw [wakeAll_eq]

@[simp] theorem limiter_withLimiter (state : State) (change : Limiter × Option TaskId) :
    (state.withLimiter change).limiter = change.1 := by
  unfold withLimiter
  cases change.2 <;> simp

@[simp] theorem running_withLimiter (state : State) (change : Limiter × Option TaskId) :
    (state.withLimiter change).running = state.running := by
  unfold withLimiter
  cases change.2 <;> simp

@[simp] theorem running_giveSlots (state : State) (count : Nat) :
    (state.giveSlots count).running = state.running := by
  induction count generalizing state with
  | zero => rfl
  | succ count ih => exact (ih state.giveSlot).trans (running_withLimiter state _)

theorem line_giveSlots (state : State) (count : Nat) :
    (state.giveSlots count).limiter.line = state.limiter.line := by
  induction count generalizing state with
  | zero => rfl
  | succ count ih =>
      refine (ih state.giveSlot).trans ?_
      rw [giveSlot, limiter_withLimiter, Limiter.line_give]

theorem unheld_giveSlots (state : State) (count : Nat) :
    (state.giveSlots count).limiter.unheld = state.limiter.unheld + count ∧
      (state.giveSlots count).limiter.capacity = state.limiter.capacity := by
  induction count generalizing state with
  | zero => exact ⟨rfl, rfl⟩
  | succ count ih =>
      have given := state.limiter.unheld_give
      have later := ih state.giveSlot
      simp only [giveSlot, limiter_withLimiter] at later
      simp only [giveSlots, giveSlot]
      omega

end State

def Task.isQueued (task : Task) : Bool :=
  match task.life, task.script with
  | .live, .acquire :: _ => task.waits
  | .doomed, .acquire :: _ => task.waits
  | _, _ => false

/-- Every slot and every guard is accounted for. -/
structure Balanced (total : Nat) (tasks : List Task) (limiter : Limiter) (running : Int) :
    Prop where
  guards : running = sumOf Task.guards tasks
  slots : limiter.unheld + sumOf Task.slots tasks = total
  capacity : limiter.capacity = total
  distinct : limiter.line.Nodup
  queued : ∀ id ∈ limiter.line, ∃ task, tasks[id]? = some task ∧ task.isQueued = true

/-- The same while the task `id` is in hand as `task`, and what is stored of it does not count. -/
structure InHand (total : Nat) (tasks : List Task) (limiter : Limiter) (running : Int) (id : TaskId)
    (task : Task) : Prop where
  bound : id < tasks.length
  guards : running = sumOf Task.guards (tasks.eraseIdx id) + task.guards
  slots : limiter.unheld + (sumOf Task.slots (tasks.eraseIdx id) + task.slots) = total
  capacity : limiter.capacity = total
  distinct : limiter.line.Nodup
  queued : ∀ other ∈ limiter.line, other ≠ id →
    ∃ found, tasks[other]? = some found ∧ found.isQueued = true

variable {total : Nat}

theorem sumOf_eraseIdx {α : Type} (weight : α → Nat) (items : List α) (index : Nat) (item : α)
    (found : items[index]? = some item) :
    sumOf weight items = sumOf weight (items.eraseIdx index) + weight item := by
  induction items generalizing index with
  | nil => simp at found
  | cons first items ih =>
      cases index with
      | zero =>
          obtain rfl : first = item := by simpa using found
          simp only [List.eraseIdx_cons_zero, sumOf]
          omega
      | succ index =>
          have later := ih index (by simpa using found)
          simp only [List.eraseIdx_cons_succ, sumOf]
          omega

theorem sumOf_append {α : Type} (weight : α → Nat) (first second : List α) :
    sumOf weight (first ++ second) = sumOf weight first + sumOf weight second := by
  induction first with
  | nil => simp [sumOf]
  | cons item items ih =>
      simp only [List.cons_append, sumOf]
      omega

theorem sumOf_map {α β : Type} (weight : β → Nat) (change : α → β) (items : List α) :
    sumOf weight (items.map change) = sumOf (fun item => weight (change item)) items := by
  induction items with
  | nil => rfl
  | cons item items ih => rw [List.map_cons, sumOf, sumOf, ih]

theorem sumOf_eq_zero {α : Type} (weight : α → Nat) {items : List α}
    (zero : ∀ item ∈ items, weight item = 0) : sumOf weight items = 0 := by
  induction items with
  | nil => rfl
  | cons item items ih =>
      have first := zero item List.mem_cons_self
      have later := ih fun other member => zero other (List.mem_cons_of_mem item member)
      rw [sumOf, first, later]

theorem Balanced.inHand {tasks : List Task} {limiter : Limiter} {running : Int}
    (balanced : Balanced total tasks limiter running) {id : TaskId} {task : Task}
    (found : tasks[id]? = some task) : InHand total tasks limiter running id task := by
  refine ⟨(List.getElem?_eq_some_iff.mp found).1, ?_, ?_, balanced.capacity, balanced.distinct, ?_⟩
  · rw [balanced.guards, sumOf_eraseIdx Task.guards tasks id task found]
    omega
  · rw [← sumOf_eraseIdx Task.slots tasks id task found]
    exact balanced.slots
  · exact fun other member _ => balanced.queued other member

theorem InHand.balanced {tasks : List Task} {limiter : Limiter} {running : Int} {id : TaskId}
    {task next : Task} (inHand : InHand total tasks limiter running id task)
    (guards : next.guards = task.guards) (slots : next.slots = task.slots)
    (waits : id ∈ limiter.line → next.isQueued = true) :
    Balanced total (tasks.set id next) limiter running := by
  have stored : (tasks.set id next)[id]? = some next := List.getElem?_set_self inHand.bound
  have others : (tasks.set id next).eraseIdx id = tasks.eraseIdx id := List.eraseIdx_set_eq
  refine ⟨?_, ?_, inHand.capacity, inHand.distinct, ?_⟩
  · rw [sumOf_eraseIdx Task.guards _ id next stored, others, guards, inHand.guards]
    omega
  · rw [sumOf_eraseIdx Task.slots _ id next stored, others, slots]
    exact inHand.slots
  · intro other member
    by_cases same : other = id
    · subst same
      exact ⟨next, stored, waits member⟩
    · rw [List.getElem?_set_ne (Ne.symm same)]
      exact inHand.queued other member same

namespace State

def IsBalanced (state : State) (total : Nat) : Prop :=
  Balanced total state.tasks state.limiter state.running

structure Holds (state : State) (total : Nat) (id : TaskId) (task : Task) : Prop where
  inHand : InHand total state.tasks state.limiter state.running id task
  outside : id ∉ state.limiter.line

theorem Holds.store {state : State} {id : TaskId} {task next : Task} (holds : state.Holds total id task)
    (guards : next.guards = task.guards) (slots : next.slots = task.slots) :
    (state.setTask id next).IsBalanced total :=
  holds.inHand.balanced guards slots fun member => absurd member holds.outside

theorem Holds.congr {before after : State} {id : TaskId} {task next : Task}
    (holds : before.Holds total id task) (tasks : after.tasks = before.tasks)
    (limiter : after.limiter = before.limiter) (running : after.running = before.running)
    (guards : next.guards = task.guards) (slots : next.slots = task.slots) :
    after.Holds total id next := by
  obtain ⟨⟨bound, counted, held, capacity, distinct, queued⟩, outside⟩ := holds
  refine ⟨⟨?_, ?_, ?_, ?_, ?_, ?_⟩, ?_⟩
  · rw [tasks]
    exact bound
  · rw [tasks, running, guards]
    exact counted
  · rw [tasks, limiter, slots]
    exact held
  · rw [limiter]
    exact capacity
  · rw [limiter]
    exact distinct
  · rw [tasks, limiter]
    exact queued
  · rw [limiter]
    exact outside

theorem Holds.relimit {before after : State} {id : TaskId} {task next : Task}
    (more less : Nat) (holds : before.Holds total id task) (tasks : after.tasks = before.tasks)
    (line : after.limiter.line = before.limiter.line)
    (unheld : after.limiter.unheld + less = before.limiter.unheld + more ∧
      after.limiter.capacity = before.limiter.capacity)
    (running : after.running + task.guards = before.running + next.guards)
    (slots : next.slots + more = task.slots + less) : after.Holds total id next := by
  obtain ⟨⟨bound, counted, held, capacity, distinct, queued⟩, outside⟩ := holds
  refine ⟨⟨?_, ?_, ?_, unheld.2.trans capacity, ?_, ?_⟩, ?_⟩
  · rw [tasks]
    exact bound
  · rw [tasks]
    omega
  · rw [tasks]
    omega
  · rw [line]
    exact distinct
  · rw [tasks, line]
    exact queued
  · rw [line]
    exact outside

theorem Holds.giveBack {state : State} {id : TaskId} {task : Task} (holds : state.Holds total id task) :
    (state.giveBack task).Holds total id { task with guards := 0, slots := 0 } := by
  have given := unheld_giveSlots { state with running := state.running - task.guards } task.slots
  refine Holds.relimit task.slots 0 holds (tasks_giveBack _ _) (line_giveSlots _ _) given ?_ ?_
  · simp [State.giveBack]
  · simp

theorem balanced_finish {state : State} {id : TaskId} {task : Task} (ending : Ending)
    (holds : state.Holds total id task) : (state.finish id task ending).IsBalanced total := by
  unfold finish
  split
  · exact holds.store rfl rfl
  · have stored : ((state.giveBack task).setTask id
        { task with
          script := [], waits := false, wake := none, guards := 0, slots := 0
          life := .ended state.clock ending }).IsBalanced total := holds.giveBack.store rfl rfl
    simpa [IsBalanced, report, setTask] using stored

def Advance.Accounts (total : Nat) (id : TaskId) (task : Task) (script : Script) : Advance → Prop
  | .proceed next advanced => next.Holds total id advanced ∧ advanced.life = task.life
  | .stop next _ => next.Holds total id task
  | .wait next waiting => (next.setTask id { waiting with script := script }).IsBalanced total

theorem Holds.wait {state : State} {id : TaskId} {task : Task} (holds : state.Holds total id task)
    (live : task.life = .live) (rest : Script) :
    (({ state.listen id task.scope with limiter := state.limiter.wait id }).setTask id
      { task with waits := true, wake := none, script := .acquire :: rest }).IsBalanced total := by
  obtain ⟨⟨bound, counted, held, capacity, distinct, queued⟩, outside⟩ := holds
  have line : (state.limiter.wait id).line = state.limiter.line ++ [id] := by
    simp [Limiter.line, Limiter.wait]
  have inHand : InHand total state.tasks (state.limiter.wait id) state.running id task := by
    refine ⟨bound, counted, held, capacity, ?_, ?_⟩
    · rw [line]
      refine List.nodup_append'.mpr ⟨distinct, List.nodup_singleton id, ?_⟩
      simpa using outside
    · intro other member different
      rw [line] at member
      rcases List.mem_append.mp member with old | new
      · exact queued other old different
      · exact absurd (List.mem_singleton.mp new) different
  exact inHand.balanced rfl rfl fun _ => by simp [Task.isQueued, live]

theorem attempt_balanced {state : State} {id : TaskId} {task : Task} (action : Action)
    (rest : Script) (holds : state.Holds total id task) (live : task.life = .live) :
    (state.attempt id task action).Accounts total id task (action :: rest) := by
  have listening : (state.listen id task.scope).Holds total id task := holds.congr rfl rfl rfl rfl rfl
  cases action with
  | acquire =>
      simp only [attempt, stopWith]
      split
      · exact holds
      · split
        · rename_i limiter taken
          have unheld := Limiter.unheld_take? taken
          refine ⟨Holds.relimit 0 1 holds rfl (Limiter.line_take? taken) unheld rfl rfl, rfl⟩
        · exact holds.wait live rest
  | release =>
      simp only [attempt]
      split
      · exact ⟨holds, rfl⟩
      · rename_i some_slot
        refine ⟨Holds.relimit 1 0 holds (tasks_giveSlot state) ?_ ?_ ?_ ?_, rfl⟩
        · rw [giveSlot, limiter_withLimiter, Limiter.line_give]
        · rw [giveSlot, limiter_withLimiter]
          exact Limiter.unheld_give state.limiter
        · simp [giveSlot]
        · simp only
          omega
  | enter =>
      refine ⟨Holds.relimit 0 0 holds rfl rfl ⟨rfl, rfl⟩ ?_ rfl, rfl⟩
      simp only
      omega
  | leave =>
      simp only [attempt]
      split
      · exact ⟨holds, rfl⟩
      · rename_i some_guard
        refine ⟨Holds.relimit 0 0 holds rfl rfl ⟨rfl, rfl⟩ ?_ rfl, rfl⟩
        simp only
        omega
  | cancel =>
      exact ⟨holds.congr (tasks_cancelScope _ _) (limiter_cancelScope _ _)
        (running_cancelScope _ _) rfl rfl, rfl⟩
  | note index tag =>
      simp only [attempt]
      split
      · exact ⟨holds.congr rfl rfl rfl rfl rfl, rfl⟩
      · exact ⟨holds, rfl⟩
  | wait millis =>
      simp only [attempt, stopWith]
      repeat' split
      · exact ⟨holds, rfl⟩
      · exact holds
      · have timed : ((state.listen id task.scope).setTimer id (state.clock + millis)).Holds total id
            task := holds.congr rfl rfl rfl rfl rfl
        exact timed.store rfl rfl
  | sleep millis =>
      simp only [attempt]
      split
      · exact ⟨holds, rfl⟩
      · have timed : (state.setTimer id (state.clock + millis)).Holds total id task :=
          holds.congr rfl rfl rfl rfl rfl
        exact timed.store rfl rfl
  | done =>
      simp only [attempt, stopWith]
      split
      · exact holds
      · exact listening.store rfl rfl
  | swallow =>
      simp only [attempt]
      split
      · exact ⟨holds, rfl⟩
      · exact listening.store rfl rfl
  | check =>
      simp only [attempt, stopWith]
      split
      · exact holds
      · exact ⟨holds, rfl⟩
  | require slots failure =>
      simp only [attempt, stopWith]
      split
      · exact holds
      · exact ⟨holds, rfl⟩
  | fail failure => exact holds
  | crash message => exact holds
  | finish => exact holds

theorem balanced_perform {state : State} {id : TaskId} {task : Task} (script : Script)
    (holds : state.Holds total id task) (live : task.life = .live) :
    (state.perform id task script).IsBalanced total := by
  refine perform_keeps (fun state task _ => state.Holds total id task ∧ task.life = .live)
    (fun state => state.IsBalanced total) ?_ ?_ state task script ⟨holds, live⟩
  · rintro state task action rest ⟨holds, live⟩
    have tried := attempt_balanced action rest holds live
    split
    · rename_i next advanced same
      rw [same] at tried
      exact ⟨tried.1, tried.2.trans live⟩
    · rename_i next ending same
      rw [same] at tried
      exact balanced_finish ending tried
    · rename_i next waiting same
      rw [same] at tried
      exact tried
  · rintro state task ⟨holds, live⟩
    exact balanced_finish _ holds

theorem IsBalanced.holds {state : State} (balanced : state.IsBalanced total) {id : TaskId} {task : Task}
    (found : state.tasks[id]? = some task) (outside : task.isQueued = false) :
    state.Holds total id task := by
  refine ⟨Balanced.inHand balanced found, fun member => ?_⟩
  obtain ⟨stored, same, queued⟩ := balanced.queued id member
  obtain rfl := Option.some.inj (found.symm.trans same)
  rw [outside] at queued
  cases queued

theorem IsBalanced.leave {state : State} (balanced : state.IsBalanced total) {id : TaskId} {task : Task}
    (found : state.tasks[id]? = some task) :
    ((state.unlisten id).withLimiter ((state.unlisten id).limiter.leave id)).Holds total id task := by
  obtain ⟨bound, counted, held, capacity, distinct, queued⟩ := Balanced.inHand balanced found
  have line := state.limiter.line_leave id
  have unheld := state.limiter.unheld_leave id
  refine ⟨⟨?_, ?_, ?_, ?_, ?_, ?_⟩, ?_⟩
  · simpa using bound
  · simpa [unlisten] using counted
  · simp only [limiter_withLimiter, tasks_withLimiter, unlisten]
    omega
  · simp only [limiter_withLimiter, unlisten]
    omega
  · simp only [limiter_withLimiter, unlisten, line]
    exact distinct.erase id
  · intro other member different
    simp only [limiter_withLimiter, unlisten, line] at member
    simp only [tasks_withLimiter, unlisten]
    exact queued other (List.mem_of_mem_erase member) different
  · simp only [limiter_withLimiter, unlisten, line]
    exact distinct.not_mem_erase

theorem IsBalanced.claim {state : State} (balanced : state.IsBalanced total) {id : TaskId} {task : Task}
    (found : state.tasks[id]? = some task) (granted : id ∈ state.limiter.granted) :
    ({ state.unlisten id with limiter := state.limiter.claim id } : State).Holds total id
      { task with waits := false, wake := none, slots := task.slots + 1 } := by
  obtain ⟨bound, counted, held, capacity, distinct, queued⟩ := Balanced.inHand balanced found
  have line := Limiter.line_claim granted
  have unheld := Limiter.unheld_claim granted
  refine ⟨⟨bound, counted, ?_, unheld.2.trans capacity, ?_, ?_⟩, ?_⟩
  · simp only [unlisten]
    omega
  · simp only [line]
    exact distinct.erase id
  · intro other member different
    simp only [line] at member
    exact queued other (List.mem_of_mem_erase member) different
  · simp only [line]
    exact distinct.not_mem_erase

def Advance.Resumes (total : Nat) (id : TaskId) (task : Task) : Advance → Prop
  | .proceed next advanced => next.Holds total id advanced ∧ advanced.life = task.life
  | .stop next _ => next.Holds total id task
  | .wait _ _ => True

theorem resume_balanced {state : State} {id : TaskId} {task : Task} {action : Action}
    {rest : Script} (balanced : state.IsBalanced total) (found : state.tasks[id]? = some task)
    (script : task.script = action :: rest) :
    (state.resume id task action).Resumes total id task := by
  cases action with
  | acquire =>
      simp only [resume, stopWith]
      split
      · exact balanced.leave found
      · split
        · rename_i granted
          exact ⟨balanced.claim found (List.contains_iff_mem.mp granted), rfl⟩
        · trivial
  | _ =>
      have outside : task.isQueued = false := by
        unfold Task.isQueued
        split <;> simp_all
      have quiet : (state.unlisten id).Holds total id task :=
        (balanced.holds found outside).congr rfl rfl rfl rfl rfl
      simp only [resume, stopWith]
      repeat' split
      all_goals first
        | exact ⟨quiet.congr rfl rfl rfl rfl rfl, rfl⟩
        | exact quiet
        | trivial

theorem balanced_drop {state : State} (balanced : state.IsBalanced total) {id : TaskId} {task : Task}
    (found : state.tasks[id]? = some task) : (state.drop id task).IsBalanced total := by
  have left := balanced.leave found
  unfold drop
  split
  · exact left.store rfl rfl
  · exact left.giveBack.store rfl rfl

theorem balanced_runTask {state : State} (balanced : state.IsBalanced total) (id : TaskId) :
    (state.runTask id).IsBalanced total := by
  unfold runTask
  split
  · exact balanced
  · rename_i task found
    split
    · rename_i live
      split
      · rename_i action rest waits script
        have resumed := resume_balanced balanced found script
        split
        · rename_i next advanced same
          rw [same] at resumed
          exact balanced_perform rest resumed.1 (resumed.2.trans live)
        · rename_i next ending same
          rw [same] at resumed
          exact balanced_finish ending resumed
        · exact balanced
      · rename_i fresh
        refine balanced_perform task.script (balanced.holds found ?_) live
        unfold Task.isQueued
        split <;> simp_all
    · exact balanced_drop balanced found
    · exact balanced

/-! ## Every move -/

theorem IsBalanced.congr {before after : State} (balanced : before.IsBalanced total)
    (tasks : after.tasks = before.tasks) (limiter : after.limiter = before.limiter)
    (running : after.running = before.running) : after.IsBalanced total := by
  simp only [IsBalanced, tasks, limiter, running]
  exact balanced

theorem Balanced.append {tasks added : List Task} {limiter : Limiter} {running : Int}
    (balanced : Balanced total tasks limiter running)
    (nothing : ∀ task ∈ added, task.guards = 0 ∧ task.slots = 0) :
    Balanced total (tasks ++ added) limiter running := by
  have none_held (weight : Task → Nat) (zero : ∀ task ∈ added, weight task = 0) :
      sumOf weight (tasks ++ added) = sumOf weight tasks := by
    rw [sumOf_append, sumOf_eq_zero weight zero, Nat.add_zero]
  refine ⟨?_, ?_, balanced.capacity, balanced.distinct, ?_⟩
  · rw [none_held Task.guards fun task member => (nothing task member).1]
    exact balanced.guards
  · rw [none_held Task.slots fun task member => (nothing task member).2]
    exact balanced.slots
  · intro id member
    obtain ⟨task, found, queued⟩ := balanced.queued id member
    have bound := (List.getElem?_eq_some_iff.mp found).1
    exact ⟨task, by rw [List.getElem?_append_left bound, found], queued⟩

theorem balanced_doom {state : State} (balanced : state.IsBalanced total) (id : TaskId) :
    (state.doom id).IsBalanced total := by
  unfold doom
  split
  · exact balanced
  · rename_i task found
    split
    · rename_i live
      have stored : Balanced total (state.tasks.set id { task with life := .doomed }) state.limiter
          state.running := by
        refine (Balanced.inHand balanced found).balanced rfl rfl fun member => ?_
        obtain ⟨same, there, queued⟩ := balanced.queued id member
        obtain rfl := Option.some.inj (found.symm.trans there)
        unfold Task.isQueued at queued ⊢
        simp only [live] at queued
        split at queued <;> simp_all
      simpa [IsBalanced, setTask] using stored
    · exact balanced

theorem balanced_foldl_doom {state : State} (balanced : state.IsBalanced total) (ids : List TaskId) :
    (ids.foldl doom state).IsBalanced total := by
  induction ids generalizing state with
  | nil => exact balanced
  | cons id ids ih => exact ih (balanced_doom balanced id)

theorem balanced_runCall {state : State} (balanced : state.IsBalanced total) (id : CallId) :
    (state.runCall id).IsBalanced total := by
  rcases runCall_cases state id with same | ⟨call, found, aborted, ended⟩
  · rw [same]
    exact balanced
  · obtain ⟨stop, turned⟩ := joins_runCall found aborted ended
    exact balanced.congr turned.tasks turned.limiter turned.running

theorem balanced_release {state : State} (balanced : state.IsBalanced total) (id : TaskId) :
    (state.release id).IsBalanced total := by
  unfold release
  split
  · exact balanced
  · rename_i task found
    split
    · exact balanced
    · rename_i some_slot
      have given := state.limiter.unheld_give
      obtain ⟨bound, counted, held, capacity, distinct, queued⟩ := Balanced.inHand balanced found
      have inHand : InHand total state.tasks state.limiter.give.1 state.running id
          { task with slots := task.slots - 1 } := by
        refine ⟨bound, counted, ?_, given.2.trans capacity, ?_, ?_⟩
        · simp only
          omega
        · rw [Limiter.line_give]
          exact distinct
        · rw [Limiter.line_give]
          exact queued
      have stored : Balanced total (state.tasks.set id { task with slots := task.slots - 1 })
          state.limiter.give.1 state.running := by
        refine inHand.balanced rfl rfl fun member => ?_
        rw [Limiter.line_give] at member
        obtain ⟨same, there, waits⟩ := Balanced.queued balanced id member
        obtain rfl := Option.some.inj (found.symm.trans there)
        exact waits
      simpa [IsBalanced, giveSlot, setTask] using stored

theorem balanced_apply {state : State} (balanced : state.IsBalanced total) (move : Move) :
    (state.apply move).IsBalanced total := by
  cases move with
  | addBackground => exact balanced
  | derive parent deadline => exact balanced
  | cancel target =>
      exact balanced.congr (tasks_cancelScope _ _) (limiter_cancelScope _ _)
        (running_cancelScope _ _)
  | openCall context steps =>
      have opened := opened_openCall state context steps
      simp only [apply, IsBalanced, opened.tasks, opened.limiter, opened.running]
      refine Balanced.append balanced fun task member => ?_
      obtain ⟨position, there⟩ := List.getElem?_of_mem member
      rw [getElem?_stepTasks] at there
      obtain ⟨script, _, rfl⟩ := Option.map_eq_some_iff.mp there
      exact ⟨rfl, rfl⟩
  | abortCall id =>
      simp only [apply, abortCall]
      split
      · exact balanced
      · split
        · exact balanced
        · rename_i call _ _
          have marked : State.IsBalanced
              { state with calls := state.calls.set id { call with aborted := true } } total :=
            balanced
          exact balanced_foldl_doom marked call.tasks
  | spawn scope script =>
      have stored : Balanced total (state.tasks ++ [Task.new scope none script state.clock])
          state.limiter state.running := Balanced.append balanced (by simp [Task.new])
      simpa [IsBalanced, apply, spawn] using stored
  | doom id =>
      simp only [apply]
      split
      · exact balanced_doom balanced id
      · exact balanced
  | release id =>
      simp only [apply]
      split
      · exact balanced_release balanced id
      · exact balanced
  | turn worker =>
      simp only [apply]
      split
      · have popped : State.IsBalanced { state with ready := state.ready.erase worker } total :=
          balanced
        cases worker with
        | task id => exact balanced_runTask popped id
        | call id => exact balanced_runCall popped id
      · exact balanced
  | jump time =>
      simp only [apply, jump]
      split
      · exact balanced.congr (tasks_wakeAll _ _) (limiter_wakeAll _ _) (running_wakeAll _ _)
      · exact balanced

theorem IsBalanced.play {state : State} (balanced : state.IsBalanced total) (moves : List Move) :
    (state.play moves).IsBalanced total := by
  induction moves generalizing state with
  | nil => exact balanced
  | cons move moves ih => exact ih (balanced_apply balanced move)

theorem balanced_start {limiter : Limiter} (whole : limiter.free = limiter.capacity)
    (nobody : limiter.line = []) : (start limiter).IsBalanced limiter.capacity := by
  have none_granted : limiter.granted = [] := (List.append_eq_nil_iff.mp nobody).1
  refine ⟨rfl, ?_, rfl, ?_, ?_⟩
  · simp [start, Limiter.unheld, none_granted, whole, sumOf]
  · simp [start, nobody]
  · simp [start, nobody]

end State

end OrderDesk.Schedule
