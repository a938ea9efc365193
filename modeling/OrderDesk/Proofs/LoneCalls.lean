import OrderDesk.Proofs.CallBelongings

/-! A call among others, and the same call alone. Alone, its tasks are numbered from the first, and
of all that is in line, of all timers and of all listeners there is only what concerns it, in the
same order. It sees the same clock, the same contexts and the same scope, and it finds at least as
many free slots. As long as nobody waits for a slot, whatever is done to both states at once leaves
one the mirror of the other. -/

namespace OrderDesk.Schedule

def Action.isBlind : Action → Bool
  | .require _ _ => false
  | _ => true

def Task.alone (task : Task) : Task :=
  { task with duty := task.duty.map fun duty => ⟨0, duty.position⟩ }

namespace Task

variable (task : Task)

@[simp] theorem alone_scope : task.alone.scope = task.scope := rfl

@[simp] theorem alone_script : task.alone.script = task.script := rfl

@[simp] theorem alone_waits : task.alone.waits = task.waits := rfl

@[simp] theorem alone_wake : task.alone.wake = task.wake := rfl

@[simp] theorem alone_started : task.alone.started = task.started := rfl

@[simp] theorem alone_guards : task.alone.guards = task.guards := rfl

@[simp] theorem alone_slots : task.alone.slots = task.slots := rfl

@[simp] theorem alone_life : task.alone.life = task.life := rfl

end Task

namespace Realm

def own? (realm : Realm) (id : TaskId) : Option TaskId :=
  if realm.hasTask id then some (id - realm.first) else none

def worker? (realm : Realm) : Worker → Option Worker
  | .task id => (realm.own? id).map .task
  | .call id => if id = realm.call then some (.call 0) else none

def timer? (realm : Realm) (timer : Timer) : Option Timer :=
  (realm.own? timer.task).map (Timer.mk timer.due)

def listener? (realm : Realm) (listener : TaskId × ScopeId) : Option (TaskId × ScopeId) :=
  (realm.own? listener.1).map fun id => (id, listener.2)

def inside (realm : Realm) (call : Call) : Call :=
  { call with
    tasks := call.tasks.map (· - realm.first), finished := call.finished.map (· - realm.first) }

variable {realm : Realm} {position : Nat}

theorem hasTask_place (below : position < realm.size) :
    realm.hasTask (realm.first + position) = true :=
  hasTask_iff.mpr ⟨position, below, rfl⟩

theorem own?_place (below : position < realm.size) :
    realm.own? (realm.first + position) = some position := by
  simp [own?, hasTask_place below]

theorem own?_eq_some {id : TaskId} :
    realm.own? id = some position ↔ position < realm.size ∧ id = realm.first + position := by
  constructor
  · intro named
    unfold own? at named
    split at named
    · rename_i own
      obtain ⟨index, below, rfl⟩ := hasTask_iff.mp own
      obtain rfl : index = position := by simpa using named
      exact ⟨below, rfl⟩
    · cases named
  · rintro ⟨below, rfl⟩
    exact own?_place below

theorem own?_eq_none {id : TaskId} : realm.own? id = none ↔ realm.hasTask id = false := by
  simp [own?]

theorem worker?_eq_none {worker : Worker} :
    realm.worker? worker = none ↔ realm.has worker = false := by
  cases worker with
  | task id => simp [worker?, has, own?_eq_none]
  | call id => simp [worker?, has]

theorem worker?_injective {one other image : Worker} (first : realm.worker? one = some image)
    (second : realm.worker? other = some image) : one = other := by
  cases one <;> cases other <;>
    simp only [worker?, Option.map_eq_some_iff, own?_eq_some, Option.ite_none_right_eq_some,
      Option.some.injEq] at first second
  · obtain ⟨position, ⟨_, rfl⟩, rfl⟩ := first
    obtain ⟨_, ⟨_, rfl⟩, same⟩ := second
    rw [Worker.task.inj same]
  · obtain ⟨position, _, rfl⟩ := first
    cases second.2
  · obtain ⟨position, _, rfl⟩ := second
    cases first.2
  · rw [first.1, second.1]

theorem filterMap_worker?_tasks (realm : Realm) :
    ((List.range' realm.first realm.size).map Worker.task).filterMap realm.worker? =
      (List.range' 0 realm.size).map Worker.task := by
  rw [List.range'_eq_map_range, List.range'_eq_map_range, List.map_map, List.map_map,
    List.filterMap_map, ← List.filterMap_eq_map]
  apply List.filterMap_congr
  intro position member
  simp [Function.comp, worker?, own?_place (List.mem_range.mp member)]

end Realm

namespace Limiter

structure Within (first second : Limiter) : Prop where
  line : first.line = []
  line' : second.line = []
  free : first.free ≤ second.free

variable {first second : Limiter}

theorem give_of_line_eq_nil (empty : first.line = []) :
    first.give = ({ first with free := first.free + 1 }, none) := by
  have waiting : first.waiting = [] := (List.append_eq_nil_iff.mp empty).2
  simp [give, waiting]

theorem leave_of_line_eq_nil (empty : first.line = []) (task : Nat) :
    first.leave task = (first, none) := by
  obtain ⟨granted, waiting⟩ := List.append_eq_nil_iff.mp empty
  obtain ⟨capacity, free, _, _⟩ := first
  simp only at granted waiting
  simp [leave, granted, waiting]

theorem Within.give (within : first.Within second) : first.give.1.Within second.give.1 := by
  rw [give_of_line_eq_nil within.line, give_of_line_eq_nil within.line']
  exact ⟨within.line, within.line', Nat.succ_le_succ within.free⟩

theorem Within.take? (within : first.Within second) {taken : Limiter}
    (took : first.take? = some taken) :
    ∃ taken', second.take? = some taken' ∧ taken.Within taken' := by
  unfold Limiter.take? at took ⊢
  split at took
  · cases took
  · rename_i some_free
    obtain rfl := Option.some.inj took
    have free := within.free
    rw [if_neg (by omega)]
    exact ⟨_, rfl, within.line, within.line', Nat.sub_le_sub_right free 1⟩

end Limiter

namespace State

/-- What is to be seen of the realm in the first state is all there is in the second. -/
structure Mirrors (joint : State) (realm : Realm) (alone : State) : Prop where
  clock : alone.clock = joint.clock
  ready : alone.ready = joint.ready.filterMap realm.worker?
  timers : alone.timers = joint.timers.filterMap realm.timer?
  listeners : alone.listeners = joint.listeners.filterMap realm.listener?
  heard : ∀ listener ∈ joint.listeners, realm.hasTask listener.1 = true → listener.2 = realm.scope
  size : alone.scopes.length = joint.scopes.length
  contexts : ∀ id ∉ joint.bases, alone.scopes[id]? = joint.scopes[id]?
  scope : alone.scopes[realm.scope]? = joint.scopes[realm.scope]?
  limiter : joint.limiter.Within alone.limiter
  count : alone.tasks.length = realm.size
  tasks : ∀ position < realm.size,
    alone.tasks[position]? = joint.tasks[realm.first + position]?.map Task.alone
  calls : alone.calls = (joint.calls[realm.call]?.map realm.inside).toList

variable {realm : Realm} {joint alone : State}

theorem Mirrors.mem_ready (mirrors : joint.Mirrors realm alone) {worker image : Worker}
    (own : realm.worker? worker = some image) : image ∈ alone.ready ↔ worker ∈ joint.ready := by
  rw [mirrors.ready, List.mem_filterMap]
  constructor
  · rintro ⟨other, inLine, named⟩
    exact Realm.worker?_injective named own ▸ inLine
  · exact fun inLine => ⟨worker, inLine, own⟩

theorem Mirrors.wake (mirrors : joint.Mirrors realm alone) {worker image : Worker}
    (own : realm.worker? worker = some image) :
    (joint.wake worker).Mirrors realm (alone.wake image) := by
  have ready : (alone.wake image).ready = (joint.wake worker).ready.filterMap realm.worker? := by
    simp only [State.wake, List.contains_iff_mem, mirrors.mem_ready own]
    split
    · exact mirrors.ready
    · simp [mirrors.ready, own]
  rw [wake_eq joint, wake_eq alone]
  exact { mirrors with ready := ready }

theorem Mirrors.wake_foreign (mirrors : joint.Mirrors realm alone) {worker : Worker}
    (foreign : realm.worker? worker = none) : (joint.wake worker).Mirrors realm alone := by
  have ready : alone.ready = (joint.wake worker).ready.filterMap realm.worker? := by
    unfold State.wake
    split
    · exact mirrors.ready
    · simp [mirrors.ready, foreign]
  rw [wake_eq joint]
  exact { mirrors with ready := ready }

theorem Mirrors.wakeAll (mirrors : joint.Mirrors realm alone) (tasks : List TaskId) :
    (joint.wakeAll tasks).Mirrors realm (alone.wakeAll (tasks.filterMap realm.own?)) := by
  induction tasks generalizing joint alone with
  | nil => exact mirrors
  | cons task tasks ih =>
      cases named : realm.own? task with
      | none =>
          rw [List.filterMap_cons_none named]
          exact ih (mirrors.wake_foreign (by simp [Realm.worker?, named]))
      | some id =>
          rw [List.filterMap_cons_some named]
          exact ih (mirrors.wake (by simp [Realm.worker?, named]))

theorem getElem?_cancel_congr {first second : Scopes} {id : ScopeId}
    (same : second[id]? = first[id]?) (target : ScopeId) :
    (second.cancel target)[id]? = (first.cancel target)[id]? := by
  simp only [Scopes.cancel, List.getElem?_map, same]

theorem isWithin_congr {first second : Scopes} {id : ScopeId}
    (same : second[id]? = first[id]?) (target : ScopeId) :
    second.isWithin id target = first.isWithin id target := by
  simp only [Scopes.isWithin, same]

theorem getElem?_append_congr {first second : Scopes} (size : second.length = first.length)
    {id : ScopeId} (same : second[id]? = first[id]?) (more : Scope) :
    (second ++ [more])[id]? = (first ++ [more])[id]? := by
  simp only [List.getElem?_append, size, same]

theorem getElem?_derive_congr {first second : Scopes} (size : second.length = first.length)
    {parent : ScopeId} (above : second[parent]? = first[parent]?) (deadline : Option Nat)
    {id : ScopeId} (same : second[id]? = first[id]?) :
    (second.derive parent deadline)[id]? = (first.derive parent deadline)[id]? := by
  unfold Scopes.derive
  rw [above, size]
  split <;> exact getElem?_append_congr size same _

theorem length_derive_congr {first second : Scopes} (size : second.length = first.length)
    (parent : ScopeId) (deadline : Option Nat) :
    (second.derive parent deadline).length = (first.derive parent deadline).length := by
  unfold Scopes.derive
  split <;> split <;> simp [size]

theorem Mirrors.hearers (mirrors : joint.Mirrors realm alone) (target : ScopeId) :
    (alone.listeners.filter fun listener => alone.scopes.isWithin listener.2 target).map Prod.fst =
      ((joint.listeners.filter fun listener =>
        joint.scopes.isWithin listener.2 target).map Prod.fst).filterMap realm.own? := by
  rw [mirrors.listeners, List.filter_filterMap, List.map_filterMap, List.filterMap_map,
    List.filterMap_filter]
  apply List.filterMap_congr
  intro listener listed
  cases named : realm.own? listener.1 with
  | none => simp [Realm.listener?, named]
  | some id =>
      have own : realm.hasTask listener.1 = true := by
        by_contra foreign
        rw [Realm.own?_eq_none.mpr (by simpa using foreign)] at named
        cases named
      have same := mirrors.heard listener listed own
      simp only [Realm.listener?, named, Option.map_some, Option.filter_some, Function.comp, same,
        isWithin_congr mirrors.scope]
      split <;> simp

theorem Mirrors.cancelScope (mirrors : joint.Mirrors realm alone) (target : ScopeId) :
    (joint.cancelScope target).Mirrors realm (alone.cancelScope target) := by
  have marked : State.Mirrors { joint with scopes := joint.scopes.cancel target } realm
      { alone with scopes := alone.scopes.cancel target } :=
    { mirrors with
      size := by simp [Scopes.length_cancel, mirrors.size]
      contexts := fun id outside => getElem?_cancel_congr (mirrors.contexts id outside) target
      scope := getElem?_cancel_congr mirrors.scope target }
  have woken := marked.wakeAll ((joint.listeners.filter fun listener =>
    joint.scopes.isWithin listener.2 target).map Prod.fst)
  rw [← mirrors.hearers target] at woken
  exact woken

theorem Mirrors.cause (mirrors : joint.Mirrors realm alone) {id : ScopeId}
    (same : alone.scopes[id]? = joint.scopes[id]?) : alone.cause? id = joint.cause? id := by
  simp only [State.cause?, Scopes.cause?, same, mirrors.clock]

theorem Mirrors.deadline (mirrors : joint.Mirrors realm alone) :
    alone.scopes.deadline? realm.scope = joint.scopes.deadline? realm.scope := by
  rw [Scopes.deadline?, Scopes.deadline?, mirrors.scope]

theorem Mirrors.contains_timers (mirrors : joint.Mirrors realm alone)
    (below : position < realm.size) (due : Nat) :
    alone.timers.contains ⟨due, position⟩ = joint.timers.contains ⟨due, realm.first + position⟩ := by
  rw [Bool.eq_iff_iff, List.contains_iff_mem, List.contains_iff_mem, mirrors.timers,
    List.mem_filterMap]
  constructor
  · rintro ⟨timer, member, named⟩
    obtain ⟨place, own, same⟩ := Option.map_eq_some_iff.mp named
    obtain ⟨rfl, rfl⟩ := Timer.mk.inj same
    obtain ⟨_, equal⟩ := Realm.own?_eq_some.mp own
    exact equal ▸ member
  · intro member
    exact ⟨_, member, by simp [Realm.timer?, Realm.own?_place below]⟩

theorem Mirrors.done (mirrors : joint.Mirrors realm alone) (below : position < realm.size)
    {id : ScopeId} (same : alone.scopes[id]? = joint.scopes[id]?) :
    alone.done? position id = joint.done? (realm.first + position) id := by
  have set : alone.scopes.deadline? id = joint.scopes.deadline? id := by
    rw [Scopes.deadline?, Scopes.deadline?, same]
  simp only [State.done?, Scopes.race, set, same, mirrors.contains_timers below]

theorem Mirrors.withLimiter (mirrors : joint.Mirrors realm alone)
    {first second : Limiter} (within : first.Within second) :
    (joint.withLimiter (first, none)).Mirrors realm (alone.withLimiter (second, none)) :=
  { mirrors with limiter := within }

theorem Mirrors.giveSlot (mirrors : joint.Mirrors realm alone) :
    joint.giveSlot.Mirrors realm alone.giveSlot := by
  have within := mirrors.limiter.give
  unfold State.giveSlot
  rw [Limiter.give_of_line_eq_nil mirrors.limiter.line,
    Limiter.give_of_line_eq_nil mirrors.limiter.line'] at within ⊢
  exact mirrors.withLimiter within

theorem Mirrors.giveSlots (mirrors : joint.Mirrors realm alone) (count : Nat) :
    (joint.giveSlots count).Mirrors realm (alone.giveSlots count) := by
  induction count generalizing joint alone with
  | zero => exact mirrors
  | succ count ih => exact ih mirrors.giveSlot

theorem Mirrors.giveBack (mirrors : joint.Mirrors realm alone) (task : Task) :
    (joint.giveBack task).Mirrors realm (alone.giveBack task.alone) := by
  have counted : State.Mirrors { joint with running := joint.running - task.guards } realm
      { alone with running := alone.running - task.guards } := { mirrors with }
  exact counted.giveSlots task.slots

theorem Mirrors.leave (mirrors : joint.Mirrors realm alone) (id id' : TaskId) :
    (joint.withLimiter (joint.limiter.leave id)).Mirrors realm
      (alone.withLimiter (alone.limiter.leave id')) := by
  rw [Limiter.leave_of_line_eq_nil mirrors.limiter.line,
    Limiter.leave_of_line_eq_nil mirrors.limiter.line']
  exact mirrors.withLimiter mirrors.limiter

variable {position : Nat}

theorem Mirrors.setTimer (mirrors : joint.Mirrors realm alone) (below : position < realm.size)
    (due : Nat) :
    (joint.setTimer (realm.first + position) due).Mirrors realm (alone.setTimer position due) := by
  have timers : alone.timers ++ [Timer.mk due position] =
      (joint.timers ++ [Timer.mk due (realm.first + position)]).filterMap realm.timer? := by
    simp [mirrors.timers, Realm.timer?, Realm.own?_place below]
  exact { mirrors with timers := timers }

theorem Mirrors.listen (mirrors : joint.Mirrors realm alone) (below : position < realm.size)
    {scope : ScopeId} (own : scope = realm.scope) :
    (joint.listen (realm.first + position) scope).Mirrors realm (alone.listen position scope) := by
  subst own
  have listeners : alone.listeners ++ [(position, realm.scope)] =
      (joint.listeners ++ [(realm.first + position, realm.scope)]).filterMap realm.listener? := by
    simp [mirrors.listeners, Realm.listener?, Realm.own?_place below]
  have heard : ∀ listener ∈ joint.listeners ++ [(realm.first + position, realm.scope)],
      realm.hasTask listener.1 = true → listener.2 = realm.scope := by
    intro listener member own
    rcases List.mem_append.mp member with old | new
    · exact mirrors.heard listener old own
    · rw [List.mem_singleton.mp new]
  unfold State.listen
  rw [mirrors.deadline]
  cases joint.scopes.deadline? realm.scope with
  | some due => exact { mirrors.setTimer below due with listeners := listeners, heard := heard }
  | none => exact { mirrors with listeners := listeners, heard := heard }

theorem filter_filterMap_own {α : Type} (items : List α) (key : α → TaskId)
    (rename : α → TaskId → α) (renamed : ∀ item id, key (rename item id) = id) :
    ((items.filterMap fun item => (realm.own? (key item)).map (rename item)).filter
        fun item => key item != position) =
      (items.filter fun item => key item != realm.first + position).filterMap
        fun item => (realm.own? (key item)).map (rename item) := by
  rw [List.filter_filterMap, List.filterMap_filter]
  apply List.filterMap_congr
  intro item _
  cases named : realm.own? (key item) with
  | none => simp
  | some id => simp [(Realm.own?_eq_some.mp named).2, Option.filter, renamed]

theorem Mirrors.unlisten (mirrors : joint.Mirrors realm alone) (position : Nat) :
    (joint.unlisten (realm.first + position)).Mirrors realm (alone.unlisten position) :=
  { mirrors with
    timers := by
      simp only [State.unlisten, mirrors.timers]
      exact filter_filterMap_own joint.timers Timer.task (fun timer => Timer.mk timer.due)
        fun _ _ => rfl
    listeners := by
      simp only [State.unlisten, mirrors.listeners]
      exact filter_filterMap_own joint.listeners Prod.fst (fun listener id => (id, listener.2))
        fun _ _ => rfl
    heard := fun listener member => mirrors.heard listener (List.mem_of_mem_filter member) }

theorem Mirrors.exists_task (mirrors : joint.Mirrors realm alone) (below : position < realm.size) :
    ∃ task, joint.tasks[realm.first + position]? = some task ∧
      alone.tasks[position]? = some task.alone := by
  have there := mirrors.tasks position below
  rw [List.getElem?_eq_getElem (mirrors.count ▸ below)] at there
  obtain ⟨task, found, same⟩ := Option.map_eq_some_iff.mp there.symm
  exact ⟨task, found, by rw [List.getElem?_eq_getElem (mirrors.count ▸ below), same]⟩

theorem Mirrors.setTask (mirrors : joint.Mirrors realm alone) (below : position < realm.size)
    (task : Task) :
    (joint.setTask (realm.first + position) task).Mirrors realm
      (alone.setTask position task.alone) := by
  refine { mirrors with count := ?_, tasks := fun other within => ?_ }
  · simp [State.setTask, mirrors.count]
  · by_cases same : position = other
    · subst same
      obtain ⟨old, found, found'⟩ := mirrors.exists_task below
      simp [State.setTask, (List.getElem?_eq_some_iff.mp found).1,
        (List.getElem?_eq_some_iff.mp found').1]
    · simp [State.setTask, same, mirrors.tasks other within]

theorem Mirrors.report (mirrors : joint.Mirrors realm alone) (position place : Nat) :
    (joint.report (realm.first + position) (some ⟨realm.call, place⟩)).Mirrors realm
      (alone.report position (some ⟨0, place⟩)) := by
  have bases : (joint.calls.modify realm.call fun call =>
      { call with finished := call.finished ++ [realm.first + position] }).map Call.scope =
        joint.bases := map_modify_of_eq _ _ _ _ fun _ => rfl
  have told : State.Mirrors
      { joint with
        calls := joint.calls.modify realm.call fun call =>
          { call with finished := call.finished ++ [realm.first + position] } } realm
      { alone with
        calls := alone.calls.modify 0 fun call =>
          { call with finished := call.finished ++ [position] } } := by
    refine { mirrors with contexts := fun id outside => ?_, calls := ?_ }
    · exact mirrors.contexts id (bases ▸ outside)
    · cases found : joint.calls[realm.call]? with
      | none => simp [mirrors.calls, found]
      | some call => simp [mirrors.calls, found, Realm.inside]
  exact told.wake (by simp [Realm.worker?])

theorem Mirrors.finish (mirrors : joint.Mirrors realm alone) (below : position < realm.size)
    {task : Task} {place : Nat} (works : task.duty = some ⟨realm.call, place⟩) (ending : Ending) :
    (joint.finish (realm.first + position) task ending).Mirrors realm
      (alone.finish position task.alone ending) := by
  have told := ((mirrors.giveBack task).setTask below
    { task with
      script := [], waits := false, wake := none, guards := 0, slots := 0
      life := .ended joint.clock ending }).report position place
  simpa only [State.finish, Task.alone, works, Option.map_some, mirrors.clock] using told

theorem Mirrors.drop (mirrors : joint.Mirrors realm alone) (below : position < realm.size)
    {task : Task} {duty : Duty} (works : task.duty = some duty) :
    (joint.drop (realm.first + position) task).Mirrors realm
      (alone.drop position task.alone) := by
  have left := (mirrors.unlisten position).leave (realm.first + position) position
  have stored := (left.giveBack task).setTask below
    { task with
      script := [], waits := false, wake := none, guards := 0, slots := 0, life := .dropped }
  simpa only [State.drop, Task.alone, works, Option.map_some] using stored

def Advance.Mirrors (realm : Realm) : Advance → Advance → Prop
  | .proceed joint task, .proceed alone other => joint.Mirrors realm alone ∧ other = task.alone
  | .stop joint ending, .stop alone other => joint.Mirrors realm alone ∧ other = ending
  | .wait joint task, .wait alone other => joint.Mirrors realm alone ∧ other = task.alone
  | _, _ => False

theorem Mirrors.stop (mirrors : joint.Mirrors realm alone) (task : Task) (outcome : Outcome) :
    Advance.Mirrors realm (.stop joint (joint.returned task outcome))
      (.stop alone (alone.returned task.alone outcome)) :=
  ⟨mirrors, by simp only [returned, mirrors.clock, Task.alone_started]⟩

/-- A task that tries an action gets as far as it would alone, unless it has to wait for a slot or
looks at how many are free. -/
theorem attempt_mirrors (mirrors : joint.Mirrors realm alone) (below : position < realm.size)
    {task : Task} (scope : task.scope = realm.scope) (works : task.duty.isSome = true)
    {action : Action} (blind : action.isBlind = true) :
    (∃ next waiting, joint.attempt (realm.first + position) task action = .wait next waiting ∧
      next.limiter.line ≠ []) ∨
    Advance.Mirrors realm (joint.attempt (realm.first + position) task action)
      (alone.attempt position task.alone action) := by
  have cause : alone.cause? task.scope = joint.cause? task.scope :=
    scope ▸ mirrors.cause mirrors.scope
  obtain ⟨duty, own⟩ := Option.isSome_iff_exists.mp works
  have own' : task.alone.duty = some ⟨0, duty.position⟩ := by simp [Task.alone, own]
  cases action with
  | require slots failure => cases blind
  | acquire =>
      simp only [attempt, doneAtOnce?_eq, Option.or_self, stopWith, cause, mirrors.clock,
        Task.alone_scope, Task.alone_slots, returned, Task.alone_started]
      split
      · exact .inr ⟨mirrors, rfl⟩
      · cases took : joint.limiter.take? with
        | none => exact .inl ⟨_, _, rfl, by simp [Limiter.line, Limiter.wait]⟩
        | some taken =>
            obtain ⟨taken', took', within⟩ := mirrors.limiter.take? took
            rw [took']
            exact .inr ⟨{ mirrors with clock := rfl, limiter := within }, rfl⟩
  | _ =>
    right
    simp only [attempt, doneAtOnce?_eq, stopWith, returned, cause, mirrors.clock, own, own',
      Task.alone_scope, Task.alone_slots, Task.alone_guards, Task.alone_started]
    repeat' split
    all_goals first
      | exact ⟨mirrors, rfl⟩
      | exact ⟨{ mirrors with clock := rfl }, rfl⟩
      | exact ⟨mirrors.setTimer below _, rfl⟩
      | exact ⟨mirrors.listen below scope, rfl⟩
      | exact ⟨(mirrors.listen below scope).setTimer below _, rfl⟩
      | exact ⟨mirrors.giveSlot, rfl⟩
      | exact ⟨mirrors.cancelScope _, rfl⟩

theorem resume_mirrors (mirrors : joint.Mirrors realm alone) (below : position < realm.size)
    {task : Task} (scope : task.scope = realm.scope) (action : Action) :
    Advance.Mirrors realm (joint.resume (realm.first + position) task action)
      (alone.resume position task.alone action) := by
  have told : alone.done? position task.scope = joint.done? (realm.first + position) task.scope :=
    scope ▸ mirrors.done below mirrors.scope
  have quiet := mirrors.unlisten position
  obtain ⟨granted, _⟩ := List.append_eq_nil_iff.mp mirrors.limiter.line
  obtain ⟨granted', _⟩ := List.append_eq_nil_iff.mp mirrors.limiter.line'
  cases action <;> simp only [resume, stopWith, told, Task.alone_scope, Task.alone_wake,
    mirrors.clock, granted, granted', List.contains_nil, Bool.false_eq_true, if_false] <;>
    (repeat' split)
  all_goals first
    | exact ⟨quiet, rfl⟩
    | exact ⟨mirrors, rfl⟩
    | exact quiet.stop task _
    | exact (quiet.leave _ _).stop task _

/-! ## Turns -/

theorem perform_mirrors (mirrors : joint.Mirrors realm alone) (below : position < realm.size)
    {task : Task} {place : Nat} (scope : task.scope = realm.scope)
    (works : task.duty = some ⟨realm.call, place⟩) {script : Script}
    (blind : ∀ action ∈ script, action.isBlind = true) :
    (joint.perform (realm.first + position) task script).limiter.line ≠ [] ∨
      (joint.perform (realm.first + position) task script).Mirrors realm
        (alone.perform position task.alone script) := by
  induction script generalizing joint alone task with
  | nil =>
      simp only [perform, returned, mirrors.clock, Task.alone_started]
      exact .inr (mirrors.finish below works _)
  | cons action rest ih =>
      have moved := attempt_moves joint (realm.first + position) task action
      simp only [perform]
      rcases attempt_mirrors mirrors below scope (by simp [works])
        (blind action List.mem_cons_self) with
        ⟨next, waiting, waits, queued⟩ | same
      · rw [waits]
        exact .inl queued
      · cases tried : joint.attempt (realm.first + position) task action <;>
          cases tried' : alone.attempt position task.alone action <;>
          simp only [tried, tried', Advance.Mirrors] at same moved ⊢
        · rw [same.2]
          exact ih same.1 (moved.2.scope.trans scope) (moved.2.duty.trans works)
            fun other member => blind other (List.mem_cons_of_mem _ member)
        · rw [same.2]
          exact .inr (same.1.finish below works _)
        · rw [same.2]
          exact .inr (same.1.setTask below _)

theorem runTask_mirrors (mirrors : joint.Mirrors realm alone) (below : position < realm.size)
    {task : Task} {place : Nat} (found : joint.tasks[realm.first + position]? = some task)
    (scope : task.scope = realm.scope) (works : task.duty = some ⟨realm.call, place⟩)
    (blind : ∀ action ∈ task.script, action.isBlind = true) :
    (joint.runTask (realm.first + position)).limiter.line ≠ [] ∨
      (joint.runTask (realm.first + position)).Mirrors realm (alone.runTask position) := by
  have found' : alone.tasks[position]? = some task.alone := by
    rw [mirrors.tasks position below, found, Option.map_some]
  simp only [runTask, found, found', Task.alone_life, Task.alone_waits, Task.alone_script]
  split
  · split
    · rename_i action rest waits script
      have moved := resume_moves joint (realm.first + position) task action waits
      have same := resume_mirrors mirrors below scope action
      cases looked : joint.resume (realm.first + position) task action <;>
        cases looked' : alone.resume position task.alone action <;>
        simp only [looked, looked', Advance.Mirrors] at same moved ⊢
      · rw [same.2]
        exact perform_mirrors same.1 below (moved.2.scope.trans scope) (moved.2.duty.trans works)
          fun other member => blind other (script ▸ List.mem_cons_of_mem _ member)
      · rw [same.2]
        exact .inr (same.1.finish below works _)
      · exact .inr mirrors
    · exact perform_mirrors mirrors below scope works blind
  · exact .inr (mirrors.drop below works)
  · exact .inr mirrors

theorem Mirrors.settled (mirrors : joint.Mirrors realm alone) (below : position < realm.size)
    (call : Call) :
    alone.settled? (realm.inside call) position =
      joint.settled? call (realm.first + position) := by
  obtain ⟨task, found, found'⟩ := mirrors.exists_task below
  simp only [settled?, found, found', Option.bind_eq_bind, Option.bind_some, Task.alone_life,
    mirrors.clock, Realm.inside]
  cases works : task.duty <;> simp [Task.alone, works]

theorem Mirrors.entries (mirrors : joint.Mirrors realm alone) {call : Call}
    (own : ∀ id ∈ call.finished, realm.hasTask id = true) :
    alone.entries (realm.inside call) = joint.entries call := by
  have joined : (call.finished.map (· - realm.first)).filterMap
      (alone.settled? (realm.inside call)) = call.finished.filterMap (joint.settled? call) := by
    rw [List.filterMap_map]
    apply List.filterMap_congr
    intro id member
    obtain ⟨position, below, rfl⟩ := Realm.hasTask_iff.mp (own id member)
    simp only [Function.comp, Nat.add_sub_cancel_left]
    exact mirrors.settled below call
  unfold State.entries
  rw [← joined]
  rfl

theorem Mirrors.hearing (mirrors : joint.Mirrors realm alone) (scope : ScopeId)
    (order : List Settled) :
    (joint.hearing scope order).Mirrors realm (alone.hearing scope order) := by
  unfold State.hearing
  split
  · exact mirrors
  · exact mirrors.cancelScope scope

theorem Mirrors.calls_eq (mirrors : joint.Mirrors realm alone) {call : Call}
    (found : joint.calls[realm.call]? = some call) : alone.calls = [realm.inside call] := by
  rw [mirrors.calls, found, Option.map_some, Option.toList_some]

theorem Mirrors.getElem?_calls (mirrors : joint.Mirrors realm alone) {call : Call}
    (found : joint.calls[realm.call]? = some call) :
    alone.calls[0]? = some (realm.inside call) := by
  rw [mirrors.calls_eq found, List.getElem?_cons_zero]

theorem Mirrors.setCall (mirrors : joint.Mirrors realm alone) {call : Call}
    (found : joint.calls[realm.call]? = some call) (next : Call)
    (scope : next.scope = call.scope) :
    State.Mirrors { joint with calls := joint.calls.set realm.call next } realm
      { alone with calls := alone.calls.set 0 (realm.inside next) } := by
  have bases : (joint.calls.set realm.call next).map Call.scope = joint.bases :=
    map_set_of_eq _ _ _ _ _ found scope
  refine { mirrors with contexts := fun id outside => ?_, calls := ?_ }
  · exact mirrors.contexts id (bases ▸ outside)
  · simp [mirrors.calls_eq found, (List.getElem?_eq_some_iff.mp found).1]

theorem runCall_mirrors (mirrors : joint.Mirrors realm alone) {call : Call}
    (found : joint.calls[realm.call]? = some call)
    (own : ∀ id ∈ call.finished, realm.hasTask id = true)
    (outside : call.context ∉ joint.bases) :
    (joint.runCall realm.call).Mirrors realm (alone.runCall 0) := by
  have found' := mirrors.getElem?_calls found
  by_cases stopped : (call.aborted || call.ended.isSome) = true
  · rw [runCall_of_over found stopped, runCall_of_over found' stopped]
    exact mirrors
  · simp only [Bool.or_eq_true, not_or, Bool.not_eq_true, Option.isSome_eq_false_iff,
      Option.isNone_iff_eq_none] at stopped
    have heard := mirrors.hearing call.scope (joint.entries call)
    have stirs := stirs_hearing joint call.scope (joint.entries call)
    have stirs' := stirs_hearing alone call.scope (joint.entries call)
    have left : (realm.inside call).left = call.left := rfl
    have cause : (alone.hearing (realm.inside call).scope (joint.entries call)).cause?
        (realm.inside call).context =
        (joint.hearing call.scope (joint.entries call)).cause? call.context :=
      heard.cause (heard.contexts call.context (by
        simp only [State.bases, stirs.calls]
        exact outside))
    have stored (ended : Option (Nat × Option Cause)) :=
      heard.setCall ((congrArg (·[realm.call]?) stirs.calls).trans found)
        (call.joining (joint.entries call) ended) rfl
    simp only [stirs.calls, stirs'.calls] at stored
    rw [runCall_of_going found stopped.1 stopped.2, runCall_of_going found' stopped.1 stopped.2,
      mirrors.entries own, left, mirrors.clock]
    dsimp only
    rw [cause]
    exact stored _

theorem Mirrors.doom (mirrors : joint.Mirrors realm alone) (below : position < realm.size) :
    (joint.doom (realm.first + position)).Mirrors realm (alone.doom position) := by
  obtain ⟨task, found, found'⟩ := mirrors.exists_task below
  simp only [State.doom, found, found', Task.alone_life]
  split
  · exact (mirrors.setTask below { task with life := .doomed }).wake
      (by simp [Realm.worker?, Realm.own?_place below])
  · exact mirrors

theorem Mirrors.foldl_doom (mirrors : joint.Mirrors realm alone) {ids : List TaskId}
    (own : ∀ id ∈ ids, realm.hasTask id = true) :
    (ids.foldl State.doom joint).Mirrors realm
      ((ids.map (· - realm.first)).foldl State.doom alone) := by
  induction ids generalizing joint alone with
  | nil => exact mirrors
  | cons id ids ih =>
      obtain ⟨position, below, rfl⟩ := Realm.hasTask_iff.mp (own id (by simp))
      simp only [List.foldl_cons, List.map_cons, Nat.add_sub_cancel_left]
      exact ih (mirrors.doom below) fun other member => own other (by simp [member])

theorem abortCall_mirrors (mirrors : joint.Mirrors realm alone) {call : Call}
    (found : joint.calls[realm.call]? = some call)
    (own : ∀ id ∈ call.tasks, realm.hasTask id = true) :
    (joint.abortCall realm.call).Mirrors realm (alone.abortCall 0) := by
  have found' := mirrors.getElem?_calls found
  by_cases stopped : (call.aborted || call.ended.isSome) = true
  · rw [abortCall_of_over found stopped, abortCall_of_over found' stopped]
    exact mirrors
  · have stopped' : ¬((realm.inside call).aborted || (realm.inside call).ended.isSome) = true :=
      stopped
    simp only [State.abortCall, found, found', stopped, stopped']
    exact (mirrors.setCall found { call with aborted := true } rfl).foldl_doom own

theorem Mirrors.addBackground (mirrors : joint.Mirrors realm alone) :
    joint.addBackground.1.Mirrors realm alone.addBackground.1 := by
  refine { mirrors with size := ?_, contexts := fun id outside => ?_, scope := ?_ }
  · simp [State.addBackground, Scopes.addBackground, mirrors.size]
  · simp only [State.addBackground, Scopes.addBackground, mirrors.size]
    exact getElem?_append_congr mirrors.size (mirrors.contexts id outside) _
  · simp only [State.addBackground, Scopes.addBackground, mirrors.size]
    exact getElem?_append_congr mirrors.size mirrors.scope _

theorem Mirrors.derive (mirrors : joint.Mirrors realm alone) {parent : ScopeId}
    (outside : parent ∉ joint.bases) (deadline : Option Nat) :
    (joint.derive parent deadline).1.Mirrors realm (alone.derive parent deadline).1 :=
  have above := mirrors.contexts parent outside
  { mirrors with
    size := length_derive_congr mirrors.size parent deadline
    contexts := fun id outside =>
      getElem?_derive_congr mirrors.size above deadline (mirrors.contexts id outside)
    scope := getElem?_derive_congr mirrors.size above deadline mirrors.scope }

theorem Mirrors.jump (mirrors : joint.Mirrors realm alone) (time : Nat) :
    (joint.jump time).Mirrors realm (alone.jump time) := by
  have kept (keep : Nat → Bool) : (alone.timers.filter fun timer => keep timer.due) =
      (joint.timers.filter fun timer => keep timer.due).filterMap realm.timer? := by
    rw [mirrors.timers, List.filter_filterMap, List.filterMap_filter]
    apply List.filterMap_congr
    intro timer _
    cases named : realm.own? timer.task <;> simp [Realm.timer?, named, Option.filter]
  have due : (alone.timers.filter fun timer => timer.due ≤ time).map Timer.task =
      ((joint.timers.filter fun timer => timer.due ≤ time).map Timer.task).filterMap
        realm.own? := by
    rw [kept fun due => due ≤ time, List.map_filterMap, List.filterMap_map]
    apply List.filterMap_congr
    intro timer _
    cases named : realm.own? timer.task <;> simp [Realm.timer?, named]
  have passed : State.Mirrors
      { joint with
        clock := max joint.clock time
        timers := joint.timers.filter fun timer => !(timer.due ≤ time) } realm
      { alone with
        clock := max alone.clock time
        timers := alone.timers.filter fun timer => !(timer.due ≤ time) } :=
    { mirrors with
      clock := by simp only [mirrors.clock]
      timers := kept fun due => !(due ≤ time) }
  have woken := passed.wakeAll
    ((joint.timers.filter fun timer => timer.due ≤ time).map Timer.task)
  rw [← due] at woken
  exact woken

theorem Mirrors.canJump (mirrors : joint.Mirrors realm alone) {time : Nat}
    (possible : joint.canJump time = true) : alone.canJump time = true := by
  simp only [State.canJump, Bool.and_eq_true, List.isEmpty_iff, List.all_eq_true,
    decide_eq_true_eq] at possible ⊢
  refine ⟨by rw [mirrors.ready, possible.1, List.filterMap_nil], fun timer member => ?_⟩
  rw [mirrors.timers] at member
  obtain ⟨old, listed, named⟩ := List.mem_filterMap.mp member
  obtain ⟨_, _, rfl⟩ := Option.map_eq_some_iff.mp named
  exact possible.2 old listed

theorem filterMap_eq_of_filter_eq {α β : Type} {first second : List α} {keep : α → Bool}
    {view : α → Option β} (nothing : ∀ item, keep item = false → view item = none)
    (same : first.filter keep = second.filter keep) : first.filterMap view = second.filterMap view := by
  have through (items : List α) : (items.filter keep).filterMap view = items.filterMap view := by
    rw [List.filterMap_filter]
    apply List.filterMap_congr
    intro item _
    cases kept : keep item with
    | true => simp
    | false => simp [nothing item kept]
  rw [← through first, same, through second]

/-- What spares the realm leaves the mirror of it as it is, but for contexts and slots. -/
theorem Mirrors.of_spares (mirrors : joint.Mirrors realm alone) {next : State}
    (spares : joint.Spares realm next) {scopes : Scopes} (size : scopes.length = next.scopes.length)
    (contexts : ∀ id ∉ next.bases, scopes[id]? = next.scopes[id]?)
    (scope : scopes[realm.scope]? = alone.scopes[realm.scope]?)
    (limiter : next.limiter.Within alone.limiter) :
    next.Mirrors realm { alone with scopes := scopes } where
  clock := mirrors.clock.trans spares.clock.symm
  ready := mirrors.ready.trans (filterMap_eq_of_filter_eq
    (fun _ foreign => Realm.worker?_eq_none.mpr foreign) spares.line.symm)
  timers := mirrors.timers.trans (filterMap_eq_of_filter_eq
    (fun _ foreign => by simp [Realm.timer?, Realm.own?_eq_none.mpr foreign]) spares.timers.symm)
  listeners := mirrors.listeners.trans (filterMap_eq_of_filter_eq
    (fun _ foreign => by simp [Realm.listener?, Realm.own?_eq_none.mpr foreign])
    spares.listeners.symm)
  heard := fun listener member own =>
    mirrors.heard listener ((spares.mem_listeners own).mp member) own
  size := size
  contexts := contexts
  scope := scope.trans (mirrors.scope.trans spares.scope.symm)
  limiter := limiter
  count := mirrors.count
  tasks := fun position below => by
    rw [spares.tasks _ (Realm.hasTask_place below)]
    exact mirrors.tasks position below
  calls := by rw [spares.call, mirrors.calls]

theorem sumOf_slots_le (count : alone.tasks.length = realm.size)
    (tasks : ∀ position < realm.size,
      alone.tasks[position]? = joint.tasks[realm.first + position]?.map Task.alone) :
    sumOf Task.slots alone.tasks ≤ sumOf Task.slots joint.tasks := by
  have same : alone.tasks = ((joint.tasks.drop realm.first).take realm.size).map Task.alone := by
    apply List.ext_getElem?
    intro position
    rcases Nat.lt_or_ge position realm.size with below | beyond
    · simp [tasks position below, below]
    · rw [List.getElem?_eq_none (by simpa [count] using beyond), List.getElem?_eq_none]
      simp only [List.length_map, List.length_take]
      omega
  have upper := sumOf_append Task.slots (joint.tasks.take realm.first)
    (joint.tasks.drop realm.first)
  have lower := sumOf_append Task.slots ((joint.tasks.drop realm.first).take realm.size)
    ((joint.tasks.drop realm.first).drop realm.size)
  rw [List.take_append_drop] at upper lower
  have slots : sumOf Task.slots alone.tasks =
      sumOf Task.slots ((joint.tasks.drop realm.first).take realm.size) := by
    rw [same, sumOf_map]
    rfl
  omega

theorem within_of_balanced {total : Nat} (balanced : joint.IsBalanced total)
    (balanced' : alone.IsBalanced total) (line : joint.limiter.line = [])
    (line' : alone.limiter.line = [])
    (fewer : sumOf Task.slots alone.tasks ≤ sumOf Task.slots joint.tasks) :
    joint.limiter.Within alone.limiter := by
  have none_granted : joint.limiter.granted = [] := (List.append_eq_nil_iff.mp line).1
  have none_granted' : alone.limiter.granted = [] := (List.append_eq_nil_iff.mp line').1
  have slots := balanced.slots
  have slots' := balanced'.slots
  simp only [Limiter.unheld, none_granted, none_granted', List.length_nil] at slots slots'
  exact ⟨line, line', by omega⟩

theorem Mirrors.pop (mirrors : joint.Mirrors realm alone) {worker image : Worker}
    (first : joint.ready.head? = some worker) (own : realm.worker? worker = some image) :
    alone.ready.head? = some image ∧
      State.Mirrors { joint with ready := joint.ready.erase worker } realm
        { alone with ready := alone.ready.erase image } := by
  obtain ⟨rest, line⟩ := List.head?_eq_some_iff.mp first
  have line' : alone.ready = image :: rest.filterMap realm.worker? := by
    rw [mirrors.ready, line, List.filterMap_cons_some own]
  refine ⟨by rw [line', List.head?_cons], { mirrors with ready := ?_ }⟩
  rw [line, line', List.erase_cons_head, List.erase_cons_head]

end State

end OrderDesk.Schedule
