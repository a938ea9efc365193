import OrderDesk.Proofs.Runs

/-! What the turn of a worker comes to. The turn of a task leaves it blocked, ended or dropped and
touches no other task; the turn of a call enters what has settled and cancels the scope of the
call if there is a failure among it. Everything else that can happen on the way, such as waking,
canceling and passing on slots, only stirs: it moves neither clock nor tasks nor calls. -/

namespace OrderDesk.Schedule

namespace State

structure Stirs (before after : State) : Prop where
  clock : after.clock = before.clock
  tasks : after.tasks = before.tasks
  calls : after.calls = before.calls
  ready : ∀ worker ∈ before.ready, worker ∈ after.ready

theorem Stirs.refl (state : State) : state.Stirs state :=
  ⟨rfl, rfl, rfl, fun _ member => member⟩

theorem Stirs.trans {first second third : State} (earlier : first.Stirs second)
    (later : second.Stirs third) : first.Stirs third :=
  ⟨later.clock.trans earlier.clock, later.tasks.trans earlier.tasks,
    later.calls.trans earlier.calls,
    fun worker member => later.ready worker (earlier.ready worker member)⟩

theorem mem_ready_wake (state : State) (worker : Worker) : worker ∈ (state.wake worker).ready := by
  unfold wake
  split
  · rename_i inLine
    exact List.contains_iff_mem.mp inLine
  · simp

theorem stirs_wake (state : State) (worker : Worker) : state.Stirs (state.wake worker) := by
  unfold wake
  split
  · exact Stirs.refl state
  · exact ⟨rfl, rfl, rfl, fun other member => List.mem_append_left _ member⟩

theorem stirs_wakeAll (state : State) (tasks : List TaskId) :
    state.Stirs (state.wakeAll tasks) := by
  induction tasks generalizing state with
  | nil => exact Stirs.refl state
  | cons task tasks ih => exact (stirs_wake state _).trans (ih (state.wake (.task task)))

theorem mem_ready_wakeAll (state : State) (tasks : List TaskId) (task : TaskId)
    (member : task ∈ tasks) : .task task ∈ (state.wakeAll tasks).ready := by
  induction tasks generalizing state with
  | nil => cases member
  | cons first rest ih =>
      rcases List.mem_cons.mp member with same | later
      · subst same
        exact (stirs_wakeAll (state.wake (.task task)) rest).ready _ (mem_ready_wake state _)
      · exact ih (state.wake (.task first)) later

theorem Stirs.after {first second third : State} (later : second.Stirs third)
    (clock : second.clock = first.clock) (tasks : second.tasks = first.tasks)
    (calls : second.calls = first.calls) (ready : second.ready = first.ready) :
    first.Stirs third :=
  Stirs.trans ⟨clock, tasks, calls, fun _ member => ready ▸ member⟩ later

theorem stirs_cancelScope (state : State) (target : ScopeId) :
    state.Stirs (state.cancelScope target) :=
  Stirs.after (stirs_wakeAll _ _) rfl rfl rfl rfl

theorem stirs_withLimiter (state : State) (change : Limiter × Option TaskId) :
    state.Stirs (state.withLimiter change) := by
  obtain ⟨limiter, woken⟩ := change
  cases woken with
  | none => exact Stirs.after (Stirs.refl { state with limiter := limiter }) rfl rfl rfl rfl
  | some task =>
      exact Stirs.after (stirs_wake { state with limiter := limiter } (.task task)) rfl rfl rfl rfl

theorem stirs_giveSlots (state : State) (count : Nat) : state.Stirs (state.giveSlots count) := by
  induction count generalizing state with
  | zero => exact Stirs.refl state
  | succ count ih => exact (stirs_withLimiter state _).trans (ih state.giveSlot)

theorem stirs_giveBack (state : State) (task : Task) : state.Stirs (state.giveBack task) :=
  Stirs.after (stirs_giveSlots _ _) rfl rfl rfl rfl

end State

structure Task.Continues (before after : Task) : Prop where
  scope : after.scope = before.scope
  duty : after.duty = before.duty
  started : after.started = before.started
  life : after.life = before.life

theorem Task.Continues.trans {first second third : Task} (earlier : first.Continues second)
    (later : second.Continues third) : first.Continues third :=
  ⟨later.scope.trans earlier.scope, later.duty.trans earlier.duty,
    later.started.trans earlier.started, later.life.trans earlier.life⟩

def Ending.Timed (clock started : Nat) : Ending → Prop
  | .returned millis _ => millis = clock - started
  | .crashed _ => True

namespace State

def Advance.Moves (before : State) (task : Task) : Advance → Prop
  | .proceed state next => before.Stirs state ∧ task.Continues next
  | .stop state ending => before.Stirs state ∧ ending.Timed before.clock task.started
  | .wait state next => before.Stirs state ∧ task.Continues next ∧ next.waits = true

theorem stirs_unlisten (state : State) (id : TaskId) : state.Stirs (state.unlisten id) :=
  ⟨rfl, rfl, rfl, fun _ member => member⟩

theorem attempt_moves (state : State) (id : TaskId) (task : Task) (action : Action) :
    (state.attempt id task action).Moves state task := by
  cases action <;> simp only [attempt, stopWith] <;> (repeat' split)
  all_goals simp only [Advance.Moves, Ending.Timed, returned, and_true]
  all_goals first
    | exact ⟨⟨rfl, rfl, rfl, fun _ member => member⟩, ⟨rfl, rfl, rfl, rfl⟩⟩
    | exact ⟨rfl, rfl, rfl, fun _ member => member⟩
    | exact ⟨stirs_withLimiter _ _, ⟨rfl, rfl, rfl, rfl⟩⟩
    | exact ⟨stirs_cancelScope _ _, ⟨rfl, rfl, rfl, rfl⟩⟩

theorem resume_moves (state : State) (id : TaskId) (task : Task) (action : Action)
    (waits : task.waits = true) : (state.resume id task action).Moves state task := by
  have woken := stirs_unlisten state id
  cases action <;> simp only [resume, stopWith] <;> (repeat' split)
  all_goals simp only [Advance.Moves, Ending.Timed, returned]
  all_goals first
    | exact ⟨Stirs.after woken rfl rfl rfl rfl, ⟨rfl, rfl, rfl, rfl⟩⟩
    | exact ⟨Stirs.after woken rfl rfl rfl rfl, rfl⟩
    | exact ⟨Stirs.refl state, ⟨rfl, rfl, rfl, rfl⟩, waits⟩
    | exact ⟨⟨rfl, rfl, rfl, fun _ member => member⟩, ⟨rfl, rfl, rfl, rfl⟩⟩
    | skip
  -- A body that gives up its place in the line of the limiter may pass a slot on.
  have passed := woken.trans
    (stirs_withLimiter (state.unlisten id) ((state.unlisten id).limiter.leave id))
  exact ⟨passed, congrArg (· - task.started) passed.clock⟩

structure Took (before : State) (id : TaskId) (task next : Task) (after : State) : Prop where
  tasks : after.tasks = before.tasks.set id next
  clock : after.clock = before.clock
  ready : ∀ worker ∈ before.ready, worker ∈ after.ready
  scope : next.scope = task.scope
  duty : next.duty = task.duty
  started : next.started = task.started

/-- What the turn of a task comes to: nothing, because it was woken in vain; or it waits; or it
ends and tells its call; or it drops everything. -/
inductive Turned (before : State) (id : TaskId) (after : State) : Prop
  | idle (stale : ∀ task, before.tasks[id]? = some task → task.isFresh = false ∧ task.life ≠ .doomed)
      (same : after = before)
  | blocked (task next : Task) (found : before.tasks[id]? = some task) (live : task.life = .live)
      (took : before.Took id task next after) (life : next.life = .live)
      (waits : next.waits = true) (calls : after.calls = before.calls)
  | ended (task next : Task) (ending : Ending) (found : before.tasks[id]? = some task)
      (live : task.life = .live) (took : before.Took id task next after)
      (life : next.life = .ended before.clock ending)
      (timed : ending.Timed before.clock task.started)
      (calls : after.calls =
        match task.duty with
        | none => before.calls
        | some duty => before.calls.modify duty.call fun call =>
            { call with finished := call.finished ++ [id] })
      (told : ∀ duty, task.duty = some duty → .call duty.call ∈ after.ready)
  | dropped (task next : Task) (found : before.tasks[id]? = some task)
      (doomed : task.life = .doomed) (took : before.Took id task next after)
      (life : next.life = .dropped) (calls : after.calls = before.calls)

theorem turned_finish (before state : State) (id : TaskId) (task current : Task) (ending : Ending)
    (found : before.tasks[id]? = some task) (live : task.life = .live)
    (stirs : before.Stirs state) (continues : task.Continues current)
    (timed : ending.Timed before.clock task.started) :
    before.Turned id (state.finish id current ending) := by
  unfold finish
  cases works : current.duty with
  | none =>
      refine .ended task
        { current with
          script := [], waits := false, wake := none, life := .ended state.clock ending }
        ending found live ⟨?_, stirs.clock, stirs.ready, continues.scope, continues.duty,
        continues.started⟩ ?_ timed ?_ ?_
      · simp [setTask, stirs.tasks, works]
      · simp [stirs.clock]
      · simp [← continues.duty, works, setTask, stirs.calls]
      · simp [← continues.duty, works]
  | some duty =>
      have given := stirs.trans (stirs_giveBack state current)
      have loose : task.duty = some duty := continues.duty ▸ works
      refine .ended task
        { current with
          script := [], waits := false, wake := none, guards := 0, slots := 0
          life := .ended state.clock ending }
        ending found live ⟨?_, ?_, ?_, continues.scope, continues.duty, continues.started⟩ ?_
        timed ?_ ?_
      · simp [report, setTask, stirs.tasks, works]
      · exact (stirs_wake _ _).clock.trans given.clock
      · intro worker member
        exact (stirs_wake _ _).ready worker (given.ready worker member)
      · simp [stirs.clock]
      · simp [loose, report, setTask, stirs.calls]
      · intro other same
        obtain rfl : duty = other := Option.some.inj (loose.symm.trans same)
        exact mem_ready_wake _ _

/-- What every action keeps, working off a script keeps. -/
theorem perform_keeps {id : TaskId} (during : State → Task → Script → Prop)
    (after : State → Prop)
    (attempts : ∀ state task action rest, during state task (action :: rest) →
      match state.attempt id task action with
      | .proceed next advanced => during next advanced rest
      | .stop next ending => after (next.finish id task ending)
      | .wait next waiting => after (next.setTask id { waiting with script := action :: rest }))
    (ends : ∀ state task, during state task [] →
      after (state.finish id task (state.returned task none)))
    (state : State) (task : Task) (script : Script) (first : during state task script) :
    after (state.perform id task script) := by
  induction script generalizing state task with
  | nil => exact ends state task first
  | cons action rest ih =>
      have tried := attempts state task action rest first
      simp only [perform]
      split
      · rename_i next advanced same
        rw [same] at tried
        exact ih next advanced tried
      · rename_i next ending same
        rw [same] at tried
        exact tried
      · rename_i next waiting same
        rw [same] at tried
        exact tried

theorem turned_perform (before state : State) (id : TaskId) (task current : Task) (script : Script)
    (found : before.tasks[id]? = some task) (live : task.life = .live)
    (stirs : before.Stirs state) (continues : task.Continues current) :
    before.Turned id (state.perform id current script) := by
  refine perform_keeps (fun now current _ => before.Stirs now ∧ task.Continues current)
    (before.Turned id) ?_ ?_ state current script ⟨stirs, continues⟩
  · rintro now current action rest ⟨stirs, continues⟩
    have moved := attempt_moves now id current action
    split <;> rename_i same <;> simp only [same, Advance.Moves] at moved
    · exact ⟨stirs.trans moved.1, continues.trans moved.2⟩
    · refine turned_finish before _ id task current _ found live (stirs.trans moved.1) continues ?_
      rw [← stirs.clock, ← continues.started]
      exact moved.2
    · rename_i next waiting
      have stirred := stirs.trans moved.1
      have continued := continues.trans moved.2.1
      refine .blocked task { waiting with script := action :: rest } found live
        ⟨?_, stirred.clock, stirred.ready, continued.scope, continued.duty, continued.started⟩
        (continued.life.trans live) moved.2.2 stirred.calls
      simp [setTask, stirred.tasks]
  · rintro now current ⟨stirs, continues⟩
    refine turned_finish before now id task current _ found live stirs continues ?_
    simp [returned, Ending.Timed, stirs.clock, continues.started]

theorem turned_drop (state : State) (id : TaskId) (task : Task)
    (found : state.tasks[id]? = some task) (doomed : task.life = .doomed) :
    state.Turned id (state.drop id task) := by
  have left := (stirs_unlisten state id).trans
    (stirs_withLimiter (state.unlisten id) ((state.unlisten id).limiter.leave id))
  unfold drop
  cases works : task.duty with
  | none =>
      refine .dropped task { task with script := [], waits := false, wake := none, life := .dropped }
        found doomed ⟨?_, left.clock, left.ready, rfl, rfl, rfl⟩ rfl left.calls
      simp [setTask, works]
  | some duty =>
      have given := left.trans (stirs_giveBack _ task)
      refine .dropped task
        { task with
          script := [], waits := false, wake := none, guards := 0, slots := 0, life := .dropped }
        found doomed ⟨?_, given.clock, given.ready, rfl, rfl, rfl⟩ rfl given.calls
      simp [setTask, works]

theorem turned_runTask (state : State) (id : TaskId) : state.Turned id (state.runTask id) := by
  unfold runTask
  split
  · rename_i missing
    exact .idle (by simp [missing]) rfl
  · rename_i task found
    split
    · rename_i live
      split
      · rename_i action rest waits script
        have moved := resume_moves state id task action waits
        split
        · rename_i next advanced tried
          simp only [tried, Advance.Moves] at moved
          exact turned_perform state next id task advanced rest found live moved.1 moved.2
        · rename_i next ending tried
          simp only [tried, Advance.Moves] at moved
          exact turned_finish state next id task task ending found live moved.1
            ⟨rfl, rfl, rfl, rfl⟩ moved.2
        · refine .idle (fun other same => ?_) rfl
          obtain rfl : task = other := Option.some.inj (found.symm.trans same)
          simp [Task.isFresh, live, waits]
      · exact turned_perform state state id task task task.script found live (Stirs.refl state)
          ⟨rfl, rfl, rfl, rfl⟩
    · rename_i doomed
      exact turned_drop state id task found doomed
    · rename_i notLive notDoomed
      refine .idle (fun other same => ?_) rfl
      obtain rfl : task = other := Option.some.inj (found.symm.trans same)
      refine ⟨?_, notDoomed⟩
      unfold Task.isFresh
      split
      · rename_i live
        exact absurd live notLive
      · rfl

end State

/-! ## The turn of a call -/

def failures (order : List Settled) : List Failure :=
  order.filterMap Settled.outcome

theorem failures_cons_of_none {settled : Settled} (order : List Settled)
    (outcome : settled.outcome = none) : failures (settled :: order) = failures order := by
  simp [failures, outcome]

theorem failures_cons_of_some {settled : Settled} {failure : Failure} (order : List Settled)
    (outcome : settled.outcome = some failure) :
    failures (settled :: order) = failure :: failures order := by
  simp [failures, outcome]

theorem failures_append (first second : List Settled) :
    failures (first ++ second) = failures first ++ failures second :=
  List.filterMap_append

theorem Scopes.cancel_cancel (scopes : Scopes) (target : ScopeId) :
    (scopes.cancel target).cancel target = scopes.cancel target := by
  simp only [Scopes.cancel, List.map_map]
  apply List.map_congr_left
  intro scope _
  by_cases within : scope.lineage.contains target = true
  · simp only [Function.comp, within, if_true]
  · simp only [Function.comp, within, if_false, Bool.false_eq_true]

theorem Scopes.isWithin_cancel (scopes : Scopes) (target scope ancestor : ScopeId) :
    (scopes.cancel target).isWithin scope ancestor = scopes.isWithin scope ancestor := by
  simp only [Scopes.isWithin, Scopes.cancel, List.getElem?_map]
  cases scopes[scope]? with
  | none => rfl
  | some found =>
      by_cases within : found.lineage.contains target = true
      · simp only [Option.map_some, within, if_true]
      · simp only [Option.map_some, within, if_false, Bool.false_eq_true]

namespace State

theorem wake_eq (state : State) (worker : Worker) :
    state.wake worker = { state with ready := (state.wake worker).ready } := by
  unfold wake
  split <;> rfl

theorem wakeAll_eq (state : State) (tasks : List TaskId) :
    state.wakeAll tasks = { state with ready := (state.wakeAll tasks).ready } := by
  induction tasks generalizing state with
  | nil => rfl
  | cons task tasks ih =>
      have later := ih (state.wake (.task task))
      rw [wake_eq state] at later
      simpa only [wakeAll, List.foldl_cons, ← wake_eq state] using later

theorem wakeAll_eq_self (state : State) (tasks : List TaskId)
    (inLine : ∀ task ∈ tasks, .task task ∈ state.ready) : state.wakeAll tasks = state := by
  induction tasks with
  | nil => rfl
  | cons task tasks ih =>
      have first : state.wake (.task task) = state := by
        simp [wake, inLine task (by simp)]
      simp only [wakeAll, List.foldl_cons, first]
      exact ih fun other member => inLine other (by simp [member])

@[simp] theorem clock_jump (state : State) (time : Nat) :
    (state.jump time).clock = max state.clock time := by
  simp only [jump]
  rw [wakeAll_eq]

@[simp] theorem scopes_jump (state : State) (time : Nat) :
    (state.jump time).scopes = state.scopes := by
  simp only [jump]
  rw [wakeAll_eq]

@[simp] theorem tasks_jump (state : State) (time : Nat) :
    (state.jump time).tasks = state.tasks := tasks_wakeAll _ _

@[simp] theorem timers_jump (state : State) (time : Nat) :
    (state.jump time).timers = state.timers.filter fun timer => !(timer.due ≤ time) :=
  timers_wakeAll _ _

@[simp] theorem listeners_jump (state : State) (time : Nat) :
    (state.jump time).listeners = state.listeners := by
  simp only [jump]
  rw [wakeAll_eq]

@[simp] theorem scopes_cancelScope (state : State) (target : ScopeId) :
    (state.cancelScope target).scopes = state.scopes.cancel target := by
  simp only [cancelScope]
  rw [wakeAll_eq]

@[simp] theorem limiter_cancelScope (state : State) (target : ScopeId) :
    (state.cancelScope target).limiter = state.limiter := by
  simp only [cancelScope]
  rw [wakeAll_eq]

@[simp] theorem running_cancelScope (state : State) (target : ScopeId) :
    (state.cancelScope target).running = state.running := by
  simp only [cancelScope]
  rw [wakeAll_eq]

@[simp] theorem listeners_cancelScope (state : State) (target : ScopeId) :
    (state.cancelScope target).listeners = state.listeners := by
  simp only [cancelScope]
  rw [wakeAll_eq]

theorem cancelScope_cancelScope (state : State) (target : ScopeId) :
    (state.cancelScope target).cancelScope target = state.cancelScope target := by
  have same : { state.cancelScope target with
      scopes := (state.cancelScope target).scopes.cancel target } = state.cancelScope target := by
    simp only [scopes_cancelScope, Scopes.cancel_cancel]
    rw [← scopes_cancelScope]
  rw [cancelScope, same]
  apply wakeAll_eq_self
  simp only [listeners_cancelScope, scopes_cancelScope, Scopes.isWithin_cancel]
  exact fun task member => mem_ready_wakeAll _ _ task member

theorem settled?_congr {state other : State} {call again : Call} (tasks : other.tasks = state.tasks)
    (clock : other.clock = state.clock) (started : again.started = call.started) :
    other.settled? again = state.settled? call := by
  funext id
  simp only [settled?, tasks, clock, started]

def hearing (state : State) (scope : ScopeId) (order : List Settled) : State :=
  if failures order = [] then state else state.cancelScope scope

theorem hearing_cons_of_none {settled : Settled} (state : State) (scope : ScopeId)
    (order : List Settled) (outcome : settled.outcome = none) :
    state.hearing scope (settled :: order) = state.hearing scope order := by
  simp only [hearing, failures_cons_of_none order outcome]

theorem hearing_cons_of_some {settled : Settled} {failure : Failure} (state : State)
    (scope : ScopeId) (order : List Settled) (outcome : settled.outcome = some failure) :
    state.hearing scope (settled :: order) = (state.cancelScope scope).hearing scope order := by
  simp only [hearing, failures_cons_of_some order outcome, reduceCtorEq, if_false,
    cancelScope_cancelScope, ite_self]

@[simp] theorem timers_hearing (state : State) (scope : ScopeId) (order : List Settled) :
    (state.hearing scope order).timers = state.timers := by
  unfold hearing
  split
  · rfl
  · exact timers_wakeAll _ _

@[simp] theorem listeners_hearing (state : State) (scope : ScopeId) (order : List Settled) :
    (state.hearing scope order).listeners = state.listeners := by
  unfold hearing
  split
  · rfl
  · exact listeners_cancelScope state scope

theorem stirs_hearing (state : State) (scope : ScopeId) (order : List Settled) :
    state.Stirs (state.hearing scope order) := by
  unfold hearing
  split
  · exact Stirs.refl state
  · exact stirs_cancelScope state scope

/-- The scope of the call is canceled if there is a failure to join, and nothing else happens to
the state; all entries go into the tally in their order. -/
theorem join_eq (state : State) (call : Call) (ids : List TaskId) :
    state.join call ids =
      (state.hearing call.scope (ids.filterMap (state.settled? call)),
      { call with
        tally := (ids.filterMap (state.settled? call)).foldl Tally.settle call.tally
        left := call.left - (ids.filterMap (state.settled? call)).length }) := by
  induction ids generalizing state call with
  | nil => rfl
  | cons id ids ih =>
      simp only [join]
      cases entry : state.settled? call id with
      | none => simp only [ih, List.filterMap_cons_none entry]
      | some settled =>
          let next := { call with tally := call.tally.settle settled, left := call.left - 1 }
          simp only [List.filterMap_cons_some entry, List.foldl_cons, List.length_cons]
          cases outcome : settled.outcome with
          | none =>
              have same : state.settled? next = state.settled? call := settled?_congr rfl rfl rfl
              have joined := ih state next
              rw [same] at joined
              simp only [Option.isSome_none, Bool.false_eq_true, if_false, joined, next,
                hearing_cons_of_none state _ _ outcome, Nat.sub_sub, Nat.add_comm 1]
          | some failure =>
              have stirs := stirs_cancelScope state call.scope
              have same : (state.cancelScope call.scope).settled? next = state.settled? call :=
                settled?_congr stirs.tasks stirs.clock rfl
              have joined := ih (state.cancelScope call.scope) next
              rw [same] at joined
              simp only [Option.isSome_some, if_true, joined, next,
                hearing_cons_of_some state _ _ outcome, Nat.sub_sub, Nat.add_comm 1]

theorem entries_of_going {call : Call} (state : State) (aborted : call.aborted = false)
    (ended : call.ended = none) :
    state.entries call = call.finished.filterMap (state.settled? call) := by
  simp [entries, aborted, ended]

end State

def Call.joining (call : Call) (order : List Settled) (ended : Option (Nat × Option Cause)) :
    Call :=
  { call with
    finished := [], left := call.left - order.length
    tally := order.foldl Tally.settle call.tally, ended := ended }

namespace State

theorem runCall_of_going {state : State} {id : CallId} {call : Call}
    (found : state.calls[id]? = some call) (aborted : call.aborted = false)
    (ended : call.ended = none) :
    state.runCall id =
      let order := state.entries call
      let after := state.hearing call.scope order
      { after with
        calls := state.calls.set id (call.joining order
          (if call.left - order.length = 0 then some (state.clock, after.cause? call.context)
            else none)) } := by
  have going : (call.aborted || call.ended.isSome) = false := by simp [aborted, ended]
  have same : state.settled? { call with finished := [] } = state.settled? call :=
    settled?_congr rfl rfl rfl
  have stirs := stirs_hearing state call.scope (state.entries call)
  rw [entries_of_going state aborted ended] at stirs ⊢
  simp only [runCall, found, going, Bool.false_eq_true, if_false, join_eq, same, stirs.clock,
    stirs.calls, Call.joining]

structure Joins (before : State) (id : CallId) (call : Call) (order : List Settled)
    (stop : Option (Nat × Option Cause)) (after : State) : Prop where
  clock : after.clock = before.clock
  tasks : after.tasks = before.tasks
  ready : ∀ worker ∈ before.ready, worker ∈ after.ready
  scopes : after.scopes =
    if failures order = [] then before.scopes else before.scopes.cancel call.scope
  limiter : after.limiter = before.limiter
  running : after.running = before.running
  calls : after.calls = before.calls.set id (call.joining order stop)
  stops : stop.isSome = true ↔ call.left - order.length = 0
  time : ∀ time cause, stop = some (time, cause) → time = before.clock

theorem joins_runCall {state : State} {id : CallId} {call : Call}
    (found : state.calls[id]? = some call) (aborted : call.aborted = false)
    (ended : call.ended = none) :
    ∃ stop, state.Joins id call (state.entries call) stop (state.runCall id) := by
  have stirs := stirs_hearing state call.scope (state.entries call)
  rw [runCall_of_going found aborted ended]
  refine ⟨_, stirs.clock, stirs.tasks, stirs.ready, ?_, ?_, ?_, rfl, ?_, ?_⟩
  · simp only [hearing]
    split
    · rfl
    · exact scopes_cancelScope state call.scope
  · simp only [hearing]
    split
    · rfl
    · exact limiter_cancelScope state call.scope
  · simp only [hearing]
    split
    · rfl
    · exact running_cancelScope state call.scope
  · split <;> simp [*]
  · intro time cause same
    split at same
    · exact (Prod.mk.inj (Option.some.inj same)).1.symm
    · cases same

theorem runCall_of_over {state : State} {id : CallId} {call : Call}
    (found : state.calls[id]? = some call)
    (stopped : (call.aborted || call.ended.isSome) = true) : state.runCall id = state := by
  simp only [runCall, found, stopped, if_true]

theorem runCall_cases (state : State) (id : CallId) :
    state.runCall id = state ∨
      ∃ call, state.calls[id]? = some call ∧ call.aborted = false ∧ call.ended = none := by
  cases found : state.calls[id]? with
  | none => exact .inl (by simp only [runCall, found])
  | some call =>
      by_cases stopped : (call.aborted || call.ended.isSome) = true
      · exact .inl (runCall_of_over found stopped)
      · simp only [Bool.or_eq_true, not_or, Bool.not_eq_true, Option.isSome_eq_false_iff,
          Option.isNone_iff_eq_none] at stopped
        exact .inr ⟨call, rfl, stopped.1, stopped.2⟩

end State

end OrderDesk.Schedule
