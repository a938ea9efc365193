import OrderDesk.Proofs.CallBelongings
import OrderDesk.Proofs.Timetables

/-! A call of timed steps under way. Each of its tasks has not begun, or waits, or has come to what
the timetable says. Those in line to run stand in their order and before the call, so that all that
is due at one time happens before the call hears of it; and timers and listeners stand in their
order too, so that this stays so when time passes or the scope is canceled. -/

namespace OrderDesk

open Schedule

def Schedule.Task.isWaiting (task : Task) : Bool :=
  match task.life with
  | .live => task.waits
  | _ => false

/-- A call of timed steps. The deadline counts from the start. -/
structure Course where
  call : CallId
  context : ScopeId
  scope : ScopeId
  first : Nat
  start : Nat
  deadline : Option Nat
  steps : List TimedStep

namespace Course

def realm (course : Course) : Realm :=
  { call := course.call, context := course.context, scope := course.scope
    first := course.first, size := course.steps.length }

def failure (course : Course) : Option Nat :=
  firstFailure course.deadline course.steps

def fate (course : Course) (step : TimedStep) : Nat × Outcome :=
  step.fate course.deadline course.failure

def scripts (course : Course) : List (String × Script) :=
  course.steps.map fun step => (step.name, step.body)

def fresh (course : Course) (position : Nat) (step : TimedStep) : Task :=
  Task.new course.scope (some ⟨course.call, position⟩) step.body course.start

def waiting (course : Course) (position : Nat) (step : TimedStep) : Task :=
  { course.fresh position step with waits := true, wake := some (course.start + step.millis) }

inductive Stands (course : Course) (state : State) (elapsed position : Nat) (step : TimedStep)
    (task : Task) : Prop
  | fresh (same : task = course.fresh position step) (now : elapsed = 0)
      (inLine : .task (course.first + position) ∈ state.ready)
      (clear : state.isCanceled course.scope = false)
  | waiting (same : task = course.waiting position step) (positive : 0 < step.millis)
      (early : elapsed ≤ step.millis)
      (before_deadline : ∀ time ∈ course.deadline, elapsed ≤ time)
      (before_failure : ∀ time ∈ course.failure, elapsed ≤ time)
      (timer : elapsed < step.millis →
        ⟨course.start + step.millis, course.first + position⟩ ∈ state.timers)
      (alarm : ∀ time ∈ course.deadline, elapsed < time →
        ⟨course.start + time, course.first + position⟩ ∈ state.timers)
      (hears : (course.first + position, course.scope) ∈ state.listeners)
      (stirred : state.isCanceled course.scope = true ∨ elapsed = step.millis ∨
        course.deadline = some elapsed → .task (course.first + position) ∈ state.ready)
      (cut : state.isCanceled course.scope = true →
        course.failure = some elapsed ∧ elapsed < step.millis)
  | done (life : task.life =
        .ended (course.start + (course.fate step).1)
          (.returned (course.fate step).1 (course.fate step).2))
      (past : (course.fate step).1 ≤ elapsed)

/-- The tasks in a list of those that wait for something, in their order. Tasks that have not begun
are still to come. -/
structure Registers (course : Course) (state : State) (ids : List Nat) : Prop where
  own : ∀ id ∈ ids, course.realm.hasTask id = true
  sorted : ids.Pairwise (· ≤ ·)
  waits : ∀ id ∈ ids, ∃ task, state.tasks[id]? = some task ∧ task.isWaiting = true
  ahead : ∀ id ∈ ids, ∀ (other : Nat) (task : Task), course.realm.hasTask other = true →
    state.tasks[other]? = some task → task.isFresh = true → id < other

def settled (course : Course) (history : History) (call : Call) : List Nat :=
  ((history.joinedBy course.call).map fun entry => course.first + entry.position) ++ call.finished

/-- The part of the line that concerns the call: tasks in their order, and then the call. Those that
fail when the first failure comes also take their turns in their order. -/
structure Lined (course : Course) (history : History) (call : Call) (ids : List Nat)
    (last : List Worker) : Prop where
  line : history.state.ready.filter course.realm.has = ids.map Worker.task ++ last
  last : last = [] ∨ last = [.call course.call]
  sorted : ids.Pairwise (· < ·)
  turns : ((course.settled history call ++ ids).filter fun id =>
    isCulprit course.deadline course.steps (id - course.first)).Pairwise (· < ·)

end Course

/-- A call of timed steps has gone on for `elapsed` milliseconds, as the timetable has it. -/
structure OnCourse (course : Course) (elapsed : Nat) (history : History) (call : Call) : Prop where
  tracks : Tracks history course.call course.scripts call
  place : call.scope = course.scope
  started : call.started = course.start
  tasks : call.tasks = List.range' course.first course.steps.length
  going : call.aborted = false
  clock : history.state.clock = course.start + elapsed
  scope : ∃ own, history.state.scopes[course.scope]? = some own ∧
    course.scope ∈ own.lineage ∧ own.deadline.map (· - course.start) = course.deadline
  standing : ∀ (position : Nat) (step : TimedStep), course.steps[position]? = some step →
    ∃ task, history.state.tasks[course.first + position]? = some task ∧
      course.Stands history.state elapsed position step task
  lined : ∃ ids last, course.Lined history call ids last
  timers : course.Registers history.state
    ((history.state.timers.filter fun timer => course.realm.hasTask timer.task).map Timer.task)
  listeners : course.Registers history.state
    ((history.state.listeners.filter fun listener =>
      course.realm.hasTask listener.1).map Prod.fst)
  heard : ∀ listener ∈ history.state.listeners, course.realm.hasTask listener.1 = true →
    listener.2 = course.scope
  failed : failures (history.joinedBy course.call) ≠ [] →
    history.state.isCanceled course.scope = true
  ended : ∀ time cause, call.ended = some (time, cause) →
    time = course.start + callSpan course.deadline course.steps

namespace Course

variable {course : Course} {before after : State} {elapsed position : Nat} {step : TimedStep}
  {task : Task}

theorem hasTask_iff {id : Nat} :
    course.realm.hasTask id = true ↔
      ∃ position step, course.steps[position]? = some step ∧ id = course.first + position := by
  rw [Realm.hasTask_iff]
  constructor
  · rintro ⟨position, bound, rfl⟩
    exact ⟨position, _, List.getElem?_eq_getElem bound, rfl⟩
  · rintro ⟨position, step, placed, rfl⟩
    exact ⟨position, (List.getElem?_eq_some_iff.mp placed).1, rfl⟩

theorem hasTask_of_placed (placed : course.steps[position]? = some step) :
    course.realm.hasTask (course.first + position) = true :=
  hasTask_iff.mpr ⟨position, step, placed, rfl⟩

theorem Stands.congr (stands : course.Stands before elapsed position step task)
    (ready : .task (course.first + position) ∈ before.ready →
      .task (course.first + position) ∈ after.ready)
    (timers : ∀ due, ⟨due, course.first + position⟩ ∈ before.timers →
      ⟨due, course.first + position⟩ ∈ after.timers)
    (listeners : (course.first + position, course.scope) ∈ before.listeners →
      (course.first + position, course.scope) ∈ after.listeners)
    (canceled : after.isCanceled course.scope = before.isCanceled course.scope) :
    course.Stands after elapsed position step task := by
  cases stands with
  | fresh same now inLine clear => exact .fresh same now (ready inLine) (canceled.trans clear)
  | waiting same positive early before_deadline before_failure timer alarm hears stirred cut =>
      refine .waiting same positive early before_deadline before_failure
        (fun due => timers _ (timer due)) (fun time due later => timers _ (alarm time due later))
        (listeners hears) ?_ ?_
      · rw [canceled]
        exact fun reason => ready (stirred reason)
      · rw [canceled]
        exact cut
  | done life past => exact .done life past

theorem Registers.mono {ids fewer : List Nat} (registers : course.Registers before ids)
    (sublist : fewer.Sublist ids)
    (tasks : ∀ id ∈ fewer, after.tasks[id]? = before.tasks[id]?)
    (fresh : ∀ (id : Nat) (task : Task), course.realm.hasTask id = true →
      after.tasks[id]? = some task → task.isFresh = true → before.tasks[id]? = some task) :
    course.Registers after fewer := by
  refine ⟨fun id member => registers.own id (sublist.subset member),
    registers.sorted.sublist sublist, ?_, ?_⟩
  · intro id member
    rw [tasks id member]
    exact registers.waits id (sublist.subset member)
  · intro id member other task own found unbegun
    exact registers.ahead id (sublist.subset member) other task own
      (fresh other task own found unbegun) unbegun

theorem Registers.congr {ids : List Nat} (registers : course.Registers before ids)
    (tasks : ∀ id, course.realm.hasTask id = true → after.tasks[id]? = before.tasks[id]?) :
    course.Registers after ids :=
  registers.mono (List.Sublist.refl ids) (fun id member => tasks id (registers.own id member))
    fun id _ own found _ => (tasks id own).symm.trans found

theorem Registers.concat {ids : List Nat} {id : Nat} (registers : course.Registers after ids)
    (own : course.realm.hasTask id = true) (latest : ∀ other ∈ ids, other ≤ id)
    (waits : ∃ task, after.tasks[id]? = some task ∧ task.isWaiting = true)
    (ahead : ∀ (other : Nat) (task : Task), course.realm.hasTask other = true →
      after.tasks[other]? = some task → task.isFresh = true → id < other) :
    course.Registers after (ids ++ [id]) := by
  refine ⟨?_, ?_, ?_, ?_⟩
  · intro other member
    rcases List.mem_append.mp member with old | new
    · exact registers.own other old
    · exact List.mem_singleton.mp new ▸ own
  · refine List.pairwise_append.mpr ⟨registers.sorted, List.pairwise_singleton _ _, ?_⟩
    intro other member last same
    exact List.mem_singleton.mp same ▸ latest other member
  · intro other member
    rcases List.mem_append.mp member with old | new
    · exact registers.waits other old
    · exact List.mem_singleton.mp new ▸ waits
  · intro other member
    rcases List.mem_append.mp member with old | new
    · exact registers.ahead other old
    · exact List.mem_singleton.mp new ▸ ahead

theorem of_isFresh_set {id other : Nat} {new : Task}
    (tasks : after.tasks = before.tasks.set id new) (begun : new.isFresh = false)
    (found : after.tasks[other]? = some task) (fresh : task.isFresh = true) :
    before.tasks[other]? = some task := by
  rw [tasks, List.getElem?_set] at found
  split at found
  · split at found
    · obtain rfl := Option.some.inj found
      rw [begun] at fresh
      cases fresh
    · cases found
  · exact found

theorem Registers.of_foreign {α : Type} {items : List α} {key : α → Nat}
    (foreign : ∀ item ∈ items, course.realm.hasTask (key item) = false) :
    course.Registers after ((items.filter fun item => course.realm.hasTask (key item)).map key) := by
  have nobody : (items.filter fun item => course.realm.hasTask (key item)) = [] :=
    List.filter_eq_nil_iff.mpr fun item member => Bool.eq_false_iff.mp (foreign item member)
  rw [nobody]
  exact ⟨by simp, List.Pairwise.nil, by simp, by simp⟩

theorem Registers.leave {α : Type} {items : List α} {key : α → Nat} {id : Nat} {new : Task}
    (registers : course.Registers before
      ((items.filter fun item => course.realm.hasTask (key item)).map key))
    (tasks : after.tasks = before.tasks.set id new) (begun : new.isFresh = false) :
    course.Registers after
      (((items.filter fun item => key item != id).filter fun item =>
        course.realm.hasTask (key item)).map key) := by
  refine registers.mono ((List.filter_sublist.filter _).map _) ?_
    fun other task _ found fresh => of_isFresh_set tasks begun found fresh
  intro other member
  simp only [List.mem_map, List.mem_filter, bne_iff_ne] at member
  obtain ⟨item, ⟨⟨_, different⟩, _⟩, rfl⟩ := member
  rw [tasks]
  exact List.getElem?_set_ne different.symm

theorem not_isFresh_of_isWaiting (waits : task.isWaiting = true) : task.isFresh = false := by
  unfold Schedule.Task.isWaiting at waits
  unfold Task.isFresh
  split
  · rename_i live
    simp only [live] at waits
    simp [waits]
  · rfl

theorem Registers.enter {ids : List Nat} {id : Nat} {new : Task}
    (registers : course.Registers before ids) (own : course.realm.hasTask id = true)
    (found : before.tasks[id]? = some task) (unbegun : task.isFresh = true)
    (tasks : after.tasks = before.tasks.set id new) (waits : new.isWaiting = true)
    (ahead : ∀ (other : Nat) (task : Task), course.realm.hasTask other = true →
      after.tasks[other]? = some task → task.isFresh = true → id < other) :
    course.Registers after (ids ++ [id]) := by
  have earlier (other : Nat) (member : other ∈ ids) : other < id :=
    registers.ahead other member id task own found unbegun
  have kept : course.Registers after ids := by
    refine registers.mono (List.Sublist.refl ids) (fun other member => ?_)
      fun other task _ found fresh =>
        of_isFresh_set tasks (not_isFresh_of_isWaiting waits) found fresh
    rw [tasks]
    exact List.getElem?_set_ne (Nat.ne_of_gt (earlier other member))
  have bound := (List.getElem?_eq_some_iff.mp found).1
  refine kept.concat own (fun other member => Nat.le_of_lt (earlier other member)) ⟨new, ?_, waits⟩
    ahead
  rw [tasks]
  exact List.getElem?_set_self bound

theorem Registers.again {ids : List Nat} {id : Nat}
    (registers : course.Registers after (ids ++ [id])) :
    course.Registers after (ids ++ [id] ++ [id]) := by
  have last : id ∈ ids ++ [id] := by simp
  refine registers.concat (registers.own id last) (fun other member => ?_) (registers.waits id last)
    (registers.ahead id last)
  rcases List.mem_append.mp member with old | new
  · exact (List.pairwise_append.mp registers.sorted).2.2 other old id (by simp)
  · exact Nat.le_of_eq (List.mem_singleton.mp new)

theorem settled_congr {history next : History} {call : Call}
    (joined : next.joinedBy course.call = history.joinedBy course.call) :
    course.settled next call = course.settled history call := by
  simp only [settled, joined]

end Course

namespace OnCourse

variable {course : Course} {elapsed : Nat} {history next : History} {call : Call}

theorem cause_eq (onCourse : OnCourse course elapsed history call) {state : State}
    (clock : state.clock = history.state.clock) (scopes : state.scopes = history.state.scopes) :
    state.cause? course.scope =
      if course.deadline.any fun time => time ≤ elapsed then some .deadline
      else if history.state.isCanceled course.scope then some .canceled else none := by
  obtain ⟨own, placed, _, deadline⟩ := onCourse.scope
  simp only [State.cause?, Scopes.cause?, clock, scopes, placed, State.isCanceled, ← deadline,
    onCourse.clock, Option.any_map, Option.any_some]
  cases own.deadline with
  | none => rfl
  | some due =>
      have same : due ≤ course.start + elapsed ↔ due - course.start ≤ elapsed := by omega
      simp [same]

/-- A step that has a timer for the deadline is told in time. -/
theorem done_eq (onCourse : OnCourse course elapsed history call) (sound : history.Sound)
    {position : Nat} {rest : List Worker}
    (alarm : ∀ time ∈ course.deadline, elapsed < time →
      ⟨course.start + time, course.first + position⟩ ∈ history.state.timers) :
    State.done? { history.state with ready := rest } (course.first + position) course.scope =
      State.cause? { history.state with ready := rest } course.scope := by
  have punctual : State.Punctual { history.state with ready := rest } := sound.punctual
  refine punctual.done?_eq fun due set early => ?_
  obtain ⟨own, placed, _, deadline⟩ := onCourse.scope
  have bound : course.start + elapsed < due := onCourse.clock ▸ early
  simp only [Scopes.deadline?, placed, Option.bind_some] at set
  rw [set, Option.map_some] at deadline
  have armed := alarm (due - course.start) deadline.symm (by omega)
  rwa [show course.start + (due - course.start) = due by omega] at armed

/-- Nothing that happens elsewhere brings a call off its course. -/
theorem spares (onCourse : OnCourse course elapsed history call)
    (spares : history.state.Spares course.realm next.state)
    (tracks : Tracks next course.call course.scripts call)
    (joined : next.joinedBy course.call = history.joinedBy course.call) :
    OnCourse course elapsed next call := by
  have canceled : next.state.isCanceled course.scope = history.state.isCanceled course.scope :=
    congrArg (Option.any Scope.canceled) spares.scope
  constructor
  · exact tracks
  · exact onCourse.place
  · exact onCourse.started
  · exact onCourse.tasks
  · exact onCourse.going
  · exact spares.clock.trans onCourse.clock
  · obtain ⟨own, placed, kept⟩ := onCourse.scope
    exact ⟨own, spares.scope.trans placed, kept⟩
  · intro position step placed
    obtain ⟨task, found, stands⟩ := onCourse.standing position step placed
    have own := Course.hasTask_of_placed placed
    have worker : course.realm.has (.task (course.first + position)) = true := own
    refine ⟨task, (spares.tasks _ own).trans found, stands.congr ?_ ?_ ?_ canceled⟩
    · exact (spares.mem_ready worker).mpr
    · exact fun due => (spares.mem_timers own).mpr
    · exact (spares.mem_listeners own).mpr
  · obtain ⟨ids, last, lined⟩ := onCourse.lined
    refine ⟨ids, last, spares.line.trans lined.line, lined.last, lined.sorted, ?_⟩
    rw [Course.settled_congr joined]
    exact lined.turns
  · rw [spares.timers]
    exact onCourse.timers.congr spares.tasks
  · rw [spares.listeners]
    exact onCourse.listeners.congr spares.tasks
  · intro listener member own
    exact onCourse.heard listener ((spares.mem_listeners own).mp member) own
  · rw [joined, canceled]
    exact onCourse.failed
  · exact onCourse.ended

end OnCourse

namespace Course

variable {course : Course} {state : State} {id position : Nat} {step : TimedStep}

theorem perform_rest (state : State) (id : TaskId) (task : Task) (outcome : Outcome) :
    state.perform id task (outcome.map Action.fail).toList =
      state.finish id task (state.returned task outcome) := by
  cases outcome with
  | none => rfl
  | some failure => rfl

theorem runTask_fresh (found : state.tasks[id]? = some (course.fresh position step)) :
    state.runTask id = state.perform id (course.fresh position step) step.body := by
  simp only [State.runTask, found]
  rfl

theorem perform_zero (task : Task) (zero : step.millis = 0) :
    state.perform id task step.body = state.finish id task (state.returned task step.outcome) := by
  simp only [TimedStep.body, State.perform, State.attempt, zero, if_true, perform_rest]

theorem perform_stopped (task : Task) (positive : 0 < step.millis) {cause : Cause}
    (stopped : state.cause? task.scope = some cause) :
    state.perform id task step.body =
      state.finish id task (state.returned task (some (.cancelled cause))) := by
  have some_time : step.millis ≠ 0 := by omega
  simp only [TimedStep.body, State.perform, State.attempt, State.doneAtOnce?_eq, some_time, if_false,
    stopped, State.stopWith]

theorem perform_waits (positive : 0 < step.millis) (now : state.clock = course.start)
    (free : state.cause? course.scope = none) :
    state.perform id (course.fresh position step) step.body =
      ((state.listen id course.scope).setTimer id (course.start + step.millis)).setTask id
        (course.waiting position step) := by
  have some_time : step.millis ≠ 0 := by omega
  have scope : (course.fresh position step).scope = course.scope := rfl
  simp only [TimedStep.body, State.perform, State.attempt, State.doneAtOnce?_eq, some_time, if_false,
    scope, free, now]
  rfl

theorem runTask_waiting (found : state.tasks[id]? = some (course.waiting position step))
    (told : state.done? id course.scope = state.cause? course.scope) :
    state.runTask id =
      match state.cause? course.scope with
      | some cause =>
          (state.unlisten id).finish id (course.waiting position step)
            (state.returned (course.waiting position step) (some (.cancelled cause)))
      | none =>
          if course.start + step.millis ≤ state.clock then
            (state.unlisten id).finish id (course.fresh position step)
              (state.returned (course.fresh position step) step.outcome)
          else state := by
  have scope : (course.waiting position step).scope = course.scope := rfl
  have script : (course.waiting position step).script =
    .wait step.millis :: (step.outcome.map Action.fail).toList := rfl
  have waits : (course.waiting position step).waits = true := rfl
  have life : (course.waiting position step).life = .live := rfl
  have wake : (course.waiting position step).wake = some (course.start + step.millis) := rfl
  simp only [State.runTask, found, life, waits, script, State.resume, scope, told, wake,
    Option.any_some]
  cases state.cause? course.scope with
  | some cause => rfl
  | none =>
      by_cases due : course.start + step.millis ≤ state.clock
      · simp only [due, decide_true, if_true, perform_rest]
        rfl
      · simp only [due, decide_false, if_false, Bool.false_eq_true]

structure Concludes (course : Course) (before : State) (rest : List Worker) (id : Nat)
    (ending : Ending) (after : State) : Prop where
  clock : after.clock = before.clock
  scopes : after.scopes = before.scopes
  tasks : ∃ gone, after.tasks = before.tasks.set id gone ∧
    gone.life = .ended before.clock ending
  calls : after.calls = before.calls.modify course.call fun call =>
    { call with finished := call.finished ++ [id] }
  ready : after.ready = (State.wake { before with ready := rest } (.call course.call)).ready
  timers : after.timers = before.timers.filter fun timer => timer.task != id
  listeners : after.listeners = before.listeners.filter fun listener => listener.1 != id

theorem concludes_finish {rest : List Worker} {task : Task}
    (duty : task.duty = some ⟨course.call, position⟩) (guards : task.guards = 0)
    (slots : task.slots = 0) (ending : Ending) :
    course.Concludes state rest id ending
      ((State.unlisten { state with ready := rest } id).finish id task ending) := by
  simp only [State.finish, duty, State.giveBack, guards, slots, State.giveSlots, State.report,
    State.setTask]
  rw [State.wake_eq]
  refine ⟨rfl, rfl, ⟨_, rfl, rfl⟩, rfl, ?_, rfl, rfl⟩
  by_cases inLine : rest.contains (.call course.call) = true
  · simp only [State.wake, State.unlisten, inLine, if_true]
  · simp only [State.wake, State.unlisten, inLine, Bool.false_eq_true, if_false]

end Course

/-! ## The turns of the tasks -/

theorem Schedule.State.apply_turn_head {state : State} {worker : Worker} {rest : List Worker}
    (head : state.ready = worker :: rest) :
    state.apply (.turn worker) = { state with ready := rest }.run worker := by
  simp [State.apply, head]

namespace Course

variable {course : Course} {history : History} {call : Call} {ids : List Nat}
  {last rest : List Worker} {id : Nat}

theorem Lined.mem (lined : course.Lined history call ids last)
    (own : course.realm.hasTask id = true) (inLine : .task id ∈ history.state.ready) :
    id ∈ ids := by
  have filtered := congrArg (Worker.task id ∈ ·) lined.line
  have mine : course.realm.has (.task id) = true := own
  simp only [List.mem_filter, inLine, mine, true_and, List.mem_append, List.mem_map,
    Worker.task.injEq, exists_eq_right, eq_iff_iff, true_iff] at filtered
  refine filtered.resolve_right fun absurd => ?_
  rcases lined.last with none_left | only
  · simp [none_left] at absurd
  · simp [only] at absurd

theorem Lined.head (lined : course.Lined history call ids last)
    (head : history.state.ready = .task id :: rest) (own : course.realm.hasTask id = true) :
    ∃ others, ids = id :: others ∧
      rest.filter course.realm.has = others.map Worker.task ++ last := by
  have mine : course.realm.has (.task id) = true := own
  have line := lined.line
  rw [head, List.filter_cons_of_pos mine] at line
  cases ids with
  | nil =>
      rcases lined.last with none_left | only
      · simp [none_left] at line
      · simp [only] at line
  | cons first others =>
      simp only [List.map_cons, List.cons_append, List.cons.injEq, Worker.task.injEq] at line
      exact ⟨others, by rw [line.1], line.2⟩

theorem Lined.head_call (lined : course.Lined history call ids last)
    (head : history.state.ready = .call course.call :: rest) :
    ids = [] ∧ rest.filter course.realm.has = [] := by
  have mine : course.realm.has (.call course.call) = true := by simp [Course.realm, Realm.has]
  have line := lined.line
  rw [head, List.filter_cons_of_pos mine] at line
  cases ids with
  | nil =>
      rcases lined.last with none_left | only
      · simp [none_left] at line
      · exact ⟨rfl, by simpa [only] using line⟩
  | cons first others => simp at line

theorem Lined.wake (lined : course.Lined history call ids last) {others : List Nat}
    (line : rest.filter course.realm.has = others.map Worker.task ++ last) :
    (State.wake { history.state with ready := rest } (.call course.call)).ready.filter
      course.realm.has = others.map Worker.task ++ [.call course.call] := by
  have own : course.realm.has (.call course.call) = true := by simp [Course.realm, Realm.has]
  have known : .call course.call ∈ rest ↔ last = [.call course.call] := by
    have filtered := congrArg (Worker.call course.call ∈ ·) line
    simp only [List.mem_filter, own, and_true, List.mem_append, List.mem_map, reduceCtorEq,
      and_false, exists_false, false_or, eq_iff_iff] at filtered
    rw [filtered]
    rcases lined.last with none_left | only
    · simp [none_left]
    · simp [only]
  unfold State.wake
  split
  · rename_i inLine
    rw [line, known.mp (List.contains_iff_mem.mp inLine)]
  · rename_i absent
    have empty : last = [] := lined.last.resolve_right fun only =>
      absent (List.contains_iff_mem.mpr (known.mpr only))
    simp [line, empty, own]

theorem Lined.tail {others : List Nat} (lined : course.Lined history call (id :: others) last)
    {next : History} (joined : next.joinedBy course.call = history.joinedBy course.call)
    (line : next.state.ready.filter course.realm.has = others.map Worker.task ++ last) :
    course.Lined next call others last := by
  refine ⟨line, lined.last, (List.pairwise_cons.mp lined.sorted).2, ?_⟩
  rw [settled_congr joined]
  refine lined.turns.sublist (List.Sublist.filter _ ?_)
  exact (List.Sublist.refl _).append (List.sublist_cons_self id others)

end Course

namespace OnCourse

variable {course : Course} {elapsed position : Nat} {history : History} {call : Call}
  {step : TimedStep} {rest : List Worker}

theorem mem_rest {state : State} {worker other : Worker} (head : state.ready = worker :: rest)
    (different : other ≠ worker) (inLine : other ∈ state.ready) : other ∈ rest := by
  rw [head] at inLine
  exact (List.mem_cons.mp inLine).resolve_left different

theorem turned {next : History} {after : Call} (onCourse : OnCourse course elapsed history call)
    (tracks : Tracks next course.call course.scripts after) (continues : call.Continues after)
    (aborted : after.aborted = call.aborted) (ended : after.ended = call.ended)
    (joined : next.joinedBy course.call = history.joinedBy course.call)
    (clock : next.state.clock = history.state.clock)
    (scopes : next.state.scopes = history.state.scopes)
    (standing : ∀ (position : Nat) (step : TimedStep), course.steps[position]? = some step →
      ∃ task, next.state.tasks[course.first + position]? = some task ∧
        course.Stands next.state elapsed position step task)
    (lined : ∃ ids last, course.Lined next after ids last)
    (timers : course.Registers next.state
      ((next.state.timers.filter fun timer => course.realm.hasTask timer.task).map Timer.task))
    (listeners : course.Registers next.state
      ((next.state.listeners.filter fun listener =>
        course.realm.hasTask listener.1).map Prod.fst))
    (heard : ∀ listener ∈ next.state.listeners, course.realm.hasTask listener.1 = true →
      listener.2 = course.scope) :
    OnCourse course elapsed next after := by
  constructor
  · exact tracks
  · exact continues.scope.trans onCourse.place
  · exact continues.started.trans onCourse.started
  · exact continues.tasks.trans onCourse.tasks
  · exact aborted.trans onCourse.going
  · exact clock.trans onCourse.clock
  · rw [scopes]
    exact onCourse.scope
  · exact standing
  · exact lined
  · exact timers
  · exact listeners
  · exact heard
  · rw [joined, State.isCanceled, scopes]
    exact onCourse.failed
  · rw [ended]
    exact onCourse.ended

theorem standing_set (onCourse : OnCourse course elapsed history call) {state : State} {new : Task}
    (placed : course.steps[position]? = some step)
    (tasks : state.tasks = history.state.tasks.set (course.first + position) new)
    (scopes : state.scopes = history.state.scopes)
    (stands : course.Stands state elapsed position step new)
    (ready : ∀ other, other ≠ .task (course.first + position) →
      other ∈ history.state.ready → other ∈ state.ready)
    (timers : ∀ timer : Timer, timer.task ≠ course.first + position →
      timer ∈ history.state.timers → timer ∈ state.timers)
    (listeners : ∀ listener : TaskId × ScopeId, listener.1 ≠ course.first + position →
      listener ∈ history.state.listeners → listener ∈ state.listeners) :
    ∀ (other : Nat) (step : TimedStep), course.steps[other]? = some step →
      ∃ task, state.tasks[course.first + other]? = some task ∧
        course.Stands state elapsed other step task := by
  intro other step' placed'
  obtain ⟨task, found, stood⟩ := onCourse.standing other step' placed'
  by_cases same : other = position
  · subst same
    obtain rfl : step = step' := Option.some.inj (placed.symm.trans placed')
    refine ⟨new, ?_, stands⟩
    rw [tasks]
    exact List.getElem?_set_self (List.getElem?_eq_some_iff.mp found).1
  · have different : course.first + other ≠ course.first + position := by omega
    refine ⟨task, ?_, stood.congr ?_ ?_ ?_ ?_⟩
    · rw [tasks, List.getElem?_set_ne different.symm]
      exact found
    · exact ready _ (by simpa using different)
    · exact fun due => timers _ different
    · exact listeners _ different
    · simp only [State.isCanceled, scopes]

theorem tracks_turn (onCourse : OnCourse course elapsed history call) (sound : history.Sound)
    {next : History} (turn : next = history.add (.turn (.task (course.first + position))))
    {after : Call} (known : next.state.calls[course.call]? = some after) :
    Tracks next course.call course.scripts after ∧ call.Continues after ∧
      next.joinedBy course.call = history.joinedBy course.call := by
  subst turn
  obtain ⟨same, tracks, continues⟩ := onCourse.tracks.add sound _
  obtain rfl : same = after := Option.some.inj (tracks.found.symm.trans known)
  exact ⟨tracks, continues, history.joinedBy_add_of_ne (by simp)⟩

theorem idle (onCourse : OnCourse course elapsed history call) (sound : history.Sound)
    {next : History} (turn : next = history.add (.turn (.task (course.first + position))))
    (placed : course.steps[position]? = some step)
    (head : history.state.ready = .task (course.first + position) :: rest)
    (still : next.state = { history.state with ready := rest })
    {task : Task} (found : history.state.tasks[course.first + position]? = some task)
    (stands : course.Stands next.state elapsed position step task) :
    OnCourse course elapsed next call := by
  have known : next.state.calls[course.call]? = some call := by
    rw [still]
    exact onCourse.tracks.found
  have tasks : next.state.tasks = history.state.tasks := by rw [still]
  have timers : next.state.timers = history.state.timers := by rw [still]
  have listeners : next.state.listeners = history.state.listeners := by rw [still]
  obtain ⟨tracks, continues, joined⟩ := onCourse.tracks_turn sound turn known
  refine onCourse.turned tracks continues rfl rfl joined (by rw [still]) (by rw [still]) ?_ ?_ ?_
    ?_ ?_
  · refine onCourse.standing_set placed ?_ (by rw [still]) stands ?_ ?_ ?_
    · obtain ⟨bound, here⟩ := List.getElem?_eq_some_iff.mp found
      rw [tasks, ← here, List.set_getElem_self]
    · rw [still]
      exact fun other different => mem_rest head different
    · simp [timers]
    · simp [listeners]
  · obtain ⟨ids, last, lined⟩ := onCourse.lined
    obtain ⟨others, rfl, line⟩ := lined.head head (Course.hasTask_of_placed placed)
    exact ⟨others, last, lined.tail joined (by rw [still]; exact line)⟩
  · rw [timers]
    exact onCourse.timers.congr fun id _ => by rw [tasks]
  · rw [listeners]
    exact onCourse.listeners.congr fun id _ => by rw [tasks]
  · rw [listeners]
    exact onCourse.heard

/-- A task that comes to its end takes its place among those that have ended. -/
theorem conclude (onCourse : OnCourse course elapsed history call) (sound : history.Sound)
    {next : History} (turn : next = history.add (.turn (.task (course.first + position))))
    (placed : course.steps[position]? = some step)
    (head : history.state.ready = .task (course.first + position) :: rest)
    {outcome : Outcome} (fate : course.fate step = (elapsed, outcome))
    (concludes : course.Concludes history.state rest (course.first + position)
      (.returned elapsed outcome) next.state) :
    ∃ after, OnCourse course elapsed next after := by
  have known : next.state.calls[course.call]? =
      some { call with finished := call.finished ++ [course.first + position] } := by
    rw [concludes.calls]
    simp [onCourse.tracks.found]
  obtain ⟨tracks, continues, joined⟩ := onCourse.tracks_turn sound turn known
  obtain ⟨gone, tasks, life⟩ := concludes.tasks
  have begun : gone.isFresh = false := by simp [Task.isFresh, life]
  refine ⟨_, onCourse.turned tracks continues rfl rfl joined concludes.clock concludes.scopes ?_ ?_
    ?_ ?_ ?_⟩
  · refine onCourse.standing_set placed tasks concludes.scopes (.done ?_ ?_) ?_ ?_ ?_
    · rw [life, fate, onCourse.clock]
    · exact Nat.le_of_eq (congrArg Prod.fst fate)
    · intro other different inLine
      rw [concludes.ready]
      exact (State.stirs_wake _ _).ready other (mem_rest head different inLine)
    · intro timer different set
      rw [concludes.timers]
      exact List.mem_filter.mpr ⟨set, by simpa using different⟩
    · intro listener different listed
      rw [concludes.listeners]
      exact List.mem_filter.mpr ⟨listed, by simpa using different⟩
  · obtain ⟨ids, last, lined⟩ := onCourse.lined
    obtain ⟨others, rfl, line⟩ := lined.head head (Course.hasTask_of_placed placed)
    refine ⟨others, [.call course.call], ?_, .inr rfl, (List.pairwise_cons.mp lined.sorted).2, ?_⟩
    · rw [concludes.ready]
      exact lined.wake line
    · have turns := lined.turns
      simp only [Course.settled, joined, List.append_assoc, List.singleton_append] at turns ⊢
      exact turns
  · rw [concludes.timers]
    exact onCourse.timers.leave tasks begun
  · rw [concludes.listeners]
    exact onCourse.listeners.leave tasks begun
  · rw [concludes.listeners]
    exact fun listener listed => onCourse.heard listener (List.mem_of_mem_filter listed)

theorem mem_of_fresh (onCourse : OnCourse course elapsed history call) {ids : List Nat}
    {last : List Worker} (lined : course.Lined history call ids last) {id : Nat} {task : Task}
    (own : course.realm.hasTask id = true) (found : history.state.tasks[id]? = some task)
    (fresh : task.isFresh = true) : id ∈ ids := by
  obtain ⟨position, step, placed, rfl⟩ := Course.hasTask_iff.mp own
  obtain ⟨again, found', stands⟩ := onCourse.standing position step placed
  obtain rfl : task = again := Option.some.inj (found.symm.trans found')
  have inLine : .task (course.first + position) ∈ history.state.ready := by
    cases stands with
    | fresh _ _ inLine _ => exact inLine
    | waiting same => simp [same, Task.isFresh, Course.waiting, Course.fresh, Task.new] at fresh
    | done life => simp [Task.isFresh, life] at fresh
  exact lined.mem own inLine

/-- Whoever has not begun comes later in line than the first, and so will register later. -/
theorem ahead_of_head (onCourse : OnCourse course elapsed history call) {id : Nat}
    {others : List Nat} {last : List Worker} (lined : course.Lined history call (id :: others) last)
    {next : State} {new : Task} (tasks : next.tasks = history.state.tasks.set id new)
    (begun : new.isFresh = false) (other : Nat) (task : Task)
    (own : course.realm.hasTask other = true) (there : next.tasks[other]? = some task)
    (fresh : task.isFresh = true) : id < other := by
  have found := Course.of_isFresh_set tasks begun there fresh
  rcases List.mem_cons.mp (onCourse.mem_of_fresh lined own found fresh) with same | later
  · subst same
    rw [tasks, List.getElem?_set_self (List.getElem?_eq_some_iff.mp found).1] at there
    obtain rfl := Option.some.inj there
    rw [begun] at fresh
    cases fresh
  · exact (List.pairwise_cons.mp lined.sorted).1 other later

theorem timers_listen (onCourse : OnCourse course elapsed history call) {state : State}
    (scopes : state.scopes = history.state.scopes)
    (in_time : ∀ time ∈ course.deadline, elapsed < time) (id due : Nat) :
    ((state.listen id course.scope).setTimer id due).timers = state.timers ++
      (course.deadline.map fun time => Timer.mk (course.start + time) id).toList ++
      [⟨due, id⟩] := by
  obtain ⟨own, there, _, deadline⟩ := onCourse.scope
  simp only [State.setTimer, State.listen, Scopes.deadline?, scopes, there, Option.bind_some]
  cases due : own.deadline with
  | none =>
      have unlimited : course.deadline = none := by simp [← deadline, due]
      simp [unlimited]
  | some time =>
      have limited : course.deadline = some (time - course.start) := by simp [← deadline, due]
      have later := in_time _ limited
      have same : course.start + (time - course.start) = time := by omega
      simp [limited, same]

theorem block (onCourse : OnCourse course elapsed history call) (sound : history.Sound)
    {next : History} (turn : next = history.add (.turn (.task (course.first + position))))
    (placed : course.steps[position]? = some step)
    (head : history.state.ready = .task (course.first + position) :: rest)
    (found : history.state.tasks[course.first + position]? = some (course.fresh position step))
    (now : elapsed = 0) (clear : history.state.isCanceled course.scope = false)
    (positive : 0 < step.millis) (in_time : ∀ time ∈ course.deadline, elapsed < time)
    (blocked : next.state =
      (((State.listen { history.state with ready := rest } (course.first + position)
        course.scope).setTimer (course.first + position) (course.start + step.millis)).setTask
          (course.first + position) (course.waiting position step))) :
    OnCourse course elapsed next call := by
  have own := Course.hasTask_of_placed placed
  have known : next.state.calls[course.call]? = some call := by
    rw [blocked]
    exact onCourse.tracks.found
  have tasks : next.state.tasks =
      history.state.tasks.set (course.first + position) (course.waiting position step) := by
    rw [blocked]
    rfl
  have scopes : next.state.scopes = history.state.scopes := by
    rw [blocked]
    rfl
  have ready : next.state.ready = rest := by
    rw [blocked]
    rfl
  have listeners : next.state.listeners =
      history.state.listeners ++ [(course.first + position, course.scope)] := by
    rw [blocked]
    rfl
  have timers : next.state.timers = history.state.timers ++
      (course.deadline.map fun time =>
        Timer.mk (course.start + time) (course.first + position)).toList ++
      [⟨course.start + step.millis, course.first + position⟩] := by
    rw [blocked]
    exact onCourse.timers_listen (by rfl) in_time _ _
  obtain ⟨tracks, continues, joined⟩ := onCourse.tracks_turn sound turn known
  obtain ⟨ids, last, lined⟩ := onCourse.lined
  obtain ⟨later, rfl, line⟩ := lined.head head own
  have enter {list : List Nat} (registers : course.Registers history.state list) :
      course.Registers next.state (list ++ [course.first + position]) :=
    registers.enter own found rfl tasks rfl (onCourse.ahead_of_head lined tasks rfl)
  have uncanceled : next.state.isCanceled course.scope = false := by
    rw [State.isCanceled, scopes]
    exact clear
  refine onCourse.turned tracks continues rfl rfl joined (by rw [blocked]; rfl) scopes ?_ ?_ ?_ ?_ ?_
  · refine onCourse.standing_set placed tasks scopes ?_ ?_ ?_ ?_
    · refine .waiting rfl positive (by omega) (fun time due => Nat.le_of_lt (in_time time due))
        (by omega) ?_ ?_ ?_ ?_ ?_
      · simp [timers]
      · intro time due _
        simp [timers, Option.mem_def.mp due]
      · simp [listeners]
      · rintro (canceled | zero | due)
        · rw [uncanceled] at canceled
          cases canceled
        · omega
        · exact absurd (in_time elapsed due) (Nat.lt_irrefl _)
      · intro canceled
        rw [uncanceled] at canceled
        cases canceled
    · rw [ready]
      exact fun other different => mem_rest head different
    · rw [timers]
      exact fun timer _ set => List.mem_append_left _ (List.mem_append_left _ set)
    · rw [listeners]
      exact fun listener _ listed => List.mem_append_left _ listed
  · exact ⟨later, last, lined.tail joined (ready ▸ line)⟩
  · -- With a deadline the task sets two timers, one right after the other.
    have once := enter onCourse.timers
    rw [timers]
    cases course.deadline with
    | none => simpa [own] using once
    | some time => simpa [own] using once.again
  · rw [listeners]
    simpa [own] using enter onCourse.listeners
  · intro listener listed mine
    rw [listeners] at listed
    rcases List.mem_append.mp listed with old | new
    · exact onCourse.heard listener old mine
    · rw [List.mem_singleton.mp new]

theorem unlisten_fresh (onCourse : OnCourse course elapsed history call)
    (placed : course.steps[position]? = some step)
    (found : history.state.tasks[course.first + position]? = some (course.fresh position step)) :
    State.unlisten { history.state with ready := rest } (course.first + position) =
      { history.state with ready := rest } := by
  have own := Course.hasTask_of_placed placed
  have absent {list : List Nat} (registers : course.Registers history.state list) :
      course.first + position ∉ list := by
    intro member
    obtain ⟨task, again, waits⟩ := registers.waits _ member
    obtain rfl := Option.some.inj (found.symm.trans again)
    simp [Schedule.Task.isWaiting, Course.fresh, Task.new] at waits
  have timers : (history.state.timers.filter fun timer => timer.task != course.first + position) =
      history.state.timers := by
    refine List.filter_eq_self.mpr fun timer set => ?_
    rw [bne_iff_ne]
    intro same
    exact absent onCourse.timers (List.mem_map.mpr
      ⟨timer, List.mem_filter.mpr ⟨set, same ▸ own⟩, same⟩)
  have listeners : (history.state.listeners.filter fun listener =>
      listener.1 != course.first + position) = history.state.listeners := by
    refine List.filter_eq_self.mpr fun listener listed => ?_
    rw [bne_iff_ne]
    intro same
    exact absent onCourse.listeners (List.mem_map.mpr
      ⟨listener, List.mem_filter.mpr ⟨listed, same ▸ own⟩, same⟩)
  simp only [State.unlisten, timers, listeners]

theorem returned_eq (onCourse : OnCourse course elapsed history call) {state : State} {task : Task}
    (clock : state.clock = history.state.clock) (started : task.started = course.start)
    (outcome : Outcome) : state.returned task outcome = .returned elapsed outcome := by
  simp [State.returned, clock, onCourse.clock, started]

theorem turn_fresh (onCourse : OnCourse course elapsed history call) (sound : history.Sound)
    {next : History} (turn : next = history.add (.turn (.task (course.first + position))))
    (placed : course.steps[position]? = some step)
    (head : history.state.ready = .task (course.first + position) :: rest)
    (found : history.state.tasks[course.first + position]? = some (course.fresh position step))
    (now : elapsed = 0) (clear : history.state.isCanceled course.scope = false) :
    ∃ after, OnCourse course elapsed next after := by
  obtain ⟨popped, same⟩ : ∃ popped : State, popped = { history.state with ready := rest } :=
    ⟨_, rfl⟩
  have ran : next.state =
      popped.perform (course.first + position) (course.fresh position step) step.body := by
    rw [turn, same]
    exact (State.apply_turn_head head).trans (Course.runTask_fresh found)
  have clock : popped.clock = history.state.clock := by rw [same]
  have quiet : popped.unlisten (course.first + position) = popped := by
    rw [same]
    exact onCourse.unlisten_fresh placed found
  have concludes (outcome : Outcome) : course.Concludes history.state rest
      (course.first + position) (.returned elapsed outcome)
      (popped.finish (course.first + position) (course.fresh position step)
        (popped.returned (course.fresh position step) outcome)) := by
    rw [onCourse.returned_eq clock rfl, ← quiet, same]
    exact Course.concludes_finish rfl rfl rfl _
  have cause := onCourse.cause_eq clock (by rw [same])
  by_cases zero : step.millis = 0
  · have fate : course.fate step = (elapsed, step.outcome) := by
      rw [Course.fate, TimedStep.fate_of_isOwn (TimedStep.isOwn_iff.mpr (.inl zero)), zero, now]
    refine onCourse.conclude sound turn placed head fate ?_
    rw [ran, Course.perform_zero _ zero]
    exact concludes _
  · have positive : 0 < step.millis := by omega
    by_cases expired : course.deadline.any (fun time => time ≤ elapsed) = true
    · simp only [expired, if_true] at cause
      obtain ⟨time, due, past⟩ := (Option.any_eq_true _ _).mp expired
      have fate : course.fate step = (elapsed, some (.cancelled .deadline)) := by
        have none_left : time = elapsed := by
          have bound := of_decide_eq_true past
          omega
        exact TimedStep.fate_of_deadline positive (none_left ▸ due) (by omega)
          fun other _ => by omega
      refine onCourse.conclude sound turn placed head fate ?_
      rw [ran, Course.perform_stopped _ positive cause]
      exact concludes _
    · simp only [expired, clear, Bool.false_eq_true, if_false] at cause
      refine ⟨call, onCourse.block sound turn placed head found now clear positive ?_ ?_⟩
      · intro time due
        by_contra past
        exact expired ((Option.any_eq_true _ _).mpr
          ⟨time, due, decide_eq_true (Nat.not_lt.mp past)⟩)
      · rw [ran, Course.perform_waits positive ?_ cause, same]
        rw [clock, onCourse.clock]
        omega

/-- A later turn of a task: the deadline has come, or a failure, or its own time, or nothing. -/
theorem turn_waiting (onCourse : OnCourse course elapsed history call) (sound : history.Sound)
    {next : History} (turn : next = history.add (.turn (.task (course.first + position))))
    (placed : course.steps[position]? = some step)
    (head : history.state.ready = .task (course.first + position) :: rest)
    (found : history.state.tasks[course.first + position]? = some (course.waiting position step))
    (positive : 0 < step.millis) (early : elapsed ≤ step.millis)
    (before_deadline : ∀ time ∈ course.deadline, elapsed ≤ time)
    (before_failure : ∀ time ∈ course.failure, elapsed ≤ time)
    (alarm : ∀ time ∈ course.deadline, elapsed < time →
      ⟨course.start + time, course.first + position⟩ ∈ history.state.timers)
    (cut : history.state.isCanceled course.scope = true →
      course.failure = some elapsed ∧ elapsed < step.millis)
    (stays : elapsed < step.millis → history.state.isCanceled course.scope = false →
      course.deadline ≠ some elapsed →
      course.Stands { history.state with ready := rest } elapsed position step
        (course.waiting position step)) :
    ∃ after, OnCourse course elapsed next after := by
  obtain ⟨popped, same⟩ : ∃ popped : State, popped = { history.state with ready := rest } :=
    ⟨_, rfl⟩
  have ran : next.state = popped.runTask (course.first + position) := by
    rw [turn, same]
    exact State.apply_turn_head head
  have clock : popped.clock = history.state.clock := by rw [same]
  have stopped (outcome : Outcome) : popped.returned (course.waiting position step) outcome =
      .returned elapsed outcome := onCourse.returned_eq clock rfl outcome
  have finished (outcome : Outcome) : popped.returned (course.fresh position step) outcome =
      .returned elapsed outcome := onCourse.returned_eq clock rfl outcome
  rw [Course.runTask_waiting (by rw [same]; exact found) (by rw [same]; exact onCourse.done_eq sound alarm),
    clock, onCourse.clock, onCourse.cause_eq clock (by rw [same])] at ran
  simp only [stopped, finished] at ran
  by_cases expired : course.deadline.any (fun time => time ≤ elapsed) = true
  · obtain ⟨time, due, past⟩ := (Option.any_eq_true _ _).mp expired
    have now : time = elapsed :=
      Nat.le_antisymm (of_decide_eq_true past) (before_deadline time due)
    have fate : course.fate step = (elapsed, some (.cancelled .deadline)) :=
      TimedStep.fate_of_deadline positive (now ▸ due) early before_failure
    refine onCourse.conclude sound turn placed head fate ?_
    simp only [expired, if_true] at ran
    rw [ran, same]
    exact Course.concludes_finish rfl rfl rfl _
  · have in_time : ∀ time ∈ course.deadline, elapsed < time := by
      intro time due
      by_contra past
      exact expired ((Option.any_eq_true _ _).mpr
        ⟨time, due, decide_eq_true (Nat.not_lt.mp past)⟩)
    simp only [expired, Bool.false_eq_true, if_false] at ran
    by_cases canceled : history.state.isCanceled course.scope = true
    · obtain ⟨failed, late⟩ := cut canceled
      have fate : course.fate step = (elapsed, some (.cancelled .canceled)) :=
        TimedStep.fate_of_failure failed late in_time
      refine onCourse.conclude sound turn placed head fate ?_
      simp only [canceled, if_true] at ran
      rw [ran, same]
      exact Course.concludes_finish rfl rfl rfl _
    · simp only [canceled, Bool.false_eq_true, if_false] at ran
      by_cases due : elapsed = step.millis
      · have fate : course.fate step = (elapsed, step.outcome) := by
          rw [due]
          refine TimedStep.fate_of_isOwn (TimedStep.isOwn_iff.mpr (.inr ⟨?_, ?_⟩))
          · exact due ▸ in_time
          · exact due ▸ before_failure
        refine onCourse.conclude sound turn placed head fate ?_
        rw [if_pos (by omega)] at ran
        rw [ran, same]
        exact Course.concludes_finish rfl rfl rfl _
      · rw [if_neg (by omega), same] at ran
        refine ⟨call, onCourse.idle sound turn placed head ran found ?_⟩
        rw [ran]
        refine stays (by omega) (by simpa using canceled) fun expires => ?_
        exact Nat.lt_irrefl _ (in_time elapsed expires)

theorem turn_task (onCourse : OnCourse course elapsed history call) (sound : history.Sound)
    {next : History} (turn : next = history.add (.turn (.task (course.first + position))))
    (placed : course.steps[position]? = some step)
    (head : history.state.ready = .task (course.first + position) :: rest) :
    ∃ after, OnCourse course elapsed next after := by
  obtain ⟨task, found, stands⟩ := onCourse.standing position step placed
  cases stands with
  | fresh same now _ clear =>
      exact onCourse.turn_fresh sound turn placed head (same ▸ found) now clear
  | waiting same positive early before_deadline before_failure timer alarm hears _ cut =>
      refine onCourse.turn_waiting sound turn placed head (same ▸ found) positive early
        before_deadline before_failure alarm cut fun later clear in_time => ?_
      refine .waiting rfl positive early before_deadline before_failure timer alarm hears ?_ cut
      rintro (canceled | due | expired)
      · have absurd := clear.symm.trans canceled
        cases absurd
      · omega
      · exact absurd expired in_time
  | done life past =>
      refine ⟨call, onCourse.idle sound turn placed head ?_ found (.done life past)⟩
      rw [turn]
      refine (State.apply_turn_head head).trans ?_
      simp only [State.run, State.runTask, found, life]

end OnCourse

end OrderDesk
