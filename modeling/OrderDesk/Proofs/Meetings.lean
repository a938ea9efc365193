import OrderDesk.Proofs.Tracking
import OrderDesk.Proofs.TurnSteps

/-! What becomes of a body, and what it meets on the way. A body works off its script from the
front. Whenever it looks at its scope and the scope has ended, it finds the cause. It can end with
nothing but what its script says or a cause that it has found. The same for calls: nobody gives up a
call in passing, and a call ends in its own turn, when it looks at its context once more. -/

namespace OrderDesk.Schedule

/-- Whether an action asks for the cause: in a body that waits in it, or else when it is tried. -/
def Action.asks (waits : Bool) : Action → Bool
  | .wait millis => waits || millis != 0
  | .acquire | .done | .swallow => true
  | .check => !waits
  | _ => false

def Action.failure? : Action → Option Failure
  | .require _ failure | .fail failure => some failure
  | _ => none

def Ending.ComesFrom (script : Script) (met : List Cause) : Ending → Prop
  | .returned _ none => True
  | .returned _ (some failure) =>
      (∃ action ∈ script, action.failure? = some failure) ∨ ∃ cause ∈ met, failure = .cancelled cause
  | .crashed message => .crash message ∈ script

theorem Ending.ComesFrom.mono {script more : Script} {met others : List Cause} {ending : Ending}
    (source : ending.ComesFrom script met) (scripts : script ⊆ more) (causes : met ⊆ others) :
    ending.ComesFrom more others := by
  match ending, source with
  | .returned _ none, _ => trivial
  | .returned _ (some failure), .inl ⟨action, listed, fails⟩ =>
      exact .inl ⟨action, scripts listed, fails⟩
  | .returned _ (some failure), .inr ⟨cause, found, same⟩ => exact .inr ⟨cause, causes found, same⟩
  | .crashed _, listed => exact scripts listed

theorem Ending.comesFrom_cancelled (millis : Nat) (script : Script) {met : List Cause}
    {cause : Cause} (found : cause ∈ met) :
    (Ending.returned millis (some (.cancelled cause))).ComesFrom script met :=
  .inr ⟨cause, found, rfl⟩

def Task.isAttentive (task : Task) : Bool :=
  match task.life, task.script with
  | .live, action :: _ => task.waits && action.asks true
  | _, _ => false

namespace State

/-- What a body finds that asks: it is told if it has waited, or else it looks. -/
def asked (state : State) (id : TaskId) (task : Task) (waits : Bool) (action : Action) :
    List Cause :=
  if action.asks waits then
    (if waits then state.done? id task.scope else state.cause? task.scope).toList
  else []

/-- The causes that a body finds as it works off a script from an action that has not been
tried. -/
def finds (state : State) (id : TaskId) (task : Task) : Script → List Cause
  | [] => []
  | action :: rest =>
      state.asked id task false action ++
        match state.attempt id task action with
        | .proceed next advanced => next.finds id advanced rest
        | _ => []

def met (state : State) (id : TaskId) : List Cause :=
  match state.tasks[id]? with
  | none => []
  | some task =>
      match task.life with
      | .live =>
          match task.waits, task.script with
          | true, action :: rest =>
              state.asked id task true action ++
                match state.resume id task action with
                | .proceed next advanced => next.finds id advanced rest
                | _ => []
          | _, script => state.finds id task script
      | _ => []

inductive Worked (before : State) (task next : Task) (met : List Cause) : Prop
  | blocked (life : next.life = .live) (waits : next.waits = true)
      (front : ∃ action rest, next.script = action :: rest ∧
        (action.asks true = true ∨ ∃ millis, action = .sleep millis))
      (script : next.script <:+ task.script)
  | ended (ending : Ending) (life : next.life = .ended before.clock ending)
      (script : next.script = []) (source : ending.ComesFrom task.script met)

variable {id : TaskId} {task current : Task} {before state : State} {met : List Cause}

/-- A body on its way through its script, which finds all that it finds among `met`. -/
structure Underway (before : State) (id : TaskId) (task : Task) (met : List Cause) (state : State)
    (current : Task) (script : Script) : Prop where
  stirs : before.Stirs state
  continues : task.Continues current
  suffix : script <:+ task.script
  finds : state.finds id current script ⊆ met

def Leaves (before : State) (id : TaskId) (task : Task) (met : List Cause) (after : State) : Prop :=
  ∃ next, after.tasks = before.tasks.set id next ∧ next.scope = task.scope ∧
    next.duty = task.duty ∧ before.Worked task next met

theorem leaves_finish (stirs : before.Stirs state) (continues : task.Continues current)
    {ending : Ending} (source : ending.ComesFrom task.script met) :
    before.Leaves id task met (state.finish id current ending) := by
  have life : Life.ended state.clock ending = .ended before.clock ending := by rw [stirs.clock]
  unfold finish
  split
  · exact ⟨{ current with script := [], waits := false, wake := none, life := .ended state.clock ending },
      by simp only [setTask, stirs.tasks], continues.scope, continues.duty,
      .ended ending life rfl source⟩
  · exact ⟨{ current with
        script := [], waits := false, wake := none, guards := 0, slots := 0
        life := .ended state.clock ending },
      by simp only [report, setTask, tasks_wake, tasks_giveBack, stirs.tasks],
      continues.scope, continues.duty, .ended ending life rfl source⟩

def Advance.ComesFrom (action : Action) (met : List Cause) : Advance → Prop
  | .stop _ ending => ending.ComesFrom [action] met
  | _ => True

theorem attempt_source (state : State) (id : TaskId) (task : Task) (action : Action) :
    (state.attempt id task action).ComesFrom action (state.asked id task false action) := by
  cases action <;> simp only [attempt, stopWith, doneAtOnce?_eq, Option.or_self] <;> (repeat' split)
  all_goals simp only [Advance.ComesFrom, returned]
  all_goals first
    | trivial
    | exact Or.inl ⟨_, List.mem_cons_self, rfl⟩
    | exact List.mem_cons_self
    | (refine Ending.comesFrom_cancelled _ _ ?_; simp_all [asked, Action.asks])

theorem resume_source (state : State) (id : TaskId) (task : Task) (action : Action) :
    (state.resume id task action).ComesFrom action (state.asked id task true action) := by
  cases action <;> simp only [resume, stopWith] <;> (repeat' split)
  all_goals simp only [Advance.ComesFrom, returned]
  all_goals
    refine Ending.comesFrom_cancelled _ _ ?_
    simp_all [asked, Action.asks]

theorem asks_of_attempt {next : Task} {action : Action}
    (waiting : before.attempt id task action = .wait state next) :
    action.asks true = true ∨ ∃ millis, action = .sleep millis := by
  cases action <;> simp only [attempt, stopWith] at waiting <;> (repeat' split at waiting)
  all_goals first
    | exact .inl rfl
    | exact .inr ⟨_, rfl⟩
    | cases waiting

theorem leaves_perform {script : Script} (underway : before.Underway id task met state current script)
    (live : task.life = .live) :
    before.Leaves id task met (state.perform id current script) := by
  refine perform_keeps (before.Underway id task met) (before.Leaves id task met) ?_ ?_
    state current script underway
  · rintro state current action rest ⟨stirs, continues, script, finds⟩
    have moved := attempt_moves state id current action
    have source := attempt_source state id current action
    have first : state.asked id current false action ⊆ met :=
      fun cause found => finds (List.mem_append_left _ found)
    have listed : [action] ⊆ task.script := by
      simpa using script.subset List.mem_cons_self
    split <;> rename_i same <;> rw [same] at moved source
    · refine ⟨stirs.trans moved.1, continues.trans moved.2, ?_, fun cause found => finds ?_⟩
      · exact (List.suffix_cons action rest).trans script
      · refine List.mem_append_right _ ?_
        simpa only [same] using found
    · exact leaves_finish (stirs.trans moved.1) continues (source.mono listed first)
    · rename_i next waiting
      refine ⟨{ waiting with script := action :: rest }, ?_,
        (continues.trans moved.2.1).scope, (continues.trans moved.2.1).duty,
        .blocked ((continues.trans moved.2.1).life.trans live) moved.2.2
          ⟨action, rest, rfl, asks_of_attempt same⟩ script⟩
      simp only [setTask, (stirs.trans moved.1).tasks]
  · rintro state current ⟨stirs, continues, _, _⟩
    exact leaves_finish stirs continues trivial

theorem leaves_runTask (found : state.tasks[id]? = some task) (live : task.life = .live) :
    state.runTask id = state ∨ state.Leaves id task (state.met id) (state.runTask id) := by
  simp only [runTask, found, live]
  split
  · rename_i action rest waits script
    have moved := resume_moves state id task action waits
    have source := resume_source state id task action
    have all : state.met id = state.asked id task true action ++
        match state.resume id task action with
        | .proceed next advanced => next.finds id advanced rest
        | _ => [] := by
      simp only [State.met, found, live, waits, script]
    have listed : [action] ⊆ task.script := by simp [script]
    split
    · rename_i next advanced same
      rw [same] at moved all
      refine .inr (leaves_perform ⟨moved.1, moved.2, ?_, ?_⟩ live)
      · rw [script]
        exact List.suffix_cons action rest
      · rw [all]
        exact List.subset_append_right _ _
    · rename_i same
      rw [same] at moved source
      refine .inr (leaves_finish moved.1 ⟨rfl, rfl, rfl, rfl⟩ (source.mono listed ?_))
      rw [all]
      exact List.subset_append_left _ _
    · exact .inl rfl
  · rename_i script fresh
    refine .inr (leaves_perform ⟨.refl state, ⟨rfl, rfl, rfl, rfl⟩, List.suffix_rfl, ?_⟩ live)
    have all : state.met id = state.finds id task task.script := by
      simp only [State.met, found, live]
    exact all ▸ List.Subset.refl _

/-! ## What is found -/

theorem mem_asked {cause : Cause} {action : Action}
    (found : cause ∈ state.asked id task false action) : state.cause? task.scope = some cause := by
  unfold asked at found
  split at found
  · simpa using found
  · cases found

theorem mem_asked_of_waits {cause : Cause} {action : Action} {rest : Script}
    (live : task.life = .live) (waits : task.waits = true) (script : task.script = action :: rest)
    (told : task.isAttentive = true → state.done? id task.scope = state.cause? task.scope)
    (found : cause ∈ state.asked id task true action) : state.cause? task.scope = some cause := by
  unfold asked at found
  split at found
  · rename_i asks
    rw [← told (by simp [Task.isAttentive, live, script, waits, asks])]
    simpa using found
  · cases found

theorem attempt_scopes (state : State) (id : TaskId) (task : Task) {action : Action}
    (other : action ≠ .cancel) :
    (state.attempt id task action).reached.scopes = state.scopes := by
  have done : Strokes id { task with script := [action] } state
      (state.attempt id task action).reached := by
    refine strokes_attempt .refl ?_ List.mem_cons_self
    rfl
  rcases scopes_of_strokes done with same | ⟨listed, _⟩
  · exact same
  · exact absurd (List.mem_singleton.mp listed).symm other

/-- As long as a body does not cancel its scope, all that it finds is the cause of its scope. -/
theorem mem_finds {cause : Cause} {script : Script} (holds : .cancel ∉ script)
    (found : cause ∈ state.finds id current script) :
    state.cause? current.scope = some cause := by
  induction script generalizing state current with
  | nil => cases found
  | cons action rest ih =>
      rcases List.mem_append.mp found with early | late
      · exact mem_asked early
      · have moved := attempt_moves state id current action
        have scopes := attempt_scopes state id current fun same => holds (same ▸ List.mem_cons_self)
        split at late
        · rename_i next advanced same
          rw [same] at moved scopes
          have later := ih (fun listed => holds (List.mem_cons_of_mem _ listed)) late
          rw [State.cause?, moved.1.clock, moved.2.scope] at later
          rwa [State.cause?, ← scopes]
        · cases late

theorem mem_met {cause : Cause} (present : state.tasks[id]? = some task)
    (holds : .cancel ∉ task.script)
    (told : task.isAttentive = true → state.done? id task.scope = state.cause? task.scope)
    (found : cause ∈ state.met id) :
    task.life = .live ∧ state.cause? task.scope = some cause := by
  simp only [State.met, present] at found
  split at found
  · rename_i live
    refine ⟨live, ?_⟩
    split at found
    · rename_i action rest waits script
      rcases List.mem_append.mp found with early | late
      · exact mem_asked_of_waits live waits script told early
      · have moved := resume_moves state id task action waits
        have scopes := resume_scopes state id task action
        split at late
        · rename_i next advanced same
          rw [same] at moved scopes
          have later := mem_finds (fun listed => holds (script ▸ List.mem_cons_of_mem _ listed)) late
          rw [State.cause?, moved.1.clock, moved.2.scope] at later
          rwa [State.cause?, ← scopes]
        · cases late
    · exact mem_finds holds found
  · cases found

/-- What a move makes of a task: nothing, or it is the turn of the task, or the task has been told
to drop everything, or it has done so. Of the tasks with a duty only those of a call that is given
up are told. -/
inductive Evolves (state : State) (move : Move) (id : TaskId) (task next : Task) : Prop
  | same (life : next.life = task.life) (script : next.script = task.script)
      (waits : next.waits = task.waits)
  | worked (turn : move = .turn (.task id)) (inLine : .task id ∈ state.ready)
      (live : task.life = .live)
      (worked : state.Worked task next
        (State.met { state with ready := state.ready.erase (.task id) } id))
  | doomed (live : task.life = .live) (life : next.life = .doomed) (script : next.script = task.script)
      (waits : next.waits = task.waits)
      (given : ∀ duty, task.duty = some duty → ∃ call,
        (state.apply move).calls[duty.call]? = some call ∧ call.aborted = true)
  | dropped (doomed : task.life = .doomed) (life : next.life = .dropped) (script : next.script = [])

structure Becomes (state : State) (move : Move) (id : TaskId) (task next : Task) : Prop where
  found : (state.apply move).tasks[id]? = some next
  scope : next.scope = task.scope
  duty : next.duty = task.duty
  evolves : state.Evolves move id task next

theorem becomes_of_unmoved {move : Move} (found : (state.apply move).tasks[id]? = some task) :
    state.Becomes move id task task :=
  ⟨found, rfl, rfl, .same rfl rfl rfl⟩

theorem exists_becomes_of_doomed (move : Move) {marked : State} {ids : List TaskId}
    (doomed : marked.Doomed ids (state.apply move)) (found : marked.tasks[id]? = some task)
    (given : id ∈ ids → ∀ duty, task.duty = some duty → ∃ call,
      (state.apply move).calls[duty.call]? = some call ∧ call.aborted = true) :
    ∃ next, state.Becomes move id task next := by
  by_cases hit : id ∈ ids ∧ task.life = .live
  · exact ⟨_, (doomed.live id hit.1 task found hit.2).1, rfl, rfl,
      .doomed hit.2 rfl rfl rfl (given hit.1)⟩
  · exact ⟨task, becomes_of_unmoved (doomed.other id task found fun member live => hit ⟨member, live⟩)⟩

theorem exists_becomes_abortCall (wired : state.Wired) (call : CallId)
    (found : state.tasks[id]? = some task) :
    ∃ next, state.Becomes (.abortCall call) id task next := by
  cases known : state.calls[call]? with
  | none =>
      refine ⟨task, becomes_of_unmoved ?_⟩
      simpa only [apply, abortCall, known] using found
  | some record =>
      by_cases stopped : (record.aborted || record.ended.isSome) = true
      · refine ⟨task, becomes_of_unmoved ?_⟩
        rw [apply, abortCall_of_over known stopped]
        exact found
      · have doomed := abortCall_of_going known (Bool.not_eq_true _ ▸ stopped)
        refine exists_becomes_of_doomed (.abortCall call) doomed found ?_
        intro member duty works
        obtain ⟨position, placed⟩ := List.getElem?_of_mem member
        obtain ⟨again, present, own⟩ := (wired id call position).mpr ⟨record, known, placed⟩
        obtain rfl : task = again := Option.some.inj (found.symm.trans present)
        obtain rfl := Option.some.inj (works.symm.trans own)
        refine ⟨{ record with aborted := true }, ?_, rfl⟩
        rw [apply, doomed.calls]
        exact List.getElem?_set_self (List.getElem?_eq_some_iff.mp known).1

theorem exists_becomes_release (other : TaskId) (found : state.tasks[id]? = some task) :
    ∃ next, state.Becomes (.release other) id task next := by
  by_cases loose : state.isLoose other = true
  · have unfolded : state.apply (.release other) = state.release other := by simp [apply, loose]
    cases known : state.tasks[other]? with
    | none =>
        refine ⟨task, becomes_of_unmoved ?_⟩
        rw [unfolded]
        simpa only [release, known] using found
    | some holder =>
        by_cases empty : holder.slots = 0
        · refine ⟨task, becomes_of_unmoved ?_⟩
          rw [unfolded]
          simpa only [release, known, empty, if_true] using found
        · have tasks : (state.apply (.release other)).tasks =
              state.tasks.set other { holder with slots := holder.slots - 1 } := by
            rw [unfolded]
            simp only [release, known, empty, if_false, tasks_giveSlot, setTask]
          by_cases same : other = id
          · subst same
            obtain rfl : task = holder := Option.some.inj (found.symm.trans known)
            refine ⟨{ task with slots := task.slots - 1 }, ?_, rfl, rfl, .same rfl rfl rfl⟩
            rw [tasks]
            exact List.getElem?_set_self (List.getElem?_eq_some_iff.mp found).1
          · refine ⟨task, becomes_of_unmoved ?_⟩
            rw [tasks, List.getElem?_set_ne same]
            exact found
  · refine ⟨task, becomes_of_unmoved ?_⟩
    simpa [apply, loose] using found

theorem exists_tasks_drop (state : State) (id : TaskId) (task : Task) :
    ∃ next, (state.drop id task).tasks = state.tasks.set id next ∧ next.scope = task.scope ∧
      next.duty = task.duty ∧ next.life = .dropped ∧ next.script = [] := by
  unfold drop
  split
  · exact ⟨{ task with script := [], waits := false, wake := none, life := .dropped },
      by simp [setTask, unlisten], rfl, rfl, rfl, rfl⟩
  · exact ⟨{ task with
        script := [], waits := false, wake := none, guards := 0, slots := 0, life := .dropped },
      by simp [setTask, unlisten], rfl, rfl, rfl, rfl⟩

theorem exists_becomes_turn_own (inLine : .task id ∈ state.ready)
    (found : state.tasks[id]? = some task) :
    ∃ next, state.Becomes (.turn (.task id)) id task next := by
  let popped : State := { state with ready := state.ready.erase (.task id) }
  have unfolded : state.apply (.turn (.task id)) = popped.runTask id := if_pos inLine
  have present : popped.tasks[id]? = some task := found
  have bound := (List.getElem?_eq_some_iff.mp found).1
  cases life : task.life with
  | live =>
      rcases leaves_runTask present life with still | ⟨next, tasks, scope, duty, worked⟩
      · refine ⟨task, becomes_of_unmoved ?_⟩
        rw [unfolded, still]
        exact found
      · refine ⟨next, ?_, scope, duty, .worked rfl inLine life ?_⟩
        · rw [unfolded, tasks]
          exact List.getElem?_set_self bound
        · cases worked with
          | blocked life waits front script => exact .blocked life waits front script
          | ended ending life script source => exact .ended ending life script source
  | doomed =>
      obtain ⟨next, tasks, scope, duty, life', script⟩ := exists_tasks_drop popped id task
      refine ⟨next, ?_, scope, duty, .dropped life life' script⟩
      simp only [unfolded, runTask, present, life, tasks]
      exact List.getElem?_set_self bound
  | ended time ending =>
      refine ⟨task, becomes_of_unmoved ?_⟩
      rw [unfolded]
      simp only [runTask, present, life]
  | dropped =>
      refine ⟨task, becomes_of_unmoved ?_⟩
      rw [unfolded]
      simp only [runTask, present, life]

theorem getElem?_tasks_runTask {other : TaskId} (apart : other ≠ id)
    (found : state.tasks[id]? = some task) : (state.runTask other).tasks[id]? = some task := by
  have elsewhere (next : Task) : (state.tasks.set other next)[id]? = some task := by
    rw [List.getElem?_set_ne apart]
    exact found
  cases turned_runTask state other with
  | idle _ still => exact still.symm ▸ found
  | blocked _ next _ _ took _ _ _ => exact took.tasks ▸ elsewhere next
  | ended _ next _ _ _ took _ _ _ _ => exact took.tasks ▸ elsewhere next
  | dropped _ next _ _ took _ _ => exact took.tasks ▸ elsewhere next

theorem exists_becomes_turn (worker : Worker) (found : state.tasks[id]? = some task) :
    ∃ next, state.Becomes (.turn worker) id task next := by
  by_cases inLine : worker ∈ state.ready
  · let popped : State := { state with ready := state.ready.erase worker }
    have unfolded : state.apply (.turn worker) = popped.run worker := if_pos inLine
    cases worker with
    | call other =>
        refine ⟨task, becomes_of_unmoved ?_⟩
        rw [unfolded]
        rcases runCall_cases popped other with same | ⟨call, known, aborted, ended⟩
        · simp only [run, same]
          exact found
        · obtain ⟨stop, turned⟩ := joins_runCall known aborted ended
          simp only [run, turned.tasks]
          exact found
    | task other =>
        by_cases same : other = id
        · subst same
          exact exists_becomes_turn_own inLine found
        · refine ⟨task, becomes_of_unmoved ?_⟩
          rw [unfolded, run]
          exact getElem?_tasks_runTask same found
  · refine ⟨task, becomes_of_unmoved ?_⟩
    simpa [apply, inLine] using found

/-- Whatever happens, a task keeps its scope and its duty and goes on as it says. -/
theorem exists_becomes (wired : state.Wired) (move : Move) (found : state.tasks[id]? = some task) :
    ∃ next, state.Becomes move id task next := by
  have bound := (List.getElem?_eq_some_iff.mp found).1
  cases move with
  | addBackground => exact ⟨task, becomes_of_unmoved found⟩
  | derive parent deadline => exact ⟨task, becomes_of_unmoved found⟩
  | cancel target =>
      refine ⟨task, becomes_of_unmoved ?_⟩
      simpa only [apply, tasks_cancelScope] using found
  | openCall context steps =>
      refine ⟨task, becomes_of_unmoved ?_⟩
      rw [apply, (opened_openCall state context steps).tasks, List.getElem?_append_left bound]
      exact found
  | abortCall call => exact exists_becomes_abortCall wired call found
  | spawn scope script =>
      refine ⟨task, becomes_of_unmoved ?_⟩
      simp only [apply, spawn, tasks_wake]
      rw [List.getElem?_append_left bound]
      exact found
  | doom other =>
      by_cases loose : state.isLoose other = true
      · have unfolded : state.apply (.doom other) = state.doom other := by simp [apply, loose]
        refine exists_becomes_of_doomed (.doom other) (unfolded ▸ doomed_doom state other) found ?_
        intro member duty works
        obtain rfl := List.mem_singleton.mp member
        simp [isLoose, found, works] at loose
      · refine ⟨task, becomes_of_unmoved ?_⟩
        simpa [apply, loose] using found
  | release other => exact exists_becomes_release other found
  | turn worker => exact exists_becomes_turn worker found
  | jump time =>
      refine ⟨task, becomes_of_unmoved ?_⟩
      simp only [apply]
      split
      · simpa using found
      · exact found

theorem clock_apply (state : State) (move : Move) :
    (state.apply move).clock = state.clock ∨
      ∃ time, move = .jump time ∧ state.canJump time = true ∧
        (state.apply move).clock = max state.clock time := by
  cases move with
  | addBackground => exact .inl rfl
  | derive parent deadline => exact .inl rfl
  | cancel target => exact .inl (stirs_cancelScope state target).clock
  | openCall context steps => exact .inl (opened_openCall state context steps).clock
  | abortCall id =>
      cases found : state.calls[id]? with
      | none => exact .inl (by simp only [apply, abortCall, found])
      | some call =>
          by_cases stopped : (call.aborted || call.ended.isSome) = true
          · exact .inl (by rw [apply, abortCall_of_over found stopped])
          · exact .inl (abortCall_of_going found (Bool.not_eq_true _ ▸ stopped)).clock
  | spawn scope script => exact .inl (stirs_wake _ _).clock
  | doom id =>
      simp only [apply]
      split
      · exact .inl (doomed_doom state id).clock
      · exact .inl rfl
  | release id =>
      simp only [apply, release]
      repeat' split
      · exact .inl rfl
      · exact .inl rfl
      · exact .inl (stirs_withLimiter _ _).clock
      · exact .inl rfl
  | turn worker =>
      left
      simp only [apply]
      split
      · let popped : State := { state with ready := state.ready.erase worker }
        change (popped.run worker).clock = popped.clock
        cases worker with
        | task id =>
            cases turned_runTask popped id with
            | idle _ still => simp only [run, still]
            | blocked _ _ _ _ took _ _ _ => exact took.clock
            | ended _ _ _ _ _ took _ _ _ _ => exact took.clock
            | dropped _ _ _ _ took _ _ => exact took.clock
        | call id =>
            rcases runCall_cases popped id with still | ⟨call, found, aborted, ended⟩
            · simp only [run, still]
            · obtain ⟨stop, turned⟩ := joins_runCall found aborted ended
              exact turned.clock
      · rfl
  | jump time =>
      by_cases possible : state.canJump time = true
      · exact .inr ⟨time, rfl, possible, by simp [apply, possible]⟩
      · exact .inl (by simp [apply, possible])

theorem clock_le_apply (state : State) (move : Move) : state.clock ≤ (state.apply move).clock := by
  rcases clock_apply state move with same | ⟨time, _, _, moved⟩
  · exact Nat.le_of_eq same.symm
  · rw [moved]
    exact Nat.le_max_left _ _

structure Advances (state : State) (move : Move) (id : CallId) (call after : Call) : Prop where
  found : (state.apply move).calls[id]? = some after
  continues : call.Continues after
  aborted : after.aborted = call.aborted ∨ move = .abortCall id ∧ call.ended = none
  stays : call.aborted = true → after.aborted = true
  ended : after.ended = call.ended ∨ call.ended = none ∧ call.aborted = false ∧
    move = .turn (.call id) ∧
    after.ended = some (state.clock, (state.apply move).cause? call.context)

variable {call : Call} {move : Move}

theorem advances_of_unmoved {id : CallId} (found : (state.apply move).calls[id]? = some call) :
    state.Advances move id call call :=
  ⟨found, .refl call, .inl rfl, fun flag => flag, .inl rfl⟩

theorem advances_of_calls_eq {id : CallId} (found : state.calls[id]? = some call)
    (same : (state.apply move).calls = state.calls) : state.Advances move id call call :=
  advances_of_unmoved (same ▸ found)

theorem exists_advances_abortCall {id : CallId} (other : CallId)
    (found : state.calls[id]? = some call) :
    ∃ after, state.Advances (.abortCall other) id call after := by
  cases known : state.calls[other]? with
  | none =>
      refine ⟨call, advances_of_calls_eq found ?_⟩
      simp only [apply, abortCall, known]
  | some record =>
      by_cases stopped : (record.aborted || record.ended.isSome) = true
      · refine ⟨call, advances_of_calls_eq found ?_⟩
        rw [apply, abortCall_of_over known stopped]
      · have doomed := abortCall_of_going known (Bool.not_eq_true _ ▸ stopped)
        by_cases same : other = id
        · subst same
          obtain rfl : call = record := Option.some.inj (found.symm.trans known)
          refine ⟨{ call with aborted := true }, ?_, ⟨rfl, rfl, rfl, rfl⟩, .inr ⟨rfl, ?_⟩,
            fun _ => rfl, .inl rfl⟩
          · rw [apply, doomed.calls]
            exact List.getElem?_set_self (List.getElem?_eq_some_iff.mp found).1
          · simp only [Bool.or_eq_true, not_or, Bool.not_eq_true, Option.isSome_eq_false_iff,
              Option.isNone_iff_eq_none] at stopped
            exact stopped.2
        · refine ⟨call, advances_of_unmoved ?_⟩
          rw [apply, doomed.calls, List.getElem?_set_ne same]
          exact found

theorem exists_advances_turn_task {id : CallId} {other : TaskId}
    (inLine : .task other ∈ state.ready) (found : state.calls[id]? = some call) :
    ∃ after, state.Advances (.turn (.task other)) id call after := by
  let popped : State := { state with ready := state.ready.erase (.task other) }
  have unfolded : state.apply (.turn (.task other)) = popped.runTask other := if_pos inLine
  have unmoved (same : (popped.runTask other).calls = state.calls) :
      ∃ after, state.Advances (.turn (.task other)) id call after := by
    refine ⟨call, advances_of_calls_eq found ?_⟩
    rw [unfolded, same]
  cases turned_runTask popped other with
  | idle _ still => exact unmoved (by rw [still])
  | blocked _ _ _ _ _ _ _ calls => exact unmoved calls
  | dropped _ _ _ _ _ _ calls => exact unmoved calls
  | ended task _ _ _ _ _ _ _ calls _ =>
      cases works : task.duty with
      | none => exact unmoved (by rw [calls, works])
      | some duty =>
          have calls : (state.apply (.turn (.task other))).calls =
              state.calls.modify duty.call fun call =>
                { call with finished := call.finished ++ [other] } := by
            rw [unfolded, calls, works]
          by_cases same : duty.call = id
          · refine ⟨{ call with finished := call.finished ++ [other] }, ?_,
              ⟨rfl, rfl, rfl, rfl⟩, .inl rfl, fun flag => flag, .inl rfl⟩
            rw [calls, same, List.getElem?_modify_eq, found]
            rfl
          · refine ⟨call, advances_of_unmoved ?_⟩
            rw [calls, List.getElem?_modify_ne _ _ same]
            exact found

theorem exists_advances_turn_call {id other : CallId} (inLine : .call other ∈ state.ready)
    (found : state.calls[id]? = some call) :
    ∃ after, state.Advances (.turn (.call other)) id call after := by
  let popped : State := { state with ready := state.ready.erase (.call other) }
  have unfolded : state.apply (.turn (.call other)) = popped.runCall other := if_pos inLine
  rcases runCall_cases popped other with still | ⟨record, known, aborted, ended⟩
  · refine ⟨call, advances_of_calls_eq found ?_⟩
    rw [unfolded, still]
  · have turned := runCall_of_going known aborted ended
    by_cases same : other = id
    · subst same
      obtain rfl : call = record := Option.some.inj (found.symm.trans known)
      have reached : (state.apply (.turn (.call other))).cause? call.context =
          (popped.hearing call.scope (popped.entries call)).cause? call.context := by
        rw [unfolded, turned]
        rfl
      refine ⟨call.joining (popped.entries call)
        (if call.left - (popped.entries call).length = 0 then
          some (state.clock, (state.apply (.turn (.call other))).cause? call.context)
        else none), ?_, ⟨rfl, rfl, rfl, rfl⟩, .inl rfl, fun flag => flag, ?_⟩
      · rw [reached, unfolded, turned]
        exact List.getElem?_set_self (List.getElem?_eq_some_iff.mp found).1
      · simp only [Call.joining]
        split
        · exact .inr ⟨ended, aborted, trivial, rfl⟩
        · exact .inl ended.symm
    · refine ⟨call, advances_of_unmoved ?_⟩
      rw [unfolded, turned]
      exact (List.getElem?_set_ne same).trans found

theorem exists_advances_turn {id : CallId} (worker : Worker) (found : state.calls[id]? = some call) :
    ∃ after, state.Advances (.turn worker) id call after := by
  by_cases inLine : worker ∈ state.ready
  · cases worker with
    | task other => exact exists_advances_turn_task inLine found
    | call other => exact exists_advances_turn_call inLine found
  · refine ⟨call, advances_of_calls_eq found ?_⟩
    simp [apply, inLine]

/-- Whatever happens, a call goes on, is given up, or ends in its turn. -/
theorem exists_advances (move : Move) {id : CallId} (found : state.calls[id]? = some call) :
    ∃ after, state.Advances move id call after := by
  cases move with
  | addBackground => exact ⟨call, advances_of_calls_eq found rfl⟩
  | derive parent deadline => exact ⟨call, advances_of_calls_eq found rfl⟩
  | cancel target => exact ⟨call, advances_of_calls_eq found (calls_cancelScope state target)⟩
  | openCall context steps =>
      refine ⟨call, advances_of_unmoved ?_⟩
      rw [apply, (opened_openCall state context steps).calls,
        List.getElem?_append_left (List.getElem?_eq_some_iff.mp found).1]
      exact found
  | abortCall other => exact exists_advances_abortCall other found
  | spawn scope script =>
      refine ⟨call, advances_of_calls_eq found ?_⟩
      simp only [apply, spawn, calls_wake]
  | doom other =>
      refine ⟨call, advances_of_calls_eq found ?_⟩
      simp only [apply]
      split
      · exact (doomed_doom state other).calls
      · rfl
  | release other =>
      refine ⟨call, advances_of_calls_eq found ?_⟩
      simp only [apply, release]
      repeat' split
      · rfl
      · rfl
      · simp [setTask]
      · rfl
  | turn worker => exact exists_advances_turn worker found
  | jump time =>
      refine ⟨call, advances_of_calls_eq found ?_⟩
      simp only [apply]
      split
      · exact calls_wakeAll _ _
      · rfl

end State

end OrderDesk.Schedule
