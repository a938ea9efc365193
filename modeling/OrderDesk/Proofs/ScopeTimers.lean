import OrderDesk.Proofs.Contexts

/-! Who waits in a scope notices its end. A task that waits listens to the cancellation of its scope
and has a timer for the deadline, so as soon as the scope has ended, the task is in line. Nothing
that others do takes this away, time cannot pass over the timer, and when its own turn comes the
task only goes on waiting while the scope is open. -/

namespace OrderDesk.Schedule

namespace State

/-- What the task needs so that the end of the scope is not missed. -/
structure Attends (state : State) (id : TaskId) (scope : ScopeId) : Prop where
  known : scope < state.scopes.length
  listens : (id, scope) ∈ state.listeners
  timed : ∀ due, state.scopes.deadline? scope = some due → state.clock < due →
    ⟨due, id⟩ ∈ state.timers
  alert : (state.cause? scope).isSome = true → .task id ∈ state.ready

/-- Nothing is taken from what the task waits for, and no scope has changed. -/
structure Minds (before : State) (id : TaskId) (after : State) : Prop where
  clock : after.clock = before.clock
  scopes : ∀ scope < before.scopes.length, after.scopes[scope]? = before.scopes[scope]?
  listeners : ∀ scope, (id, scope) ∈ before.listeners → (id, scope) ∈ after.listeners
  timers : ∀ due, ⟨due, id⟩ ∈ before.timers → ⟨due, id⟩ ∈ after.timers
  ready : .task id ∈ before.ready → .task id ∈ after.ready

variable {before state after : State} {id other : TaskId} {scope : ScopeId}

theorem Minds.refl (state : State) (id : TaskId) : state.Minds id state :=
  ⟨rfl, fun _ _ => rfl, fun _ there => there, fun _ there => there, fun there => there⟩

theorem Minds.trans (earlier : before.Minds id state) (later : state.Minds id after) :
    before.Minds id after := by
  refine ⟨later.clock.trans earlier.clock, fun scope known => ?_,
    fun scope there => later.listeners scope (earlier.listeners scope there),
    fun due there => later.timers due (earlier.timers due there),
    fun there => later.ready (earlier.ready there)⟩
  have same := earlier.scopes scope known
  have found := List.getElem?_eq_getElem known
  rw [← same] at found
  rw [later.scopes scope (List.getElem?_eq_some_iff.mp found).1, same]

theorem Minds.of_eq (later : state.Minds id after) (clock : state.clock = before.clock)
    (scopes : state.scopes = before.scopes) (listeners : state.listeners = before.listeners)
    (timers : state.timers = before.timers) (ready : state.ready = before.ready) :
    before.Minds id after := by
  refine Minds.trans ⟨clock, fun _ _ => by rw [scopes], fun _ there => ?_, fun _ there => ?_,
    fun there => ?_⟩ later
  · rwa [listeners]
  · rwa [timers]
  · rwa [ready]

theorem Attends.minds (attends : before.Attends id scope) (minds : before.Minds id after) :
    after.Attends id scope := by
  have same := minds.scopes scope attends.known
  have cause : after.cause? scope = before.cause? scope := by
    rw [cause?, cause?, Scopes.cause?, Scopes.cause?, same, minds.clock]
  have deadline : after.scopes.deadline? scope = before.scopes.deadline? scope := by
    rw [Scopes.deadline?, Scopes.deadline?, same]
  refine ⟨?_, minds.listeners scope attends.listens, fun due set early => ?_, fun ended => ?_⟩
  · have found := List.getElem?_eq_getElem attends.known
    rw [← same] at found
    exact (List.getElem?_eq_some_iff.mp found).1
  · exact minds.timers due (attends.timed due (deadline ▸ set) (minds.clock ▸ early))
  · exact minds.ready (attends.alert (cause ▸ ended))

theorem minds_wake (state : State) (worker : Worker) (id : TaskId) :
    state.Minds id (state.wake worker) := by
  have ready := (stirs_wake state worker).ready (.task id)
  rw [wake_eq] at ready ⊢
  exact ⟨rfl, fun _ _ => rfl, fun _ there => there, fun _ there => there, ready⟩

theorem minds_withLimiter (state : State) (change : Limiter × Option TaskId) (id : TaskId) :
    state.Minds id (state.withLimiter change) := by
  obtain ⟨limiter, woken⟩ := change
  cases woken with
  | none => exact (Minds.refl { state with limiter := limiter } id).of_eq rfl rfl rfl rfl rfl
  | some task =>
      exact (minds_wake { state with limiter := limiter } (.task task) id).of_eq rfl rfl rfl rfl rfl

theorem minds_doom (state : State) (other id : TaskId) : state.Minds id (state.doom other) := by
  unfold doom
  split
  · exact .refl state id
  · rename_i task _
    split
    · exact (minds_wake (state.setTask other { task with life := .doomed }) (.task other) id).of_eq
        rfl rfl rfl rfl rfl
    · exact .refl state id

theorem minds_foldl_doom (state : State) (ids : List TaskId) (id : TaskId) :
    state.Minds id (ids.foldl doom state) := by
  induction ids generalizing state with
  | nil => exact .refl state id
  | cons first rest ih => exact (minds_doom state first id).trans (ih (state.doom first))

theorem minds_abortCall (state : State) (call : CallId) (id : TaskId) :
    state.Minds id (state.abortCall call) := by
  unfold abortCall
  split
  · exact .refl state id
  · rename_i record _
    split
    · exact .refl state id
    · exact (minds_foldl_doom _ record.tasks id).of_eq rfl rfl rfl rfl rfl

theorem minds_spawn (state : State) (scope : ScopeId) (duty : Option Duty) (script : Script)
    (id : TaskId) : state.Minds id (state.spawn scope duty script) :=
  (minds_wake _ (.task state.tasks.length) id).of_eq rfl rfl rfl rfl rfl

theorem minds_spawnSteps (state : State) (scope : ScopeId) (call : CallId) (position : Nat)
    (scripts : List Script) (id : TaskId) :
    state.Minds id (state.spawnSteps scope call position scripts).1 := by
  induction scripts generalizing state position with
  | nil => exact .refl state id
  | cons script scripts ih =>
      exact (minds_spawn state scope (some ⟨call, position⟩) script id).trans
        (ih (state.spawn scope (some ⟨call, position⟩) script) (position + 1))

theorem minds_append (state : State) (more : Scope) (id : TaskId) :
    state.Minds id { state with scopes := state.scopes ++ [more] } :=
  ⟨rfl, fun _ known => List.getElem?_append_left known, fun _ there => there, fun _ there => there,
    fun there => there⟩

theorem minds_derive (state : State) (parent : ScopeId) (deadline : Option Nat) (id : TaskId) :
    state.Minds id (state.derive parent deadline).1 := by
  unfold derive Scopes.derive
  split <;> exact minds_append state _ id

theorem minds_openCall (state : State) (context : ScopeId) (steps : List (String × Script))
    (id : TaskId) : state.Minds id (state.openCall context steps).1 := by
  have spawned := minds_spawnSteps (state.derive context none).1 state.scopes.length
    state.calls.length 0 (steps.map Prod.snd) id
  exact (minds_derive state context none id).trans
    (spawned.trans ((Minds.refl _ id).of_eq rfl rfl rfl rfl rfl))

theorem minds_release (state : State) (other id : TaskId) : state.Minds id (state.release other) := by
  unfold release
  split
  · exact .refl state id
  · rename_i task _
    split
    · exact .refl state id
    · exact (minds_withLimiter (state.setTask other { task with slots := task.slots - 1 }) _ id).of_eq
        rfl rfl rfl rfl rfl

theorem minds_pop (state : State) {worker : Worker} (foreign : worker ≠ .task id) :
    state.Minds id { state with ready := state.ready.erase worker } :=
  ⟨rfl, fun _ _ => rfl, fun _ there => there, fun _ there => there,
    fun there => (List.mem_erase_of_ne foreign.symm).mpr there⟩

theorem Attends.cancelScope (attends : state.Attends id scope) (target : ScopeId) :
    (state.cancelScope target).Attends id scope := by
  have stirs := stirs_cancelScope state target
  have found := List.getElem?_eq_getElem attends.known
  have placed := Scopes.getElem?_cancel state.scopes target scope
  rw [found, Option.map_some] at placed
  refine ⟨?_, ?_, fun due set early => ?_, fun ended => ?_⟩
  · rw [scopes_cancelScope, Scopes.length_cancel]
    exact attends.known
  · rw [listeners_cancelScope]
    exact attends.listens
  · rw [State.cancelScope, timers_wakeAll]
    refine attends.timed due ?_ (stirs.clock ▸ early)
    rw [scopes_cancelScope, Scopes.deadline?, placed] at set
    rw [Scopes.deadline?, found, ← set]
    simp only [Option.bind_some]
    split <;> rfl
  · by_cases within : state.scopes.isWithin scope target = true
    · refine mem_ready_wakeAll _ _ id (List.mem_map.mpr ⟨(id, scope), ?_, rfl⟩)
      exact List.mem_filter.mpr ⟨attends.listens, within⟩
    · refine stirs.ready _ (attends.alert ?_)
      rw [Scopes.isWithin, found] at within
      rw [cause?, stirs.clock, scopes_cancelScope, Scopes.cause?, placed,
        if_neg within, ← found] at ended
      exact ended

theorem Attends.jump (attends : state.Attends id scope) {time : Nat}
    (possible : state.canJump time = true) : (state.jump time).Attends id scope := by
  obtain ⟨quiet, none_skipped⟩ : state.ready = [] ∧ ∀ timer ∈ state.timers, time ≤ timer.due := by
    simpa [canJump] using possible
  have open_still : state.cause? scope = none := by
    cases ended : state.cause? scope with
    | none => rfl
    | some cause =>
        have inLine := attends.alert (by rw [ended]; rfl)
        rw [quiet] at inLine
        cases inLine
  refine ⟨by simpa using attends.known, by simpa using attends.listens,
    fun due set early => ?_, fun ended => ?_⟩
  · rw [clock_jump] at early
    rw [scopes_jump] at set
    rw [timers_jump, List.mem_filter]
    exact ⟨attends.timed due set (by omega), by simp; omega⟩
  · rw [cause?, scopes_jump, clock_jump] at ended
    have found := List.getElem?_eq_getElem attends.known
    simp only [cause?, Scopes.cause?, found] at open_still ended
    split at open_still
    · cases open_still
    · rename_i early
      split at open_still
      · cases open_still
      · rename_i clear
        split at ended
        · rename_i late
          simp only [Option.any_eq_true, decide_eq_true_eq] at late early
          obtain ⟨due, set, come⟩ := late
          have still : state.clock < due := Nat.lt_of_not_le fun passed => early ⟨due, set, passed⟩
          have armed := attends.timed due (by rw [Scopes.deadline?, found]; exact set) still
          have fires : due ≤ time := by omega
          refine mem_ready_wakeAll _ _ id (List.mem_map.mpr ⟨⟨due, id⟩, ?_, rfl⟩)
          exact List.mem_filter.mpr ⟨armed, by simpa using fires⟩
        · cases ended

theorem Attends.stroke (attends : before.Attends id scope) (foreign : other ≠ id) {task : Task}
    (stroke : before.Stroke other task after) : after.Attends id scope := by
  cases stroke with
  | count running => exact attends.minds ((Minds.refl _ id).of_eq rfl rfl rfl rfl rfl)
  | note notes => exact attends.minds ((Minds.refl _ id).of_eq rfl rfl rfl rfl rfl)
  | limit change _ _ => exact attends.minds (minds_withLimiter before change id)
  | setTimer due =>
      exact attends.minds ⟨rfl, fun _ _ => rfl, fun _ there => there,
        fun _ there => List.mem_append_left _ there, fun there => there⟩
  | listen =>
      refine attends.minds ⟨rfl, fun _ _ => rfl, fun _ there => List.mem_append_left _ there,
        fun _ there => ?_, fun there => there⟩
      simp only [State.listen]
      split
      · exact List.mem_append_left _ there
      · exact there
  | unlisten =>
      refine attends.minds ⟨rfl, fun _ _ => rfl, fun _ there => ?_, fun _ there => ?_,
        fun there => there⟩
      · exact List.mem_filter.mpr ⟨there, by simpa using foreign.symm⟩
      · exact List.mem_filter.mpr ⟨there, by simpa using foreign.symm⟩
  | cancel listed => exact attends.cancelScope task.scope
  | setTask next => exact attends.minds ((Minds.refl _ id).of_eq rfl rfl rfl rfl rfl)
  | report duty works =>
      exact attends.minds ((minds_wake _ (.call duty.call) id).of_eq rfl rfl rfl rfl rfl)

theorem Attends.strokes (attends : before.Attends id scope) (foreign : other ≠ id) {task : Task}
    (done : Strokes other task before after) : after.Attends id scope := by
  induction done with
  | refl => exact attends
  | tail _ stroke ih => exact ih.stroke foreign stroke

theorem Attends.runCall (attends : state.Attends id scope) (call : CallId) :
    (state.runCall call).Attends id scope := by
  rcases runCall_cases state call with same | ⟨found, known, aborted, ended⟩
  · rwa [same]
  · rw [runCall_of_going known aborted ended]
    have heard : (state.hearing found.scope (state.entries found)).Attends id scope := by
      unfold hearing
      split
      · exact attends
      · exact attends.cancelScope found.scope
    exact heard.minds ((Minds.refl _ id).of_eq rfl rfl rfl rfl rfl)

/-- Whatever happens but its own turn, a task that attends to its scope goes on to do so. -/
theorem Attends.apply (attends : state.Attends id scope) {move : Move}
    (foreign : move ≠ .turn (.task id)) : (state.apply move).Attends id scope := by
  cases move with
  | addBackground => exact attends.minds (minds_append state _ id)
  | derive parent deadline => exact attends.minds (minds_derive state parent deadline id)
  | cancel target => exact attends.cancelScope target
  | openCall context steps => exact attends.minds (minds_openCall state context steps id)
  | abortCall call => exact attends.minds (minds_abortCall state call id)
  | spawn target script => exact attends.minds (minds_spawn state target none script id)
  | doom other =>
      simp only [State.apply]
      split
      · exact attends.minds (minds_doom state other id)
      · exact attends
  | release other =>
      simp only [State.apply]
      split
      · exact attends.minds (minds_release state other id)
      · exact attends
  | turn worker =>
      simp only [State.apply]
      split
      · have popped := attends.minds (minds_pop state fun same : worker = .task id => by
          exact foreign (same ▸ rfl))
        cases worker with
        | call call => exact popped.runCall call
        | task other =>
            have different : other ≠ id := fun same => foreign (same ▸ rfl)
            cases found : state.tasks[other]? with
            | none => simpa only [State.run, State.runTask, found] using popped
            | some task => exact popped.strokes different (strokes_runTask found)
      · exact attends
  | jump time =>
      simp only [State.apply]
      split
      · exact attends.jump ‹_›
      · exact attends

theorem attends_of_attempt {task next : Task} {action : Action}
    (waiting : state.attempt id task action = .wait after next) (asks : action.asks true = true)
    (known : task.scope < state.scopes.length) : after.Attends id task.scope := by
  have listening (opened : state.cause? task.scope = none) :
      (state.listen id task.scope).Attends id task.scope := by
    refine ⟨known, List.mem_append_right _ List.mem_cons_self, fun due set _ => ?_, fun ended => ?_⟩
    · have same : state.scopes.deadline? task.scope = some due := set
      simp only [State.listen, same]
      exact List.mem_append_right _ List.mem_cons_self
    · have same : (state.listen id task.scope).cause? task.scope = none := opened
      rw [same] at ended
      cases ended
  cases action <;> simp only [attempt, stopWith, doneAtOnce?_eq, Option.or_self] at waiting <;>
    (repeat' split at waiting)
  all_goals first
    | exact absurd asks Bool.false_ne_true
    | cases waiting
  all_goals have listening := listening ‹state.cause? task.scope = none›
  · exact listening.minds ⟨rfl, fun _ _ => rfl, fun _ there => there,
      fun _ there => List.mem_append_left _ there, fun there => there⟩
  · exact listening.minds ((Minds.refl _ id).of_eq rfl rfl rfl rfl rfl)
  · exact listening
  · exact listening

/-- A task that asks again and goes on waiting works in a scope that is open. -/
theorem cause_of_resume {task next : Task} {action : Action} (punctual : state.Punctual)
    (waiting : state.resume id task action = .wait after next) (asks : action.asks true = true) :
    state.cause? task.scope = none := by
  refine punctual.cause?_of_done? (show state.done? id task.scope = none from ?_)
  cases action <;> simp only [resume, stopWith] at waiting <;> (repeat' split at waiting)
  all_goals first
    | assumption
    | exact absurd asks Bool.false_ne_true
    | cases waiting

theorem life_finish {task next : Task} {ending : Ending} (bound : id < state.tasks.length)
    (found : (state.finish id task ending).tasks[id]? = some next) : next.life ≠ .live := by
  unfold finish at found
  split at found
  · simp only [setTask, List.getElem?_set_self bound, Option.some.injEq] at found
    simp [← found]
  · simp only [report, setTask, tasks_wake, tasks_giveBack, List.getElem?_set_self bound,
      Option.some.injEq] at found
    simp [← found]

def Watches (state : State) (id : TaskId) (task : Task) : Prop :=
  task.isAttentive = true → state.Attends id task.scope

theorem life_of_isAttentive {task : Task} (attentive : task.isAttentive = true) :
    task.life = .live := by
  unfold Task.isAttentive at attentive
  split at attentive
  · assumption
  · cases attentive

theorem watches_finish {task next : Task} {ending : Ending} (bound : id < state.tasks.length)
    (found : (state.finish id task ending).tasks[id]? = some next) :
    (state.finish id task ending).Watches id next :=
  fun attentive => absurd (life_of_isAttentive attentive) (life_finish bound found)

theorem watches_perform {task : Task} (bound : id < state.tasks.length)
    (known : task.scope < state.scopes.length) (script : Script) :
    ∀ next, (state.perform id task script).tasks[id]? = some next →
      (state.perform id task script).Watches id next := by
  refine perform_keeps
    (fun now current _ => id < now.tasks.length ∧ current.scope < now.scopes.length)
    (fun now => ∀ next, now.tasks[id]? = some next → now.Watches id next) ?_ ?_ state task script
    ⟨bound, known⟩
  · rintro now current action rest ⟨bound, known⟩
    have moved := attempt_moves now id current action
    have grows := (attempt_extends now id current action).length_le
    split <;> rename_i same <;> rw [same] at moved grows
    · exact ⟨moved.1.tasks ▸ bound, moved.2.scope ▸ Nat.lt_of_lt_of_le known grows⟩
    · exact fun next found => watches_finish (moved.1.tasks ▸ bound) found
    · rename_i later waiting
      intro next found attentive
      have stored : ((later.setTask id { waiting with script := action :: rest }).tasks)[id]? =
          some { waiting with script := action :: rest } :=
        List.getElem?_set_self (moved.1.tasks ▸ bound)
      obtain rfl := Option.some.inj (found.symm.trans stored)
      have asks : action.asks true = true := by
        unfold Task.isAttentive at attentive
        split at attentive <;> simp_all
      have attends := attends_of_attempt same asks known
      rw [← moved.2.1.scope] at attends
      exact attends.minds ((Minds.refl _ id).of_eq rfl rfl rfl rfl rfl)
  · rintro now current ⟨bound, _⟩ next found
    exact watches_finish bound found

/-- What a task attends to is not in its hands as its turn begins, but it is again when the turn is
over. -/
theorem Watches.own_turn {task : Task} (watches : state.Watches id task) (punctual : state.Punctual)
    (found : state.tasks[id]? = some task) (live : task.life = .live)
    (known : task.scope < state.scopes.length) :
    ∀ next, (State.runTask { state with ready := state.ready.erase (.task id) } id).tasks[id]? =
      some next →
        (State.runTask { state with ready := state.ready.erase (.task id) } id).Watches id next := by
  have bound := (List.getElem?_eq_some_iff.mp found).1
  let popped : State := { state with ready := state.ready.erase (.task id) }
  have late : popped.Punctual := punctual
  simp only [runTask, found, live]
  split
  · rename_i action rest waits script
    have moved := resume_moves popped id task action waits
    have scopes := resume_scopes popped id task action
    split
    · rename_i now current same
      rw [same] at moved scopes
      have equal : now.scopes = state.scopes := scopes
      exact watches_perform (moved.1.tasks ▸ bound) (by rwa [equal, moved.2.scope]) rest
    · rename_i now ending same
      rw [same] at moved
      have tasks : now.tasks = state.tasks := moved.1.tasks
      exact fun next found => watches_finish (tasks ▸ bound) found
    · rename_i now current same
      intro next there attentive
      obtain rfl := Option.some.inj (found.symm.trans there)
      have before := watches attentive
      have asks : action.asks true = true := by
        unfold Task.isAttentive at attentive
        split at attentive <;> simp_all
      have opened := cause_of_resume late same asks
      refine ⟨before.known, before.listens, before.timed, fun ended => ?_⟩
      rw [opened] at ended
      cases ended
  · have bound' : id < popped.tasks.length := bound
    exact watches_perform bound' known task.script

theorem Watches.apply {task next : Task} {move : Move} (watches : state.Watches id task)
    (punctual : state.Punctual) (found : state.tasks[id]? = some task)
    (known : task.scope < state.scopes.length) (becomes : state.Becomes move id task next) :
    (state.apply move).Watches id next := by
  intro attentive
  have live := life_of_isAttentive attentive
  by_cases turn : move = .turn (.task id)
  · subst turn
    by_cases inLine : .task id ∈ state.ready
    · have unfolded : state.apply (.turn (.task id)) =
          State.runTask { state with ready := state.ready.erase (.task id) } id := if_pos inLine
      have alive : task.life = .live := by
        cases becomes.evolves with
        | same life _ _ => exact life ▸ live
        | worked _ _ early _ => exact early
        | doomed early _ _ _ _ => exact early
        | dropped _ life _ => simp [life] at live
      have there := becomes.found
      rw [unfolded] at there ⊢
      exact watches.own_turn punctual found alive known next there attentive
    · have still : state.apply (.turn (.task id)) = state := if_neg inLine
      have there := becomes.found
      rw [still] at there ⊢
      obtain rfl := Option.some.inj (found.symm.trans there)
      exact watches attentive
  · rw [becomes.scope]
    cases becomes.evolves with
    | same life script waits =>
        refine (watches ?_).apply turn
        unfold Task.isAttentive at attentive ⊢
        rwa [life, script, waits] at attentive
    | worked own _ _ _ => exact absurd own turn
    | doomed _ life _ _ _ => simp [life] at live
    | dropped _ life _ => simp [life] at live

/-! ## All tasks of a kind -/

structure Attended (state : State) (kind : TaskId → Option Duty → Prop) : Prop where
  posted : ∀ (id : TaskId) (task : Task), state.tasks[id]? = some task → kind id task.duty →
    task.scope < state.scopes.length
  watches : ∀ (id : TaskId) (task : Task), state.tasks[id]? = some task → kind id task.duty →
    state.Watches id task

variable {kind : TaskId → Option Duty → Prop}

theorem Attended.mono {fewer : TaskId → Option Duty → Prop} (attended : state.Attended kind)
    (among : ∀ id task, state.tasks[id]? = some task → fewer id task.duty → kind id task.duty) :
    state.Attended fewer :=
  ⟨fun id task found own => attended.posted id task found (among id task found own),
    fun id task found own => attended.watches id task found (among id task found own)⟩

/-- A task that attends to its scope is told just what a look at the scope tells. -/
theorem Attended.done?_eq (attended : state.Attended kind) (punctual : state.Punctual) {task : Task}
    (found : state.tasks[id]? = some task) (own : kind id task.duty)
    (attentive : task.isAttentive = true) : state.done? id task.scope = state.cause? task.scope :=
  punctual.done?_eq (attended.watches id task found own attentive).timed

theorem watches_new (state : State) (id : TaskId) (scope : ScopeId) (duty : Option Duty)
    (script : Script) (now : Nat) : state.Watches id (Task.new scope duty script now) := by
  intro attentive
  unfold Task.isAttentive at attentive
  split at attentive <;> simp_all [Task.new]

theorem Attended.apply (attended : state.Attended kind) (wired : state.Wired)
    (punctual : state.Punctual) {move : Move}
    (known : ∀ scope script, move = .spawn scope script → kind state.tasks.length none →
      scope < state.scopes.length) : (state.apply move).Attended kind := by
  have grows := (apply_extends state move).length_le
  constructor
  · intro id next found own
    rcases cases_task_apply wired move found with
      ⟨task, old, becomes⟩ | ⟨context, steps, index, rfl, _, step, _, rfl⟩ | ⟨scope, script, rfl, rfl, rfl⟩
    · rw [becomes.scope]
      exact Nat.lt_of_lt_of_le (attended.posted id task old (becomes.duty ▸ own)) grows
    · rw [length_scopes_openCall]
      exact Nat.lt_succ_self _
    · exact Nat.lt_of_lt_of_le (known scope script rfl own) grows
  · intro id next found own
    rcases cases_task_apply wired move found with
      ⟨task, old, becomes⟩ | ⟨context, steps, index, rfl, _, step, _, rfl⟩ | ⟨scope, script, rfl, _, rfl⟩
    · have own' : kind id task.duty := becomes.duty ▸ own
      exact (attended.watches id task old own').apply punctual old
        (attended.posted id task old own') becomes
    · exact watches_new _ _ _ _ _ _
    · exact watches_new _ _ _ _ _ _

theorem attended_start (limiter : Limiter) (kind : TaskId → Option Duty → Prop) :
    (start limiter).Attended kind :=
  ⟨by simp [start], by simp [start]⟩

theorem Attended.play (attended : state.Attended kind) (wired : state.Wired)
    (punctual : state.Punctual) (present : ∀ id, kind id none → id < state.tasks.length)
    (moves : List Move) : (state.play moves).Attended kind := by
  induction moves generalizing state with
  | nil => exact attended
  | cons move moves ih =>
      refine ih (attended.apply wired punctual fun scope script _ own => ?_) (wired.apply move)
        (punctual.apply move)
        fun id own => Nat.lt_of_lt_of_le (present id own) (length_tasks_le state move)
      exact absurd (present _ own) (Nat.lt_irrefl _)

/-- Whatever happens, the tasks of calls attend to their scopes. -/
theorem attended_play_start (limiter : Limiter) (moves : List Move) :
    ((start limiter).play moves).Attended fun _ duty => duty.isSome = true :=
  (attended_start limiter _).play (History.sound_start limiter).wired (punctual_start limiter)
    (fun _ none => nomatch none) moves

end State

end OrderDesk.Schedule
