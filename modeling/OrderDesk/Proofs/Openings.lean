import OrderDesk.Proofs.Arrivals
import OrderDesk.Proofs.Closures

/-! How the course of a call begins, and why nobody but the call and its context gets at it: the
scope of a new call is new, and so are its tasks. So a call of timed steps stays on its course
through every run in which workers wait for their turns and its context is not canceled. -/

namespace OrderDesk

open Schedule

namespace Schedule

namespace State

theorem line_spawnSteps (state : State) (scope : ScopeId) (id : CallId) (position : Nat)
    (scripts : List Script)
    (unnamed : ∀ task : Nat, .task task ∈ state.ready → task < state.tasks.length) :
    (state.spawnSteps scope id position scripts).1.ready =
      state.ready ++ (List.range' state.tasks.length scripts.length).map Worker.task := by
  induction scripts generalizing state position with
  | nil => simp [spawnSteps]
  | cons script scripts ih =>
      have absent : .task state.tasks.length ∉ state.ready := fun inLine =>
        Nat.lt_irrefl _ (unnamed _ inLine)
      have ready : (state.spawn scope (some ⟨id, position⟩) script).ready =
          state.ready ++ [.task state.tasks.length] := by
        simp [State.spawn, State.wake, absent]
      have size : (state.spawn scope (some ⟨id, position⟩) script).tasks.length =
          state.tasks.length + 1 := by
        simp [State.spawn]
      have later := ih (state.spawn scope (some ⟨id, position⟩) script) (position + 1) (by
        intro task inLine
        rw [ready] at inLine
        rw [size]
        rcases List.mem_append.mp inLine with old | new
        · exact Nat.lt_succ_of_lt (unnamed task old)
        · simp only [List.mem_singleton, Worker.task.injEq] at new
          exact new ▸ Nat.lt_succ_self _)
      rw [ready, size] at later
      simp only [spawnSteps, later, List.length_cons, List.range'_succ, List.map_cons,
        List.append_assoc, List.singleton_append]

theorem waiting_spawnSteps (state : State) (scope : ScopeId) (id : CallId) (position : Nat)
    (scripts : List Script) :
    (state.spawnSteps scope id position scripts).1.timers = state.timers ∧
      (state.spawnSteps scope id position scripts).1.listeners = state.listeners := by
  induction scripts generalizing state position with
  | nil => exact ⟨rfl, rfl⟩
  | cons script scripts ih =>
      have later := ih (state.spawn scope (some ⟨id, position⟩) script) (position + 1)
      have timers : (state.spawn scope (some ⟨id, position⟩) script).timers = state.timers :=
        timers_wake _ _
      have listeners : (state.spawn scope (some ⟨id, position⟩) script).listeners =
          state.listeners := by
        simp only [State.spawn]
        rw [wake_eq]
      rw [timers, listeners] at later
      exact later

theorem ready_openCall (state : State) (context : ScopeId) (steps : List (String × Script))
    (unnamed : ∀ task : Nat, .task task ∈ state.ready → task < state.tasks.length) :
    (state.openCall context steps).1.ready =
      state.ready ++ (List.range' state.tasks.length steps.length).map Worker.task := by
  have added := line_spawnSteps (state.derive context none).1 state.scopes.length
    state.calls.length 0 (steps.map Prod.snd) unnamed
  rw [List.length_map] at added
  exact added

theorem waiting_openCall (state : State) (context : ScopeId) (steps : List (String × Script)) :
    (state.openCall context steps).1.timers = state.timers ∧
      (state.openCall context steps).1.listeners = state.listeners :=
  waiting_spawnSteps (state.derive context none).1 state.scopes.length state.calls.length 0
    (steps.map Prod.snd)

structure Secludes (state : State) (realm : Realm) : Prop where
  nests : state.scopes.Nests realm
  posts : ∀ (id : TaskId) (task : Task), state.tasks[id]? = some task →
    realm.hasTask id = false → task.scope ≠ realm.scope
  bases : ∀ (id : CallId) (call : Call), state.calls[id]? = some call → id ≠ realm.call →
    call.scope ≠ realm.scope

variable {state : State} {realm : Realm}

theorem Secludes.apply (secludes : state.Secludes realm) {move : Move}
    (permitted : realm.Permits move) : (state.apply move).Secludes realm := by
  have nests := secludes.nests.extends (apply_extends state move)
  obtain ⟨own, placed, _⟩ := secludes.nests
  have below : realm.scope < state.scopes.length := (List.getElem?_eq_some_iff.mp placed).1
  rcases sameWiring_apply state move with same | ⟨context, steps, rfl⟩ | ⟨scope, script, rfl⟩
  · refine ⟨nests, fun id task found foreign => ?_, fun id call found other => ?_⟩
    · have post : (state.apply move).posts[id]? = some task.scope := by
        simp [State.posts, found]
      rw [same.posts] at post
      obtain ⟨before, there, post⟩ := by simpa [State.posts] using post
      exact post ▸ secludes.posts id before there foreign
    · have base : (state.apply move).bases[id]? = some call.scope := by
        simp [State.bases, found]
      rw [same.bases] at base
      obtain ⟨before, there, base⟩ := by simpa [State.bases] using base
      exact base ▸ secludes.bases id before there other
  · have opened := opened_openCall state context steps
    refine ⟨nests, fun id task found foreign => ?_, fun id call found other => ?_⟩
    · simp only [State.apply, opened.tasks] at found
      rcases Nat.lt_or_ge id state.tasks.length with old | new
      · rw [List.getElem?_append_left old] at found
        exact secludes.posts id task found foreign
      · rw [List.getElem?_append_right new, getElem?_stepTasks] at found
        obtain ⟨_, _, rfl⟩ := Option.map_eq_some_iff.mp found
        exact (Nat.ne_of_lt below).symm
    · simp only [State.apply, opened.calls] at found
      rcases Nat.lt_or_ge id state.calls.length with old | new
      · rw [List.getElem?_append_left old] at found
        exact secludes.bases id call found other
      · rw [List.getElem?_append_right new] at found
        obtain rfl := List.mem_singleton.mp (List.mem_of_getElem? found)
        exact (Nat.ne_of_lt below).symm
  · refine ⟨nests, fun id task found foreign => ?_, fun id call found other => ?_⟩
    · simp only [State.apply, State.spawn, tasks_wake] at found
      rcases Nat.lt_or_ge id state.tasks.length with old | new
      · rw [List.getElem?_append_left old] at found
        exact secludes.posts id task found foreign
      · rw [List.getElem?_append_right new] at found
        obtain rfl := List.mem_singleton.mp (List.mem_of_getElem? found)
        exact permitted
    · simp only [State.apply, State.spawn, calls_wake] at found
      exact secludes.bases id call found other

end State

end Schedule

def TimedStep.scripts (steps : List TimedStep) : List (String × Script) :=
  steps.map fun step => (step.name, step.body)

def Schedule.State.course (state : State) (context : ScopeId) (steps : List TimedStep) : Course :=
  { call := state.calls.length
    context := context
    scope := state.scopes.length
    first := state.tasks.length
    start := state.clock
    deadline := (state.scopes.deadline? context).map (· - state.clock)
    steps := steps }

namespace Schedule.State

variable {state : State} {context : ScopeId} {steps : List TimedStep}

theorem getElem?_derive_of_lt (known : context < state.scopes.length) :
    ∃ outer, state.scopes[context]? = some outer ∧
      (state.scopes.derive context none)[state.scopes.length]? = some
        { lineage := state.scopes.length :: outer.lineage
          deadline := outer.deadline
          canceled := outer.canceled } := by
  have found := List.getElem?_eq_getElem known
  refine ⟨_, found, ?_⟩
  have same (deadline : Option Nat) : earlier deadline none = deadline := by
    cases deadline <;> rfl
  simp [Scopes.derive, found, same]

/-- What a call with so many steps is going to have to itself. -/
def newRealm (state : State) (context : ScopeId) (size : Nat) : Realm where
  call := state.calls.length
  context := context
  scope := state.scopes.length
  first := state.tasks.length
  size := size

theorem not_has_newRealm {size : Nat} {worker : Worker} (here : state.Has worker) :
    (state.newRealm context size).has worker = false := by
  cases worker with
  | task id =>
      have below : id < state.tasks.length := here
      simp only [Realm.has, Realm.hasTask, Bool.and_eq_false_iff, decide_eq_false_iff_not]
      exact .inl (Nat.not_le.mpr below)
  | call id =>
      have below : id < state.calls.length := here
      exact beq_false_of_ne (Nat.ne_of_lt below)

theorem not_has_of_has {worker : Worker} (here : state.Has worker) :
    (state.course context steps).realm.has worker = false :=
  not_has_newRealm here

theorem Closed.secludes_openCall (closed : state.Closed) (known : context < state.scopes.length) :
    (state.openCall context (TimedStep.scripts steps)).1.Secludes
      (state.course context steps).realm := by
  have opened := opened_openCall state context (TimedStep.scripts steps)
  obtain ⟨outer, found, placed⟩ := state.getElem?_derive_of_lt known
  refine ⟨⟨_, opened.scopes ▸ placed, by simp [Course.realm, State.course], ?_⟩, ?_, ?_⟩
  · intro target member other
    rcases List.mem_cons.mp member with same | above
    · exact absurd same other
    · obtain ⟨later, there, lineage, _, _⟩ := state.scopes.extends_derive context none context
        outer found
      exact ⟨later, opened.scopes ▸ there, lineage ▸ above⟩
  · intro id task there foreign
    rw [opened.tasks] at there
    rcases Nat.lt_or_ge id state.tasks.length with old | new
    · rw [List.getElem?_append_left old] at there
      exact Nat.ne_of_lt (closed.posts _ (List.mem_map_of_mem (List.mem_of_getElem? there)))
    · have bound : id - state.tasks.length < steps.length := by
        rw [List.getElem?_append_right new, getElem?_stepTasks] at there
        obtain ⟨_, script, _⟩ := Option.map_eq_some_iff.mp there
        simpa [TimedStep.scripts] using (List.getElem?_eq_some_iff.mp script).1
      have own : (state.course context steps).realm.hasTask id = true :=
        Realm.hasTask_iff.mpr ⟨_, bound, (Nat.add_sub_cancel' new).symm⟩
      rw [own] at foreign
      cases foreign
  · intro id call there other
    rw [opened.calls] at there
    rcases Nat.lt_or_ge id state.calls.length with old | new
    · rw [List.getElem?_append_left old] at there
      exact Nat.ne_of_lt (closed.bases _ (List.mem_map_of_mem (List.mem_of_getElem? there)))
    · have bound := (List.getElem?_eq_some_iff.mp there).1
      rw [List.length_append, List.length_singleton] at bound
      exact absurd (Nat.le_antisymm (Nat.le_of_lt_succ bound) new) other

end Schedule.State

theorem Schedule.History.Sound.onCourse_openCall {history : History} (sound : history.Sound)
    (closed : history.state.Closed) {context : ScopeId}
    (known : context < history.state.scopes.length)
    (clear : history.state.isCanceled context = false) {steps : List TimedStep}
    (nonempty : steps ≠ []) :
    OnCourse (history.state.course context steps) 0
      (history.add (.openCall context (TimedStep.scripts steps)))
      (history.state.newCall context (TimedStep.scripts steps)) := by
  let course := history.state.course context steps
  let next := history.add (.openCall context (TimedStep.scripts steps))
  have some_steps : TimedStep.scripts steps ≠ [] := by simpa [TimedStep.scripts] using nonempty
  have size : (TimedStep.scripts steps).length = steps.length := by simp [TimedStep.scripts]
  have tracks : Tracks next course.call course.scripts _ :=
    sound.tracks_openCall context some_steps
  have opened : history.state.Opened context (TimedStep.scripts steps) next.state :=
    State.opened_openCall history.state context (TimedStep.scripts steps)
  have joined : next.joinedBy course.call = [] :=
    (Tracks.joinedBy_add_of_joined_eq_nil rfl).trans (sound.joinedBy_eq_nil (Nat.le_refl _))
  have ready : next.state.ready =
      history.state.ready ++ (List.range' course.first steps.length).map Worker.task := by
    have added := history.state.ready_openCall context (TimedStep.scripts steps)
      fun task inLine => closed.serves.ready _ inLine
    rw [size] at added
    exact added
  have waiting : next.state.timers = history.state.timers ∧
      next.state.listeners = history.state.listeners :=
    history.state.waiting_openCall context (TimedStep.scripts steps)
  obtain ⟨outer, found, placed⟩ := history.state.getElem?_derive_of_lt known
  have there := opened.scopes ▸ placed
  have uncanceled : next.state.isCanceled course.scope = false := by
    have same : next.state.isCanceled course.scope = outer.canceled :=
      congrArg (Option.any Scope.canceled) there
    rw [same]
    simpa [State.isCanceled, found] using clear
  constructor
  · exact tracks
  · rfl
  · rfl
  · simp [State.newCall, Call.new, State.course, size]
  · rfl
  · exact opened.clock
  · refine ⟨_, there, by simp [State.course], ?_⟩
    simp [State.course, Scopes.deadline?, found]
  · intro position step here
    refine ⟨course.fresh position step, ?_, .fresh rfl rfl ?_ uncanceled⟩
    · have script : ((TimedStep.scripts steps).map Prod.snd)[position]? = some step.body := by
        have here : steps[position]? = some step := here
        simp [TimedStep.scripts, here]
      have first : (history.state.course context steps).first = history.state.tasks.length := rfl
      rw [opened.tasks, first, List.getElem?_append_right (Nat.le_add_right _ _),
        State.getElem?_stepTasks, Nat.add_sub_cancel_left, script]
      rfl
    · rw [ready]
      refine List.mem_append_right _ (List.mem_map_of_mem (List.mem_range'_1.mpr ?_))
      have bound := (List.getElem?_eq_some_iff.mp here).1
      exact ⟨Nat.le_add_right _ _, Nat.add_lt_add_left bound _⟩
  · refine ⟨List.range' course.first steps.length, [], ?_, .inl rfl, List.pairwise_lt_range', ?_⟩
    · rw [ready, List.filter_append, List.append_nil]
      have before : history.state.ready.filter course.realm.has = [] :=
        List.filter_eq_nil_iff.mpr fun worker inLine =>
          Bool.eq_false_iff.mp (State.not_has_of_has (closed.serves.ready worker inLine))
      rw [before, List.nil_append, List.filter_eq_self]
      intro worker member
      obtain ⟨id, listed, rfl⟩ := List.mem_map.mp member
      obtain ⟨lower, upper⟩ := List.mem_range'_1.mp listed
      simp only [Realm.has, Realm.hasTask, Bool.and_eq_true, decide_eq_true_eq]
      exact ⟨lower, upper⟩
    · have settled : course.settled next
          (history.state.newCall context (TimedStep.scripts steps)) = [] := by
        rw [Course.settled, joined]
        rfl
      rw [settled, List.nil_append]
      exact List.Pairwise.sublist List.filter_sublist List.pairwise_lt_range'
  · rw [waiting.1]
    exact .of_foreign fun timer set => State.not_has_of_has (closed.serves.timers timer set)
  · rw [waiting.2]
    exact .of_foreign fun listener listed =>
      State.not_has_of_has (closed.serves.listeners listener listed)
  · rw [waiting.2]
    intro listener listed own
    have foreign : course.realm.hasTask listener.1 = false :=
      State.not_has_of_has (closed.serves.listeners listener listed)
    have absurd := own.symm.trans foreign
    cases absurd
  · intro failed
    rw [joined] at failed
    exact absurd rfl failed
  · intro time cause ended
    cases ended

namespace OnCourse

variable {course : Course} {elapsed total : Nat} {history : History} {call : Call}

/-! ## Runs -/

theorem not_queued (onCourse : OnCourse course elapsed history call)
    (balanced : history.state.IsBalanced total) :
    ∀ task ∈ history.state.limiter.line, course.realm.hasTask task = false := by
  intro id waiting
  by_contra own
  obtain ⟨task, found, queued⟩ := balanced.queued id waiting
  obtain ⟨position, step, placed, rfl⟩ := Course.hasTask_iff.mp (Bool.not_eq_false _ ▸ own)
  obtain ⟨again, found', stands⟩ := onCourse.standing position step placed
  obtain rfl : task = again := Option.some.inj (found.symm.trans found')
  cases stands with
  | fresh same => simp [same, Task.isQueued, Course.fresh, Task.new, TimedStep.body] at queued
  | waiting same =>
      simp [same, Task.isQueued, Course.waiting, Course.fresh, Task.new, TimedStep.body] at queued
  | done life => simp [Task.isQueued, life] at queued

theorem hasTask_iff (onCourse : OnCourse course elapsed history call) (sound : history.Sound)
    {id : TaskId} {task : Task} (found : history.state.tasks[id]? = some task) :
    course.realm.hasTask id = true ↔ ∃ duty, task.duty = some duty ∧ duty.call = course.call := by
  constructor
  · intro own
    obtain ⟨position, step, placed, rfl⟩ := Course.hasTask_iff.mp own
    have there := onCourse.placed_iff.mpr ⟨step, placed, rfl⟩
    obtain ⟨_, again, _, present, working⟩ := onCourse.tracks.exists_working there
    obtain rfl : task = again := Option.some.inj (found.symm.trans present)
    exact ⟨_, working.duty, rfl⟩
  · rintro ⟨duty, works, mine⟩
    obtain ⟨known, present, placed⟩ :=
      (sound.wired id duty.call duty.position).mp ⟨task, found, works⟩
    rw [mine] at present
    obtain rfl : call = known := Option.some.inj (onCourse.tracks.found.symm.trans present)
    obtain ⟨step, here, rfl⟩ := onCourse.placed_iff.mp placed
    exact Course.hasTask_of_placed here

theorem hosts (onCourse : OnCourse course elapsed history call) (sound : history.Sound)
    (balanced : history.state.IsBalanced total)
    (secludes : history.state.Secludes course.realm) : history.state.Hosts course.realm := by
  constructor
  · exact secludes.nests
  · have some_steps : 0 < course.steps.length := by
      simpa [Course.scripts, List.length_pos_iff] using onCourse.tracks.nonempty
    have last := List.getElem?_eq_getElem (Nat.sub_one_lt (Nat.ne_of_gt some_steps))
    obtain ⟨task, found, _⟩ := onCourse.standing _ _ last
    have below : course.first + (course.steps.length - 1) < history.state.tasks.length :=
      (List.getElem?_eq_some_iff.mp found).1
    simp only [Course.realm]
    omega
  · exact (List.getElem?_eq_some_iff.mp onCourse.tracks.found).1
  · exact onCourse.heard
  · exact onCourse.not_queued balanced
  · intro id task found own
    obtain ⟨duty, works, _⟩ := (onCourse.hasTask_iff sound found).mp own
    simp [works]
  · intro id task found foreign
    refine ⟨secludes.posts id task found foreign, fun duty works mine => ?_⟩
    rw [(onCourse.hasTask_iff sound found).mpr ⟨duty, works, mine⟩] at foreign
    cases foreign
  · intro id known found other
    refine ⟨secludes.bases id known found other, fun task member => ?_⟩
    by_contra own
    obtain ⟨position, placed⟩ := List.getElem?_of_mem member
    obtain ⟨worker, present, works⟩ := (sound.wired task id position).mpr ⟨known, found, placed⟩
    obtain ⟨duty, works', mine⟩ :=
      (onCourse.hasTask_iff sound present).mp (Bool.not_eq_false _ ▸ own)
    obtain rfl := Option.some.inj (works.symm.trans works')
    exact other mine

/-- Whatever happens, the call stays on its course, unless its context is canceled. -/
theorem add (onCourse : OnCourse course elapsed history call) (sound : history.Sound)
    (hosts : history.state.Hosts course.realm) {move : Move}
    (permitted : course.realm.Permits move) (allowed : history.state.Allows move)
    (clear : (history.add move).state.isCanceled course.context = false) :
    ∃ later after, OnCourse course later (history.add move) after := by
  by_cases jumps : ∃ time, move = .jump time
  · obtain ⟨time, rfl⟩ := jumps
    obtain ⟨later, reached⟩ := onCourse.jump allowed
    exact ⟨later, call, reached⟩
  by_cases own : ∃ worker, move = .turn worker ∧ course.realm.has worker = true
  · obtain ⟨worker, rfl, mine⟩ := own
    obtain ⟨rest, head⟩ := List.head?_eq_some_iff.mp allowed
    cases worker with
    | task id =>
        obtain ⟨position, step, placed, rfl⟩ := Course.hasTask_iff.mp mine
        obtain ⟨after, reached⟩ := onCourse.turn_task sound rfl placed head
        exact ⟨elapsed, after, reached⟩
    | call id =>
        obtain rfl : id = course.call := beq_iff_eq.mp mine
        obtain ⟨after, reached⟩ := onCourse.turn_call sound rfl head
        exact ⟨elapsed, after, reached⟩
  · have foreign (worker : Worker) (turn : move = .turn worker) :
        course.realm.has worker = false := by
      by_contra mine
      exact own ⟨worker, turn, Bool.not_eq_false _ ▸ mine⟩
    rcases hosts.spares permitted foreign fun time jump => jumps ⟨time, jump⟩ with
      canceled | spares
    · have absurd := canceled.symm.trans clear
      cases absurd
    · obtain ⟨after, tracks, _⟩ := onCourse.tracks.add sound move
      have same : (history.add move).state.calls[course.call]? = some call :=
        spares.call.trans onCourse.tracks.found
      obtain rfl : call = after := Option.some.inj (same.symm.trans tracks.found)
      refine ⟨elapsed, call, onCourse.spares spares tracks (history.joinedBy_add_of_ne ?_)⟩
      intro turn
      have mine := foreign _ turn
      simp [Realm.has, Course.realm] at mine

theorem play (onCourse : OnCourse course elapsed history call) (sound : history.Sound)
    (balanced : history.state.IsBalanced total) (secludes : history.state.Secludes course.realm)
    {moves : List Move} (permitted : ∀ move ∈ moves, course.realm.Permits move)
    (follows : history.state.Follows moves)
    (clear : (history.play moves).state.isCanceled course.context = false) :
    ∃ later after, OnCourse course later (history.play moves) after := by
  induction moves generalizing history call elapsed with
  | nil => exact ⟨elapsed, call, onCourse⟩
  | cons move moves ih =>
      -- A canceled scope stays canceled, so the context was clear all along.
      have clear_next : (history.add move).state.isCanceled course.context = false := by
        by_contra canceled
        have grows := State.play_extends (history.add move).state moves
        rw [← History.state_play] at grows
        have stays := State.isCanceled_of_extends grows (Bool.not_eq_false _ ▸ canceled)
        rw [History.play_cons, stays] at clear
        cases clear
      obtain ⟨later, after, reached⟩ := onCourse.add sound (onCourse.hosts sound balanced secludes)
        (permitted move (by simp)) follows.1 clear_next
      exact ih reached (sound.add move) (State.balanced_apply balanced move)
        (secludes.apply (permitted move (by simp)))
        (fun other member => permitted other (by simp [member])) follows.2 clear

end OnCourse

end OrderDesk
