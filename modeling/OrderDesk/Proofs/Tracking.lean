import Mathlib.Data.List.Nodup
import OrderDesk.Proofs.Wiring

/-! Tracking a call from its opening on, whatever else happens. Each of its bodies has begun at
most once, when the call was opened. What the call has joined is a record of those of its tasks
that have ended, without those that wait to be joined; and its tally is what the record makes of
it. One move keeps all of this, and so does a run. -/

namespace OrderDesk.Schedule

/-- A crash counts as a failure that nobody has classified. -/
def Ending.outcome : Ending → Outcome
  | .returned _ outcome => outcome
  | .crashed message => some (.other (.crash message))

def Ending.millis (started time : Nat) : Ending → Nat
  | .returned millis _ => millis
  | .crashed _ => time - started

def Ending.settled (position started time : Nat) (ending : Ending) : Settled :=
  { position := position, millis := ending.millis started time, outcome := ending.outcome }

theorem Ending.Timed.millis_eq {started time : Nat} {ending : Ending}
    (timed : ending.Timed time started) : ending.millis started time = time - started := by
  cases ending with
  | returned millis outcome => exact timed
  | crashed message => rfl

structure Call.Continues (before after : Call) : Prop where
  context : after.context = before.context
  scope : after.scope = before.scope
  started : after.started = before.started
  tasks : after.tasks = before.tasks

theorem Call.Continues.refl (call : Call) : call.Continues call := ⟨rfl, rfl, rfl, rfl⟩

theorem Call.Continues.trans {first second third : Call} (earlier : first.Continues second)
    (later : second.Continues third) : first.Continues third :=
  ⟨later.context.trans earlier.context, later.scope.trans earlier.scope,
    later.started.trans earlier.started, later.tasks.trans earlier.tasks⟩

structure Working (history : History) (id : CallId) (call : Call) (body : Script)
    (position : Nat) (task : TaskId) (found : Task) : Prop where
  duty : found.duty = some ⟨id, position⟩
  scope : found.scope = call.scope
  started : found.started = call.started
  fresh : found.isFresh = true → history.beginnings ⟨id, position⟩ = [] ∧ found.script = body ∧
    .task task ∈ history.state.ready ∧ history.state.clock = call.started
  begun : found.isFresh = false →
    history.beginnings ⟨id, position⟩ = [(call.started, body)] ∨
      history.beginnings ⟨id, position⟩ = [] ∧ (found.life = .doomed ∨ found.life = .dropped)
  doomed : found.life = .doomed → .task task ∈ history.state.ready
  timed : ∀ time ending, found.life = .ended time ending → ending.Timed time call.started
  pending : task ∈ call.finished → ∃ time ending, found.life = .ended time ending ∧
    (call.aborted = false → time = history.state.clock)
  recorded : ∀ time ending, found.life = .ended time ending → task ∉ call.finished →
    ending.settled position call.started time ∈ history.joinedBy id
  given : call.aborted = true → found.life ≠ .live
  interrupted : found.life = .doomed → history.beginnings ⟨id, position⟩ =
    if found.waits then [(call.started, body)] else []

/-- A task is as far as before if nothing has happened that concerns it, other than that its call
may have joined it. -/
theorem Working.frame {history next : History} {id : CallId} {call after : Call} {body : Script}
    {position : Nat} {task : TaskId} {found : Task}
    (working : Working history id call body position task found) (continues : call.Continues after)
    (aborted : after.aborted = call.aborted) (clock : next.state.clock = history.state.clock)
    (begun : next.beginnings ⟨id, position⟩ = history.beginnings ⟨id, position⟩)
    (waiting : found.isFresh = true ∨ found.life = .doomed → .task task ∈ history.state.ready →
      .task task ∈ next.state.ready)
    (pending : task ∈ after.finished → task ∈ call.finished)
    (recorded : ∀ time ending, found.life = .ended time ending → task ∉ after.finished →
      ending.settled position call.started time ∈ next.joinedBy id) :
    Working next id after body position task found := by
  constructor
  · exact working.duty
  · exact working.scope.trans continues.scope.symm
  · exact working.started.trans continues.started.symm
  · intro fresh
    obtain ⟨unbegun, script, inLine, now⟩ := working.fresh fresh
    exact ⟨begun.trans unbegun, script, waiting (.inl fresh) inLine,
      (clock.trans now).trans continues.started.symm⟩
  · rw [begun, continues.started]
    exact working.begun
  · exact fun doomed => waiting (.inr doomed) (working.doomed doomed)
  · rw [continues.started]
    exact working.timed
  · rw [aborted, clock]
    exact fun member => working.pending (pending member)
  · rw [continues.started]
    exact recorded
  · rw [aborted]
    exact working.given
  · rw [begun, continues.started]
    exact working.interrupted

structure Tracks (history : History) (id : CallId) (steps : List (String × Script))
    (call : Call) : Prop where
  found : history.state.calls[id]? = some call
  nonempty : steps ≠ []
  size : call.tasks.length = steps.length
  working : ∀ position task step, call.tasks[position]? = some task →
    steps[position]? = some step → ∃ found, history.state.tasks[task]? = some found ∧
      Working history id call step.2 position task found
  finished : call.finished.Nodup ∧ ∀ task ∈ call.finished, task ∈ call.tasks
  distinct : ((history.joinedBy id).map Settled.position).Nodup
  joined : ∀ settled ∈ history.joinedBy id, ∃ task found time ending,
    call.tasks[settled.position]? = some task ∧ task ∉ call.finished ∧
      history.state.tasks[task]? = some found ∧ found.life = .ended time ending ∧
      settled = ending.settled settled.position call.started time
  left : call.left + (history.joinedBy id).length = steps.length
  tally : call.tally = (history.joinedBy id).foldl Tally.settle (.start (steps.map Prod.fst))
  ended : call.ended.isSome = true ↔ call.left = 0
  told : call.finished ≠ [] → call.aborted = false → call.ended = none →
    .call id ∈ history.state.ready

theorem Tracks.exists_working {history : History} {id : CallId} {steps : List (String × Script)}
    {call : Call} (tracks : Tracks history id steps call) {position : Nat} {task : TaskId}
    (placed : call.tasks[position]? = some task) :
    ∃ step found, steps[position]? = some step ∧ history.state.tasks[task]? = some found ∧
      Working history id call step.2 position task found := by
  obtain ⟨bound, _⟩ := List.getElem?_eq_some_iff.mp placed
  have named := List.getElem?_eq_getElem (tracks.size ▸ bound : position < steps.length)
  obtain ⟨found, present, working⟩ := tracks.working position task _ placed named
  exact ⟨_, found, named, present, working⟩

structure State.Apart (before after : State) (id : CallId) : Prop where
  clock : after.clock = before.clock
  call : after.calls[id]? = before.calls[id]?
  tasks : ∀ (task : TaskId) (found : Task) (position : Nat), found.duty = some ⟨id, position⟩ →
    before.tasks[task]? = some found → after.tasks[task]? = some found
  waiting : ∀ (task : TaskId) (found : Task) (position : Nat), found.duty = some ⟨id, position⟩ →
    before.tasks[task]? = some found → found.isFresh = true ∨ found.life = .doomed →
    .task task ∈ before.ready → .task task ∈ after.ready
  told : ∀ call, before.calls[id]? = some call → call.aborted = false → call.ended = none →
    .call id ∈ before.ready → .call id ∈ after.ready

theorem Tracks.apart {history next : History} {id : CallId} {steps : List (String × Script)}
    {call : Call} (tracks : Tracks history id steps call)
    (apart : history.state.Apart next.state id) (joined : next.joinedBy id = history.joinedBy id)
    (begun : ∀ position, next.beginnings ⟨id, position⟩ = history.beginnings ⟨id, position⟩) :
    Tracks next id steps call := by
  constructor
  · rw [apart.call, tracks.found]
  · exact tracks.nonempty
  · exact tracks.size
  · intro position task step placed named
    obtain ⟨found, present, working⟩ := tracks.working position task step placed named
    refine ⟨found, apart.tasks task found position working.duty present,
      working.frame (.refl call) rfl apart.clock (begun position)
        (apart.waiting task found position working.duty present) (fun member => member) ?_⟩
    rw [joined]
    exact working.recorded
  · exact tracks.finished
  · rw [joined]
    exact tracks.distinct
  · intro settled member
    rw [joined] at member
    obtain ⟨task, found, time, ending, placed, outside, present, life, entry⟩ :=
      tracks.joined settled member
    obtain ⟨_, same, _, present', working⟩ := tracks.exists_working placed
    obtain rfl : found = same := Option.some.inj (present.symm.trans present')
    exact ⟨task, found, time, ending, placed, outside,
      apart.tasks task found _ working.duty present, life, entry⟩
  · rw [joined]
    exact tracks.left
  · rw [joined]
    exact tracks.tally
  · exact tracks.ended
  · intro some_finished going unended
    exact apart.told call tracks.found going unended (tracks.told some_finished going unended)

/-! ## What happens elsewhere -/

namespace State

theorem Stirs.apart {before after : State} (stirs : before.Stirs after) (id : CallId) :
    before.Apart after id := by
  refine ⟨stirs.clock, by rw [stirs.calls], ?_, ?_, ?_⟩
  · intro task found position _ present
    rw [stirs.tasks]
    exact present
  · exact fun task _ _ _ _ _ inLine => stirs.ready _ inLine
  · exact fun _ _ _ _ inLine => stirs.ready _ inLine

theorem apart_openCall (state : State) (context : ScopeId) (steps : List (String × Script))
    {id : CallId} (known : id < state.calls.length) :
    state.Apart (state.openCall context steps).1 id := by
  have opened := opened_openCall state context steps
  refine ⟨opened.clock, ?_, ?_, ?_, ?_⟩
  · rw [opened.calls, List.getElem?_append_left known]
  · intro task found position _ present
    rw [opened.tasks, List.getElem?_append_left (List.getElem?_eq_some_iff.mp present).1]
    exact present
  · exact fun _ _ _ _ _ _ inLine => opened.ready _ inLine
  · exact fun _ _ _ _ inLine => opened.ready _ inLine

theorem apart_spawn (state : State) (scope : ScopeId) (script : Script) (id : CallId) :
    state.Apart (state.spawn scope none script) id := by
  have woken := stirs_wake
    { state with tasks := state.tasks ++ [Task.new scope none script state.clock] }
    (.task state.tasks.length)
  refine ⟨woken.clock, congrArg (fun calls => calls[id]?) woken.calls, ?_, ?_, ?_⟩
  · intro task found position _ present
    have bound := (List.getElem?_eq_some_iff.mp present).1
    refine (congrArg (fun tasks => tasks[task]?) woken.tasks).trans ?_
    rw [← present]
    exact List.getElem?_append_left bound
  · exact fun _ _ _ _ _ _ inLine => woken.ready _ inLine
  · exact fun _ _ _ _ inLine => woken.ready _ inLine

theorem Doomed.apart {before after : State} {ids : List TaskId} (doomed : before.Doomed ids after)
    (id : CallId)
    (others : ∀ task ∈ ids, ∀ found, before.tasks[task]? = some found →
      ∀ position, found.duty ≠ some ⟨id, position⟩) : before.Apart after id := by
  refine ⟨doomed.clock, by rw [doomed.calls], ?_, ?_, ?_⟩
  · intro task found position works present
    refine doomed.other task found present fun member => ?_
    exact absurd works (others task member found present position)
  · exact fun _ _ _ _ _ _ inLine => doomed.ready _ inLine
  · exact fun _ _ _ _ inLine => doomed.ready _ inLine

theorem not_duty_of_isLoose {state : State} {task : TaskId} (loose : state.isLoose task = true) :
    ∀ found, state.tasks[task]? = some found → found.duty = none := by
  intro found present
  simpa [isLoose, present] using loose

theorem apart_doom (state : State) (task : TaskId) (id : CallId)
    (loose : state.isLoose task = true) : state.Apart (state.doom task) id := by
  refine (doomed_doom state task).apart id ?_
  intro other member found present position works
  obtain rfl := List.mem_singleton.mp member
  rw [not_duty_of_isLoose loose found present] at works
  cases works

theorem apart_release (state : State) (task : TaskId) (id : CallId)
    (loose : state.isLoose task = true) : state.Apart (state.release task) id := by
  unfold release
  split
  · exact (Stirs.refl state).apart id
  · rename_i found present
    split
    · exact (Stirs.refl state).apart id
    · have given := stirs_withLimiter (state.setTask task { found with slots := found.slots - 1 })
        (state.setTask task { found with slots := found.slots - 1 }).limiter.give
      refine ⟨given.clock, congrArg (fun calls => calls[id]?) given.calls, ?_, ?_, ?_⟩
      · intro other known position works there
        have different : task ≠ other := by
          intro same
          subst same
          rw [not_duty_of_isLoose loose known there] at works
          cases works
        refine (congrArg (fun tasks => tasks[other]?) given.tasks).trans ?_
        rw [← there]
        exact List.getElem?_set_ne different
      · exact fun _ _ _ _ _ _ inLine => given.ready _ inLine
      · exact fun _ _ _ _ inLine => given.ready _ inLine

theorem apart_abortCall {state : State} (wired : state.Wired) {id other : CallId}
    (different : other ≠ id) : state.Apart (state.abortCall other) id := by
  cases found : state.calls[other]? with
  | none =>
      have same : state.abortCall other = state := by simp only [abortCall, found]
      rw [same]
      exact (Stirs.refl state).apart id
  | some call =>
      by_cases stopped : (call.aborted || call.ended.isSome) = true
      · rw [abortCall_of_over found stopped]
        exact (Stirs.refl state).apart id
      · have doomed := abortCall_of_going found (Bool.not_eq_true _ ▸ stopped)
        have apart := doomed.apart id (fun task member known present position works => by
          obtain ⟨index, placed⟩ := List.getElem?_of_mem member
          obtain ⟨same, here, duty⟩ := (wired task other index).mpr ⟨call, found, placed⟩
          obtain rfl : same = known := Option.some.inj (here.symm.trans present)
          rw [works] at duty
          exact different (Duty.mk.inj (Option.some.inj duty)).1.symm)
        refine ⟨apart.clock, ?_, apart.tasks, apart.waiting, ?_⟩
        · rw [apart.call]
          exact List.getElem?_set_ne different
        · intro known present going unended inLine
          exact doomed.ready _ inLine

theorem apart_pop (state : State) (worker : Worker) (id : CallId) (not_call : worker ≠ .call id)
    (not_task : ∀ task found position, worker = .task task → state.tasks[task]? = some found →
      found.duty = some ⟨id, position⟩ → found.isFresh = false ∧ found.life ≠ .doomed) :
    state.Apart { state with ready := state.ready.erase worker } id := by
  refine ⟨rfl, rfl, fun _ _ _ _ present => present, ?_, ?_⟩
  · intro task found position works present waits inLine
    refine (List.mem_erase_of_ne fun same => ?_).mpr inLine
    obtain ⟨stale, alive⟩ := not_task task found position same.symm present works
    rcases waits with fresh | doomed
    · rw [stale] at fresh
      cases fresh
    · exact alive doomed
  · intro call _ _ _ inLine
    exact (List.mem_erase_of_ne (Ne.symm not_call)).mpr inLine

theorem Apart.trans {first second third : State} {id : CallId} (earlier : first.Apart second id)
    (later : second.Apart third id) : first.Apart third id := by
  refine ⟨later.clock.trans earlier.clock, later.call.trans earlier.call, ?_, ?_, ?_⟩
  · intro task found position works present
    exact later.tasks task found position works (earlier.tasks task found position works present)
  · intro task found position works present waits inLine
    exact later.waiting task found position works
      (earlier.tasks task found position works present) waits
      (earlier.waiting task found position works present waits inLine)
  · intro call known going unended inLine
    exact later.told call (earlier.call.trans known) going unended
      (earlier.told call known going unended inLine)

theorem Took.apart {before after : State} {task : TaskId} {found next : Task}
    (took : before.Took task found next after) (present : before.tasks[task]? = some found)
    (id : CallId) (other : ∀ position, found.duty ≠ some ⟨id, position⟩)
    (call : after.calls[id]? = before.calls[id]?) : before.Apart after id := by
  refine ⟨took.clock, call, ?_, ?_, ?_⟩
  · intro another known position works there
    have different : task ≠ another := by
      intro same
      subst same
      obtain rfl : found = known := Option.some.inj (present.symm.trans there)
      exact other position works
    rw [took.tasks, List.getElem?_set_ne different]
    exact there
  · exact fun _ _ _ _ _ _ inLine => took.ready _ inLine
  · exact fun _ _ _ _ inLine => took.ready _ inLine

theorem Turned.apart {before after : State} {task : TaskId} (turned : before.Turned task after)
    (id : CallId)
    (other : ∀ found, before.tasks[task]? = some found → ∀ position,
      found.duty ≠ some ⟨id, position⟩) : before.Apart after id := by
  cases turned with
  | idle _ same => exact same ▸ (Stirs.refl before).apart id
  | blocked found next present _ took _ _ calls =>
      exact took.apart present id (other found present) (by rw [calls])
  | ended found next ending present _ took _ _ calls _ =>
      refine took.apart present id (other found present) ?_
      rw [calls]
      cases works : found.duty with
      | none => rfl
      | some duty =>
          have different : duty.call ≠ id := by
            rintro rfl
            exact other found present duty.position works
          simp [different]
  | dropped found next present _ took _ calls =>
      exact took.apart present id (other found present) (by rw [calls])

theorem apart_runCall (state : State) {id other : CallId} (different : other ≠ id) :
    state.Apart (state.runCall other) id := by
  rcases runCall_cases state other with same | ⟨call, found, aborted, ended⟩
  · rw [same]
    exact (Stirs.refl state).apart id
  · rw [runCall_of_going found aborted ended]
    have apart := (stirs_hearing state call.scope (state.entries call)).apart id
    exact ⟨apart.clock, List.getElem?_set_ne different, apart.tasks, apart.waiting, apart.told⟩

end State

end OrderDesk.Schedule
