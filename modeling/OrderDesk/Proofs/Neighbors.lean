import OrderDesk.Proofs.CallBelongings
import OrderDesk.Proofs.Closures
import OrderDesk.Proofs.Separation

/-! Calls side by side. Every task works for a call and in the scope of that call, so tasks of
different calls work in different scopes. Whatever another call does, its tasks included, therefore
spares the realm of a call: it touches neither its tasks nor its scope, and who waits for what among
them stays the same. A worker that takes its turn ends no scope but that of its own call. -/

namespace OrderDesk.Schedule

structure Realm.Owns (realm : Realm) (call : Call) : Prop where
  context : call.context = realm.context
  scope : call.scope = realm.scope
  tasks : call.tasks = List.range' realm.first realm.size

theorem Realm.Owns.of_continues {realm : Realm} {call after : Call} (owns : realm.Owns call)
    (continues : call.Continues after) : realm.Owns after :=
  ⟨continues.context.trans owns.context, continues.scope.trans owns.scope,
    continues.tasks.trans owns.tasks⟩

theorem Realm.Owns.hasTask_iff {realm : Realm} {call : Call} (owns : realm.Owns call)
    {task : TaskId} : realm.hasTask task = true ↔ task ∈ call.tasks := by
  rw [owns.tasks, List.mem_range'_1, Realm.hasTask, Bool.and_eq_true, decide_eq_true_eq,
    decide_eq_true_eq]

namespace State

def Housed (state : State) : Prop :=
  ∀ (id : TaskId) (task : Task), state.tasks[id]? = some task →
    ∃ duty call, task.duty = some duty ∧ state.calls[duty.call]? = some call ∧
      call.scope = task.scope

variable {state : State} {move : Move} {realm : Realm}

theorem housed_start (limiter : Limiter) : (start limiter).Housed := by
  intro id task found
  cases found

theorem Housed.apply (housed : state.Housed) (wired : state.Wired)
    (apart : state.KeepsApart move) : (state.apply move).Housed := by
  intro id next found
  rcases cases_task_apply wired move found with
    ⟨task, present, becomes⟩ | ⟨context, steps, index, rfl, _, step, _, rfl⟩ | ⟨_, _, rfl, _⟩
  · obtain ⟨duty, call, works, known, same⟩ := housed id task present
    obtain ⟨after, advances⟩ := exists_advances move known
    exact ⟨duty, after, becomes.duty.trans works, advances.found,
      advances.continues.scope.trans (same.trans becomes.scope.symm)⟩
  · refine ⟨⟨state.calls.length, index⟩, state.newCall context steps, rfl, ?_, rfl⟩
    rw [State.apply, (opened_openCall state context steps).calls]
    exact List.getElem?_concat_length
  · exact False.elim apart

theorem Housed.play (housed : state.Housed) (wired : state.Wired) {moves : List Move}
    (stays : state.StaysApart moves) : (state.play moves).Housed := by
  induction moves generalizing state with
  | nil => exact housed
  | cons move moves ih => exact ih (housed.apply wired stays.1) (wired.apply move) stays.2

theorem Housed.not_loose (housed : state.Housed) (id : TaskId) : state.isLoose id = false := by
  cases found : state.tasks[id]? with
  | none => simp [isLoose, found]
  | some task =>
      obtain ⟨duty, _, works, _⟩ := housed id task found
      simp [isLoose, found, works]

theorem Housed.alien (housed : state.Housed) (wired : state.Wired) (parts : state.Parts)
    {call : Call} (found : state.calls[realm.call]? = some call) (owns : realm.Owns call)
    {id : TaskId} {task : Task} (present : state.tasks[id]? = some task)
    (foreign : realm.hasTask id = false) : task.Alien realm := by
  obtain ⟨duty, other, works, known, scope⟩ := housed id task present
  have different : duty.call ≠ realm.call := by
    intro same
    obtain ⟨again, found', placed⟩ := (wired id duty.call duty.position).mp ⟨task, present, works⟩
    obtain rfl : call = again := Option.some.inj (found.symm.trans (same ▸ found'))
    rw [owns.hasTask_iff.mpr (List.mem_of_getElem? placed)] at foreign
    cases foreign
  refine ⟨fun same => different ?_, fun again works' => ?_⟩
  · exact parts.call_unique known found (scope.trans (same.trans owns.scope.symm))
  · exact Option.some.inj (works.symm.trans works') ▸ different

theorem Housed.exists_own (housed : state.Housed) (wired : state.Wired)
    {call : Call} (found : state.calls[realm.call]? = some call) (owns : realm.Owns call)
    {position : Nat} (below : position < realm.size) :
    ∃ task, state.tasks[realm.first + position]? = some task ∧
      task.duty = some ⟨realm.call, position⟩ ∧ task.scope = realm.scope := by
  have placed : call.tasks[position]? = some (realm.first + position) := by
    rw [owns.tasks, List.getElem?_range' below, Nat.one_mul]
  obtain ⟨task, present, works⟩ := (wired _ _ _).mpr ⟨call, found, placed⟩
  obtain ⟨duty, other, works', known, scope⟩ := housed _ task present
  obtain rfl := Option.some.inj (works.symm.trans works')
  obtain rfl : call = other := Option.some.inj (found.symm.trans known)
  exact ⟨task, present, works, scope.symm.trans owns.scope⟩

variable {before : State}

theorem Spares.stroke (spares : before.Spares realm state) {id : TaskId} {task : Task} {next : State}
    (stroke : state.Stroke id task next) (foreign : realm.hasTask id = false)
    (alien : task.Alien realm) {own : Scope} (placed : before.scopes[realm.scope]? = some own)
    (heard : ∀ listener ∈ before.listeners, realm.hasTask listener.1 = true →
      listener.2 = realm.scope)
    (outside : task.scope ∉ own.lineage) : before.Spares realm next := by
  cases stroke with
  | count running => exact { spares with }
  | note notes => exact { spares with }
  | limit change line woken =>
      refine spares.relimit (fun other member => ?_) fun other member =>
        spares.queue other (woken other member)
      rcases line other member with old | rfl
      · exact spares.queue other old
      · exact foreign
  | setTimer due => exact spares.setTimer foreign due
  | listen => exact spares.listen foreign task.scope
  | unlisten => exact spares.unlisten foreign
  | cancel _ => exact spares.cancel_outside (spares.scope.trans placed) heard outside
  | setTask next => exact spares.setTask foreign next
  | report duty works => exact spares.report (alien.duty duty works) id

theorem Spares.runTask (spares : before.Spares realm state) {id : TaskId}
    (foreign : realm.hasTask id = false) {own : Scope}
    (placed : before.scopes[realm.scope]? = some own)
    (heard : ∀ listener ∈ before.listeners, realm.hasTask listener.1 = true →
      listener.2 = realm.scope)
    (other : ∀ task, state.tasks[id]? = some task →
      task.Alien realm ∧ task.scope ∉ own.lineage) :
    before.Spares realm (state.runTask id) := by
  cases found : state.tasks[id]? with
  | none => simpa only [State.runTask, found] using spares
  | some task =>
      obtain ⟨alien, outside⟩ := other task found
      have kept {after : State} (done : Strokes id task state after) :
          before.Spares realm after := by
        induction done with
        | refl => exact spares
        | tail _ stroke ih => exact ih.stroke stroke foreign alien placed heard outside
      exact kept (strokes_runTask found)

theorem Spares.runCall (spares : before.Spares realm state) {id : CallId} (other : id ≠ realm.call)
    {own : Scope} (placed : before.scopes[realm.scope]? = some own)
    (heard : ∀ listener ∈ before.listeners, realm.hasTask listener.1 = true →
      listener.2 = realm.scope)
    (outside : ∀ call, state.calls[id]? = some call → call.scope ∉ own.lineage) :
    before.Spares realm (state.runCall id) := by
  rcases runCall_cases state id with same | ⟨call, found, aborted, ended⟩
  · rw [same]
    exact spares
  · have heeded : before.Spares realm (state.hearing call.scope (state.entries call)) := by
      unfold hearing
      split
      · exact spares
      · exact spares.cancel_outside (spares.scope.trans placed) heard (outside call found)
    rw [runCall_of_going found aborted ended]
    exact { heeded with call := (List.getElem?_set_ne other).trans spares.call }

/-- What the call has to itself is not touched when another call is given up, and not by the turn of
a worker that is not its own. -/
theorem Housed.spares (housed : state.Housed) (wired : state.Wired) (separate : state.Separate)
    {call : Call} (found : state.calls[realm.call]? = some call) (owns : realm.Owns call)
    {own : Scope} (placed : state.scopes[realm.scope]? = some own)
    (heard : ∀ listener ∈ state.listeners, realm.hasTask listener.1 = true →
      listener.2 = realm.scope)
    (quiet : state.limiter.line = []) :
    (∀ id, id ≠ realm.call → state.Spares realm (state.abortCall id)) ∧
      ∀ worker, realm.has worker = false → state.Spares realm (state.apply (.turn worker)) := by
  have spares : state.Spares realm state := .refl (by simp [quiet])
  have apart (target : ScopeId) (base : target ∈ state.bases) (other : target ≠ realm.scope) :
      target ∉ own.lineage := fun member =>
    other (separate.pure realm.scope own placed target member base)
  have based (id : CallId) (record : Call) (known : state.calls[id]? = some record) :
      record.scope ∈ state.bases := List.mem_map_of_mem (List.mem_of_getElem? known)
  refine ⟨fun id other => spares.abortCall other fun record known task member => ?_,
    fun worker foreign => ?_⟩
  · obtain ⟨position, there⟩ := List.getElem?_of_mem member
    obtain ⟨worked, present, works⟩ := (wired task id position).mpr ⟨record, known, there⟩
    by_contra mine
    obtain ⟨place, here⟩ := List.getElem?_of_mem
      (owns.hasTask_iff.mp (Bool.not_eq_false _ ▸ mine))
    obtain ⟨again, present', works'⟩ := (wired task realm.call place).mpr ⟨call, found, here⟩
    obtain rfl := Option.some.inj (present.symm.trans present')
    rw [works] at works'
    exact other (Duty.mk.inj (Option.some.inj works')).1
  · have popped := spares.pop foreign
    simp only [State.apply]
    split
    · cases worker with
      | task id =>
          refine popped.runTask foreign placed heard fun task present => ?_
          have alien := housed.alien wired separate.parts found owns present foreign
          obtain ⟨duty, record, _, known, scope⟩ := housed id task present
          exact ⟨alien, apart task.scope (scope ▸ based _ record known) alien.scope⟩
      | call id =>
          have other : id ≠ realm.call := by simpa [Realm.has] using foreign
          refine popped.runCall other placed heard fun record known => ?_
          refine apart record.scope (based id record known) fun same => other ?_
          exact separate.parts.call_unique known found (same.trans owns.scope.symm)
    · exact spares

/-! ## Scopes of others -/

/-- Why the scope of a call ends with a move, unless somebody ends its context: the call joins a
failure of one of its steps, or the body of a step cancels it. -/
def Provokes (state : State) (id : CallId) (call : Call) : Move → Prop
  | .turn (.call other) => other = id ∧ failures (state.entries call) ≠ []
  | .turn (.task task) => ∃ found position, state.tasks[task]? = some found ∧
      found.duty = some ⟨id, position⟩ ∧ .cancel ∈ found.script
  | _ => False

/-- The move ends no scope but that of a call that provokes it, and nobody's context. -/
def Confines (state : State) (move : Move) : Prop :=
  ∀ scope < state.scopes.length, (state.apply move).cause? scope ≠ state.cause? scope →
    ∃ id call, state.calls[id]? = some call ∧ call.scope = scope ∧ state.Provokes id call move ∧
      ∀ other ∈ state.calls, other.context ≠ scope

/-- Every call works on a context that exists and belongs to no call. -/
def Exposed (state : State) : Prop :=
  ∀ call ∈ state.calls, call.context < state.scopes.length ∧ call.context ∉ state.bases

theorem cases_call_apply (state : State) (move : Move) {id : CallId} {after : Call}
    (found : (state.apply move).calls[id]? = some after) :
    (∃ call, state.calls[id]? = some call ∧ call.Continues after) ∨
      ∃ context steps, move = .openCall context steps ∧ after = state.newCall context steps := by
  rcases Nat.lt_or_ge id state.calls.length with old | new
  · have present := List.getElem?_eq_getElem old
    obtain ⟨again, advances⟩ := exists_advances move present
    obtain rfl := Option.some.inj (found.symm.trans advances.found)
    exact .inl ⟨_, present, advances.continues⟩
  · right
    have bound := (List.getElem?_eq_some_iff.mp found).1
    rcases sameWiring_apply state move with same | ⟨context, steps, rfl⟩ | ⟨target, script, rfl⟩
    · have counted := congrArg List.length same.rosters
      simp only [rosters, List.length_map] at counted
      exact absurd bound (by omega)
    · rw [apply, (opened_openCall state context steps).calls,
        List.getElem?_append_right new] at found
      exact ⟨context, steps, rfl, List.mem_singleton.mp (List.mem_of_getElem? found)⟩
    · simp only [apply, spawn, calls_wake] at bound
      exact absurd bound (Nat.not_lt.mpr new)

theorem exposed_start (limiter : Limiter) : (start limiter).Exposed := by
  intro call member
  cases member

theorem Exposed.apply (exposed : state.Exposed) (allowed : state.Allows move)
    (apart : state.KeepsApart move) : (state.apply move).Exposed := by
  intro after member
  obtain ⟨id, found⟩ := List.getElem?_of_mem member
  have grows := (apply_extends state move).length_le
  obtain ⟨known, outside⟩ : after.context < state.scopes.length ∧ after.context ∉ state.bases := by
    rcases cases_call_apply state move found with
      ⟨call, present, continues⟩ | ⟨context, steps, rfl, rfl⟩
    · exact continues.context ▸ exposed call (List.mem_of_getElem? present)
    · exact ⟨allowed, apart⟩
  exact ⟨Nat.lt_of_lt_of_le known grows, not_mem_bases_apply known outside apart⟩

theorem Exposed.play (exposed : state.Exposed) {moves : List Move} (follows : state.Follows moves)
    (stays : state.StaysApart moves) : (state.play moves).Exposed := by
  induction moves generalizing state with
  | nil => exact exposed
  | cons move moves ih => exact ih (exposed.apply follows.1 stays.1) follows.2 stays.2

theorem Separate.confines (separate : state.Separate) (housed : state.Housed)
    (exposed : state.Exposed) (other : ∀ target, move ≠ .cancel target)
    (still : ∀ time, move ≠ .jump time) : state.Confines move := by
  intro scope known ends
  have clock : (state.apply move).clock = state.clock := by
    rcases clock_apply state move with same | ⟨time, jump, _⟩
    · exact same
    · exact absurd jump (still time)
  have changed : (state.apply move).scopes[scope]? ≠ state.scopes[scope]? := fun same =>
    ends (by simp only [cause?, Scopes.cause?, same, clock])
  cases rescopes_apply state move with
  | same unchanged => exact absurd (by rw [unchanged]) changed
  | background _ added =>
      refine absurd ?_ changed
      rw [added]
      exact List.getElem?_append_left known
  | derived parent deadline _ added =>
      refine absurd ?_ changed
      rw [added, Scopes.derive]
      split <;> exact List.getElem?_append_left known
  | canceled target may marked =>
      have own := separate.mem_bases_of_mayCancel other may
      obtain rfl : target = scope := by
        have placed := List.getElem?_eq_getElem known
        by_contra different
        refine changed ?_
        rw [marked, Scopes.getElem?_cancel, placed, Option.map_some]
        split
        · rename_i within
          exact absurd (separate.pure scope _ placed target (List.contains_iff_mem.mp within) own)
            different
        · rfl
      have contexts (call : Call) (member : call ∈ state.calls) : call.context ≠ target :=
        fun same => (exposed call member).2 (same ▸ own)
      unfold MayCancel at may
      split at may
      · exact absurd rfl (other _)
      · obtain ⟨task, found, rfl, listed⟩ := may
        obtain ⟨duty, call, works, present, scope⟩ := housed _ task found
        exact ⟨duty.call, call, present, scope, ⟨task, duty.position, found, works, listed⟩,
          contexts⟩
      · obtain ⟨call, found, rfl, failed⟩ := may
        exact ⟨_, call, found, rfl, ⟨rfl, failed⟩, contexts⟩
      · cases may

end State

end OrderDesk.Schedule
