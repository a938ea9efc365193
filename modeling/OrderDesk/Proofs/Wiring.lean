import Mathlib.Logic.Basic
import OrderDesk.Proofs.Timers

/-! Which task works for which call, and where. A task keeps its duty and a call keeps its tasks
for good, and the two always tell the same story: the task with a duty is the one that the call has
in that place. Both keep their scopes, too. What is on record about bodies and joins is about calls
that exist. -/

namespace OrderDesk.Schedule

theorem map_set_of_eq {α β : Type} (view : α → β) (items : List α) (index : Nat) (old new : α)
    (found : items[index]? = some old) (same : view new = view old) :
    (items.set index new).map view = items.map view := by
  apply List.ext_getElem?
  intro other
  simp only [List.getElem?_map, List.getElem?_set]
  by_cases equal : index = other
  · subst equal
    obtain ⟨bound, here⟩ := List.getElem?_eq_some_iff.mp found
    simp [bound, same, here]
  · simp [equal]

theorem map_modify_of_eq {α β : Type} (view : α → β) (items : List α) (index : Nat)
    (change : α → α) (same : ∀ item, view (change item) = view item) :
    (items.modify index change).map view = items.map view := by
  apply List.ext_getElem?
  intro other
  simp only [List.getElem?_map, List.getElem?_modify]
  cases items[other]? with
  | none => rfl
  | some item =>
      by_cases equal : index = other
      · simp [equal, same]
      · simp [equal]

namespace State

def duties (state : State) : List (Option Duty) :=
  state.tasks.map Task.duty

def rosters (state : State) : List (List TaskId) :=
  state.calls.map Call.tasks

def posts (state : State) : List ScopeId :=
  state.tasks.map Task.scope

def bases (state : State) : List ScopeId :=
  state.calls.map Call.scope

structure SameWiring (before after : State) : Prop where
  duties : after.duties = before.duties
  posts : after.posts = before.posts
  rosters : after.rosters = before.rosters
  bases : after.bases = before.bases

theorem SameWiring.refl (state : State) : state.SameWiring state := ⟨rfl, rfl, rfl, rfl⟩

theorem SameWiring.trans {first second third : State} (earlier : first.SameWiring second)
    (later : second.SameWiring third) : first.SameWiring third :=
  ⟨later.duties.trans earlier.duties, later.posts.trans earlier.posts,
    later.rosters.trans earlier.rosters, later.bases.trans earlier.bases⟩

theorem SameWiring.of_calls {before after : State} (duties : after.duties = before.duties)
    (posts : after.posts = before.posts) (calls : after.calls = before.calls) :
    before.SameWiring after :=
  ⟨duties, posts, by simp only [State.rosters, calls], by simp only [State.bases, calls]⟩

theorem SameWiring.of_tasks {before after : State} (tasks : after.tasks = before.tasks)
    (rosters : after.rosters = before.rosters) (bases : after.bases = before.bases) :
    before.SameWiring after :=
  ⟨by simp only [State.duties, tasks], by simp only [State.posts, tasks], rosters, bases⟩

theorem Stirs.sameWiring {before after : State} (stirs : before.Stirs after) :
    before.SameWiring after :=
  .of_tasks stirs.tasks (by simp only [rosters, stirs.calls]) (by simp only [bases, stirs.calls])

theorem Took.duties {before after : State} {id : TaskId} {task next : Task}
    (took : before.Took id task next after) (found : before.tasks[id]? = some task) :
    after.duties = before.duties := by
  simp only [State.duties, took.tasks]
  exact map_set_of_eq _ _ _ _ _ found took.duty

theorem Took.posts {before after : State} {id : TaskId} {task next : Task}
    (took : before.Took id task next after) (found : before.tasks[id]? = some task) :
    after.posts = before.posts := by
  simp only [State.posts, took.tasks]
  exact map_set_of_eq _ _ _ _ _ found took.scope

theorem Turned.sameWiring {before after : State} {id : TaskId}
    (turned : before.Turned id after) : before.SameWiring after := by
  cases turned with
  | idle _ same => exact same ▸ .refl before
  | blocked task next found _ took _ _ calls =>
      exact .of_calls (took.duties found) (took.posts found) calls
  | ended task next ending found _ took _ _ calls _ =>
      refine ⟨took.duties found, took.posts found, ?_, ?_⟩
      · simp only [State.rosters, calls]
        cases task.duty with
        | none => rfl
        | some duty => exact map_modify_of_eq _ _ _ _ fun call => rfl
      · simp only [State.bases, calls]
        cases task.duty with
        | none => rfl
        | some duty => exact map_modify_of_eq _ _ _ _ fun call => rfl
  | dropped task next found _ took _ calls =>
      exact .of_calls (took.duties found) (took.posts found) calls

theorem sameWiring_runCall (state : State) (id : CallId) : state.SameWiring (state.runCall id) := by
  rcases runCall_cases state id with same | ⟨call, found, aborted, ended⟩
  · rw [same]
    exact .refl state
  · rw [runCall_of_going found aborted ended]
    have stirs := stirs_hearing state call.scope (state.entries call)
    exact .of_tasks stirs.tasks (map_set_of_eq _ _ _ _ _ found rfl)
      (map_set_of_eq _ _ _ _ _ found rfl)

theorem sameWiring_run (state : State) (worker : Worker) :
    state.SameWiring (state.run worker) := by
  cases worker with
  | task id => exact (turned_runTask state id).sameWiring
  | call id => exact sameWiring_runCall state id

theorem Doomed.map_tasks {before after : State} {ids : List TaskId}
    (doomed : before.Doomed ids after) {α : Type} (view : Task → α)
    (same : ∀ (task : Task) (life : Life), view { task with life := life } = view task) :
    after.tasks.map view = before.tasks.map view := by
  apply List.ext_getElem?
  intro id
  simp only [List.getElem?_map]
  cases found : before.tasks[id]? with
  | none =>
      have outside := List.getElem?_eq_none_iff.mp found
      rw [List.getElem?_eq_none_iff.mpr (by rw [doomed.size]; exact outside)]
  | some task =>
      by_cases hit : id ∈ ids ∧ task.life = .live
      · rw [(doomed.live id hit.1 task found hit.2).1]
        exact congrArg some (same task .doomed)
      · rw [doomed.other id task found fun member live => hit ⟨member, live⟩]

theorem Doomed.sameWiring {before after : State} {ids : List TaskId}
    (doomed : before.Doomed ids after) : before.SameWiring after :=
  .of_calls (doomed.map_tasks Task.duty fun _ _ => rfl)
    (doomed.map_tasks Task.scope fun _ _ => rfl) doomed.calls

theorem sameWiring_abortCall (state : State) (id : CallId) :
    state.SameWiring (state.abortCall id) := by
  cases found : state.calls[id]? with
  | none => simp only [abortCall, found]; exact .refl state
  | some call =>
      by_cases stopped : (call.aborted || call.ended.isSome) = true
      · rw [abortCall_of_over found stopped]
        exact .refl state
      · have doomed := abortCall_of_going found (Bool.not_eq_true _ ▸ stopped)
        have marked : state.SameWiring
            { state with calls := state.calls.set id { call with aborted := true } } :=
          .of_tasks rfl (map_set_of_eq _ _ _ _ _ found rfl) (map_set_of_eq _ _ _ _ _ found rfl)
        exact marked.trans doomed.sameWiring

theorem sameWiring_release (state : State) (id : TaskId) :
    state.SameWiring (state.release id) := by
  unfold release
  split
  · exact .refl state
  · rename_i task found
    split
    · exact .refl state
    · have kept : state.SameWiring (state.setTask id { task with slots := task.slots - 1 }) :=
        .of_calls (map_set_of_eq _ _ _ _ _ found rfl) (map_set_of_eq _ _ _ _ _ found rfl) rfl
      exact kept.trans (stirs_withLimiter _ _).sameWiring

/-- A task has a duty exactly if the call of that duty has it in its place. -/
def Wired (state : State) : Prop :=
  ∀ (task : TaskId) (id : CallId) (position : Nat),
    (∃ found, state.tasks[task]? = some found ∧ found.duty = some ⟨id, position⟩) ↔
      ∃ call, state.calls[id]? = some call ∧ call.tasks[position]? = some task

theorem wired_iff (state : State) :
    state.Wired ↔ ∀ (task : TaskId) (id : CallId) (position : Nat),
      state.duties[task]? = some (some ⟨id, position⟩) ↔
        ∃ roster, state.rosters[id]? = some roster ∧ roster[position]? = some task := by
  simp only [Wired, duties, rosters, List.getElem?_map, Option.map_eq_some_iff,
    exists_exists_and_eq_and]

theorem Wired.of_sameWiring {before after : State} (wired : before.Wired)
    (same : before.SameWiring after) : after.Wired := by
  rw [wired_iff] at wired ⊢
  rw [same.duties, same.rosters]
  exact wired

theorem Wired.duty_lt {state : State} (wired : state.Wired) {task : TaskId} {found : Task}
    {duty : Duty} (present : state.tasks[task]? = some found) (works : found.duty = some duty) :
    duty.call < state.calls.length := by
  obtain ⟨call, known, _⟩ := (wired task duty.call duty.position).mp ⟨found, present, works⟩
  exact (List.getElem?_eq_some_iff.mp known).1

theorem Wired.openCall {state : State} (wired : state.Wired) (context : ScopeId)
    (steps : List (String × Script)) : (state.openCall context steps).1.Wired := by
  have opened := opened_openCall state context steps
  intro task id position
  rw [opened.tasks, opened.calls]
  rcases Nat.lt_or_ge task state.tasks.length with old | new
  · rw [List.getElem?_append_left old, wired task id position]
    rcases Nat.lt_or_ge id state.calls.length with known | unknown
    · rw [List.getElem?_append_left known]
    · rw [List.getElem?_eq_none unknown, List.getElem?_append_right unknown]
      constructor
      · rintro ⟨call, absurd, _⟩
        cases absurd
      · rintro ⟨call, present, placed⟩
        obtain rfl := List.mem_singleton.mp (List.mem_of_getElem? present)
        have member : task ∈ List.range' state.tasks.length steps.length :=
          List.mem_of_getElem? placed
        have bound := (List.mem_range'_1.mp member).1
        omega
  · rw [List.getElem?_append_right new, getElem?_stepTasks]
    constructor
    · rintro ⟨found, present, works⟩
      obtain ⟨script, step, rfl⟩ := Option.map_eq_some_iff.mp present
      simp only [Task.new, Option.some.injEq, Duty.mk.injEq] at works
      obtain ⟨rfl, rfl⟩ := works
      have bound : task - state.tasks.length < steps.length := by
        simpa using (List.getElem?_eq_some_iff.mp step).1
      refine ⟨state.newCall context steps, by simp, ?_⟩
      simp only [newCall, Call.new]
      rw [List.getElem?_range' bound, Nat.one_mul, Nat.add_sub_cancel' new]
    · rintro ⟨call, present, placed⟩
      rcases Nat.lt_or_ge id state.calls.length with known | unknown
      · rw [List.getElem?_append_left known] at present
        obtain ⟨found, here, _⟩ := (wired task id position).mpr ⟨call, present, placed⟩
        have bound := (List.getElem?_eq_some_iff.mp here).1
        exact absurd bound (Nat.not_lt.mpr new)
      · rw [List.getElem?_append_right unknown] at present
        have bound := (List.getElem?_eq_some_iff.mp present).1
        have last : id = state.calls.length := by
          rw [List.length_singleton] at bound
          exact Nat.le_antisymm (Nat.le_of_sub_eq_zero (Nat.lt_one_iff.mp bound)) unknown
        obtain rfl := List.mem_singleton.mp (List.mem_of_getElem? present)
        subst last
        simp only [newCall, Call.new] at placed
        obtain ⟨bound, here⟩ := List.getElem?_eq_some_iff.mp placed
        simp only [List.length_range'] at bound
        simp only [List.getElem_range', Nat.one_mul] at here
        subst here
        refine ⟨_, Option.map_eq_some_iff.mpr ⟨steps[position].2, ?_, rfl⟩, ?_⟩
        · simp [bound]
        · simp [Task.new]

theorem Wired.spawn {state : State} (wired : state.Wired) (scope : ScopeId) (script : Script) :
    (state.spawn scope none script).Wired := by
  have woken := stirs_wake
    { state with tasks := state.tasks ++ [Task.new scope none script state.clock] }
    (.task state.tasks.length)
  refine Wired.of_sameWiring ?_ woken.sameWiring
  intro task id position
  rw [← wired task id position]
  rcases Nat.lt_or_ge task state.tasks.length with old | new
  · rw [List.getElem?_append_left old]
  · rw [List.getElem?_append_right new, List.getElem?_eq_none new]
    constructor
    · rintro ⟨found, present, works⟩
      obtain rfl := List.mem_singleton.mp (List.mem_of_getElem? present)
      cases works
    · rintro ⟨found, absurd, _⟩
      cases absurd

/-- Only opening a call and adding a task of its own change the wiring. -/
theorem sameWiring_apply (state : State) (move : Move) :
    state.SameWiring (state.apply move) ∨
      (∃ context steps, move = .openCall context steps) ∨
      ∃ scope script, move = .spawn scope script := by
  have unchanged := SameWiring.refl state
  cases move with
  | addBackground => exact .inl (.of_tasks rfl rfl rfl)
  | derive parent deadline => exact .inl (.of_tasks rfl rfl rfl)
  | cancel target => exact .inl (stirs_cancelScope state target).sameWiring
  | openCall context steps => exact .inr (.inl ⟨context, steps, rfl⟩)
  | abortCall id => exact .inl (sameWiring_abortCall state id)
  | spawn scope script => exact .inr (.inr ⟨scope, script, rfl⟩)
  | doom id =>
      have doomed := doomed_doom state id
      simp only [State.apply]
      split
      · exact .inl doomed.sameWiring
      · exact .inl unchanged
  | release id =>
      simp only [State.apply]
      split
      · exact .inl (sameWiring_release state id)
      · exact .inl unchanged
  | turn worker =>
      have kept := sameWiring_run { state with ready := state.ready.erase worker } worker
      simp only [State.apply]
      split
      · exact .inl ⟨kept.duties, kept.posts, kept.rosters, kept.bases⟩
      · exact .inl unchanged
  | jump time =>
      simp only [State.apply]
      split
      · refine .inl ⟨?_, ?_, ?_, ?_⟩
        · simp [State.duties, State.jump]
        · simp [State.posts, State.jump]
        · simp [State.rosters, State.jump]
        · simp [State.bases, State.jump]
      · exact .inl unchanged

theorem Wired.apply {state : State} (wired : state.Wired) (move : Move) :
    (state.apply move).Wired := by
  rcases sameWiring_apply state move with same | ⟨context, steps, rfl⟩ | ⟨scope, script, rfl⟩
  · exact wired.of_sameWiring same
  · exact wired.openCall context steps
  · exact wired.spawn scope script

theorem Wired.play {state : State} (wired : state.Wired) (moves : List Move) : (state.play moves).Wired := by
  induction moves generalizing state with
  | nil => exact wired
  | cons move moves ih => exact ih (wired.apply move)

theorem length_tasks_le (state : State) (move : Move) :
    state.tasks.length ≤ (state.apply move).tasks.length := by
  rcases sameWiring_apply state move with same | ⟨context, steps, rfl⟩ | ⟨scope, script, rfl⟩
  · have counted := congrArg List.length same.duties
    simp only [State.duties, List.length_map] at counted
    omega
  · have opened := opened_openCall state context steps
    simp [State.apply, opened.tasks]
  · simp [State.apply, State.spawn]

theorem length_calls_le (state : State) (move : Move) :
    state.calls.length ≤ (state.apply move).calls.length := by
  rcases sameWiring_apply state move with same | ⟨context, steps, rfl⟩ | ⟨scope, script, rfl⟩
  · have counted := congrArg List.length same.rosters
    simp only [State.rosters, List.length_map] at counted
    omega
  · have opened := opened_openCall state context steps
    simp [State.apply, opened.calls]
  · simp [State.apply, State.spawn]

end State

/-! ## Histories -/

structure History.Sound (history : History) : Prop where
  wired : history.state.Wired
  punctual : history.state.Punctual
  begun : ∀ beginning ∈ history.begun, beginning.duty.call < history.state.calls.length
  joined : ∀ entry ∈ history.joined, entry.1 < history.state.calls.length

namespace State

theorem begun_lt {state : State} (wired : state.Wired) (move : Move) :
    ∀ beginning ∈ state.begun move, beginning.duty.call < state.calls.length := by
  intro beginning member
  unfold begun at member
  split at member
  · rename_i task
    split at member
    · rename_i found present
      split at member
      · simp only [Option.mem_toList, Option.map_eq_some_iff] at member
        obtain ⟨duty, works, rfl⟩ := member
        exact wired.duty_lt present works
      · cases member
    · cases member
  · cases member

theorem joined_lt (state : State) (move : Move) :
    ∀ entry ∈ state.joined move, entry.1 < state.calls.length := by
  intro entry member
  unfold joined at member
  split at member
  · rename_i id
    split at member
    · rename_i call found
      split at member
      · obtain ⟨settled, _, rfl⟩ := List.mem_map.mp member
        exact (List.getElem?_eq_some_iff.mp found).1
      · cases member
    · cases member
  · cases member

end State

namespace History

theorem sound_start (limiter : Limiter) : (start limiter).Sound := by
  refine ⟨?_, State.punctual_start limiter, by simp [start], by simp [start]⟩
  intro task id position
  simp [start, State.start]

theorem Sound.add {history : History} (sound : history.Sound) (move : Move) :
    (history.add move).Sound := by
  have grows := State.length_calls_le history.state move
  refine ⟨sound.wired.apply move, sound.punctual.apply move, ?_, ?_⟩
  · intro beginning member
    rcases List.mem_append.mp member with old | new
    · exact Nat.lt_of_lt_of_le (sound.begun beginning old) grows
    · exact Nat.lt_of_lt_of_le (State.begun_lt sound.wired move beginning new) grows
  · intro entry member
    rcases List.mem_append.mp member with old | new
    · exact Nat.lt_of_lt_of_le (sound.joined entry old) grows
    · exact Nat.lt_of_lt_of_le (State.joined_lt history.state move entry new) grows

theorem Sound.play {history : History} (sound : history.Sound) (moves : List Move) :
    (history.play moves).Sound :=
  play_keeps Sound history moves sound fun _ move kept => kept.add move

theorem Sound.joinedBy_eq_nil {history : History} (sound : history.Sound) {id : CallId}
    (unknown : history.state.calls.length ≤ id) : history.joinedBy id = [] := by
  simp only [joinedBy, List.map_eq_nil_iff, List.filter_eq_nil_iff, beq_iff_eq]
  intro entry member same
  exact absurd (same ▸ sound.joined entry member) (Nat.not_lt.mpr unknown)

theorem Sound.beginnings_eq_nil {history : History} (sound : history.Sound) {duty : Duty}
    (unknown : history.state.calls.length ≤ duty.call) : history.beginnings duty = [] := by
  simp only [beginnings, List.map_eq_nil_iff, List.filter_eq_nil_iff, beq_iff_eq]
  intro beginning member same
  exact absurd (same ▸ sound.begun beginning member) (Nat.not_lt.mpr unknown)

end History

end OrderDesk.Schedule
