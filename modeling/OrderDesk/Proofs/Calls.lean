import OrderDesk.Proofs.Turns

/-! How calls begin and how they are given up. An opened call has one fresh task in line for each
of its steps, in their order. A call that is given up dooms those of its tasks that are live, and
each of them is in line to drop everything. -/

namespace OrderDesk.Schedule

namespace State

def stepTasks (scope : ScopeId) (id : CallId) (clock position : Nat) (scripts : List Script) :
    List Task :=
  scripts.mapIdx fun index script =>
    Task.new scope (some ⟨id, position + index⟩) script clock

theorem stepTasks_cons (scope : ScopeId) (id : CallId) (clock position : Nat) (script : Script)
    (scripts : List Script) :
    stepTasks scope id clock position (script :: scripts) =
      Task.new scope (some ⟨id, position⟩) script clock ::
        stepTasks scope id clock (position + 1) scripts := by
  simp only [stepTasks, List.mapIdx_cons, Nat.add_zero, List.cons.injEq, true_and]
  congr 1
  funext index script
  rw [Nat.add_assoc, Nat.add_comm 1]

structure Spawned (before : State) (added : List Task) (ids : List TaskId) (after : State) :
    Prop where
  clock : after.clock = before.clock
  calls : after.calls = before.calls
  tasks : after.tasks = before.tasks ++ added
  scopes : after.scopes = before.scopes
  limiter : after.limiter = before.limiter
  running : after.running = before.running
  ready : ∀ worker ∈ before.ready, worker ∈ after.ready
  numbered : ids = List.range' before.tasks.length added.length
  inLine : ∀ id ∈ ids, .task id ∈ after.ready

theorem spawned_spawnSteps (state : State) (scope : ScopeId) (id : CallId) (position : Nat)
    (scripts : List Script) :
    state.Spawned (stepTasks scope id state.clock position scripts)
      (state.spawnSteps scope id position scripts).2
      (state.spawnSteps scope id position scripts).1 := by
  induction scripts generalizing state position with
  | nil =>
      exact ⟨rfl, rfl, by simp [spawnSteps, stepTasks], rfl, rfl, rfl, fun _ member => member, rfl,
        by simp [spawnSteps]⟩
  | cons script scripts ih =>
      let first := state.spawn scope (some ⟨id, position⟩) script
      have woken := stirs_wake
        { state with
          tasks := state.tasks ++ [Task.new scope (some ⟨id, position⟩) script state.clock] }
        (.task state.tasks.length)
      have clock : first.clock = state.clock := woken.clock
      have tasks : first.tasks =
          state.tasks ++ [Task.new scope (some ⟨id, position⟩) script state.clock] := woken.tasks
      have scopes : first.scopes = state.scopes := by
        change (State.wake _ _).scopes = _
        rw [wake_eq]
      have limiter : first.limiter = state.limiter := by
        change (State.wake _ _).limiter = _
        rw [wake_eq]
      have running : first.running = state.running := by
        change (State.wake _ _).running = _
        rw [wake_eq]
      have later := ih first (position + 1)
      have counted : (stepTasks scope id first.clock (position + 1) scripts).length =
          scripts.length := by simp [stepTasks]
      have numbered := later.numbered
      simp only [tasks, List.length_append, List.length_singleton, counted] at numbered
      have appended := later.tasks
      rw [tasks, clock, List.append_assoc] at appended
      rw [stepTasks_cons]
      refine ⟨later.clock.trans clock, later.calls.trans woken.calls, appended,
        later.scopes.trans scopes, later.limiter.trans limiter, later.running.trans running,
        ?_, ?_, ?_⟩
      · exact fun worker member => later.ready worker (woken.ready worker member)
      · rw [List.length_cons, List.range'_succ, ← clock, counted, ← numbered]
        rfl
      · intro task member
        rcases List.mem_cons.mp member with same | other
        · subst same
          exact later.ready _ (mem_ready_wake _ _)
        · exact later.inLine task other

def newCall (state : State) (context : ScopeId) (steps : List (String × Script)) : Call :=
  Call.new context state.scopes.length state.clock (steps.map Prod.fst)
    (List.range' state.tasks.length steps.length)

structure Opened (before : State) (context : ScopeId) (steps : List (String × Script))
    (after : State) : Prop where
  clock : after.clock = before.clock
  scopes : after.scopes = before.scopes.derive context none
  calls : after.calls = before.calls ++ [before.newCall context steps]
  tasks : after.tasks = before.tasks ++
    stepTasks before.scopes.length before.calls.length before.clock 0 (steps.map Prod.snd)
  limiter : after.limiter = before.limiter
  running : after.running = before.running
  ready : ∀ worker ∈ before.ready, worker ∈ after.ready
  inLine : ∀ id ∈ (before.newCall context steps).tasks, .task id ∈ after.ready

theorem opened_openCall (state : State) (context : ScopeId) (steps : List (String × Script)) :
    state.Opened context steps (state.openCall context steps).1 := by
  have spawned := spawned_spawnSteps (state.derive context none).1 state.scopes.length
    state.calls.length 0 (steps.map Prod.snd)
  have ids := spawned.numbered
  simp only [derive, stepTasks, List.length_mapIdx, List.length_map] at ids
  constructor
  · exact spawned.clock
  · exact spawned.scopes
  · have calls : (((state.derive context none).1.spawnSteps state.scopes.length state.calls.length 0
        (steps.map Prod.snd)).1).calls = state.calls := spawned.calls
    simp only [openCall, newCall]
    simp only [derive] at calls ids ⊢
    rw [calls, ids]
  · exact spawned.tasks
  · exact spawned.limiter
  · exact spawned.running
  · exact spawned.ready
  · intro id member
    apply spawned.inLine
    have numbered : (newCall state context steps).tasks =
        List.range' state.tasks.length steps.length := rfl
    rw [numbered] at member
    simpa only [derive, ids] using member

theorem getElem?_stepTasks (scope : ScopeId) (id : CallId) (clock : Nat) (scripts : List Script)
    (position : Nat) :
    (stepTasks scope id clock 0 scripts)[position]? =
      scripts[position]?.map fun script => Task.new scope (some ⟨id, position⟩) script clock := by
  simp [stepTasks]

/-! ## Giving up a call -/

structure Doomed (before : State) (ids : List TaskId) (after : State) : Prop where
  clock : after.clock = before.clock
  calls : after.calls = before.calls
  ready : ∀ worker ∈ before.ready, worker ∈ after.ready
  size : after.tasks.length = before.tasks.length
  live : ∀ id ∈ ids, ∀ task, before.tasks[id]? = some task → task.life = .live →
    after.tasks[id]? = some { task with life := .doomed } ∧ .task id ∈ after.ready
  other : ∀ id task, before.tasks[id]? = some task → (id ∈ ids → task.life ≠ .live) →
    after.tasks[id]? = some task

theorem doomed_doom (state : State) (id : TaskId) : state.Doomed [id] (state.doom id) := by
  have unchanged (dead : ∀ task, state.tasks[id]? = some task → task.life ≠ .live) :
      state.Doomed [id] state := by
    refine ⟨rfl, rfl, fun _ member => member, rfl, ?_, fun _ _ found _ => found⟩
    intro other member task found live
    obtain rfl := List.mem_singleton.mp member
    exact absurd live (dead task found)
  unfold doom
  split
  · rename_i missing
    exact unchanged fun task found => by simp [missing] at found
  · rename_i task found
    split
    · rename_i live
      have bound : id < state.tasks.length := (List.getElem?_eq_some_iff.mp found).1
      have woken := stirs_wake (state.setTask id { task with life := .doomed }) (.task id)
      refine ⟨woken.clock, woken.calls, woken.ready, ?_, ?_, ?_⟩
      · simp [setTask]
      · intro other member found' same live
        obtain rfl := List.mem_singleton.mp member
        obtain rfl : task = found' := Option.some.inj (found.symm.trans same)
        exact ⟨by simp [setTask, bound], mem_ready_wake _ _⟩
      · intro other found' same dead
        by_cases equal : id = other
        · subst equal
          obtain rfl : task = found' := Option.some.inj (found.symm.trans same)
          exact absurd live (dead (by simp))
        · simpa [setTask, List.getElem?_set_ne equal] using same
    · rename_i dead
      refine unchanged fun other same live => ?_
      obtain rfl : task = other := Option.some.inj (found.symm.trans same)
      exact dead live

theorem doomed_foldl (state : State) (ids : List TaskId) :
    state.Doomed ids (ids.foldl doom state) := by
  induction ids generalizing state with
  | nil =>
      exact ⟨rfl, rfl, fun _ member => member, rfl, by simp, fun _ _ found _ => found⟩
  | cons first rest ih =>
      have once := doomed_doom state first
      have later := ih (state.doom first)
      refine ⟨later.clock.trans once.clock, later.calls.trans once.calls,
        fun worker member => later.ready worker (once.ready worker member),
        later.size.trans once.size, ?_, ?_⟩
      · intro id member task found live
        by_cases same : id = first
        · subst same
          obtain ⟨doomed, inLine⟩ := once.live id (by simp) task found live
          exact ⟨later.other id _ doomed (by simp), later.ready _ inLine⟩
        · have kept := once.other id task found (by simp [same])
          have others : id ∈ rest := by simpa [same] using member
          exact later.live id others task kept live
      · intro id task found dead
        have kept := once.other id task found (by
          intro member
          obtain rfl := List.mem_singleton.mp member
          exact dead (by simp))
        exact later.other id task kept fun member => dead (by simp [member])

theorem abortCall_of_going {state : State} {id : CallId} {call : Call}
    (found : state.calls[id]? = some call)
    (going : (call.aborted || call.ended.isSome) = false) :
    ({ state with calls := state.calls.set id { call with aborted := true } }).Doomed call.tasks
      (state.abortCall id) := by
  simp only [abortCall, found, going, Bool.false_eq_true, if_false]
  exact doomed_foldl _ call.tasks

theorem abortCall_of_over {state : State} {id : CallId} {call : Call}
    (found : state.calls[id]? = some call)
    (stopped : (call.aborted || call.ended.isSome) = true) : state.abortCall id = state := by
  simp only [abortCall, found, stopped, if_true]

end State

end OrderDesk.Schedule
