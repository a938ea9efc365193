import OrderDesk.Proofs.OrderBodies

/-! Guards and slots left out. As long as there is a slot for everybody who is going to ask for one,
a body that enters, takes a slot and then waits does just what it would do if it only waited. So the
run of a state and the run of its bare copy, which knows neither guards nor slots, are in step. -/

namespace OrderDesk.Schedule

def bareScript : Script → Script
  | .enter :: rest => bareScript rest
  | .acquire :: rest => bareScript rest
  | script => script

/-- A body that has nothing to do but to wait once and perhaps to fail, once it has entered and got a
slot. -/
def IsLightBody (script : Script) : Prop :=
  ∃ entrance millis rest, script = entrance ++ .wait millis :: rest ∧
    (entrance = [] ∨ entrance = [.enter] ∨ entrance = [.enter, .acquire]) ∧ 0 < millis ∧
    ∀ action ∈ rest, ∃ failure, action = .fail failure

namespace Task

def bare (task : Task) : Task :=
  { task with script := bareScript task.script, guards := 0, slots := 0 }

def wants (task : Task) : Nat :=
  if task.isOver then 0 else acquires task.script

inductive IsLight (task : Task) : Prop
  | fresh (duty : Duty) (works : task.duty = some duty) (live : task.life = .live)
      (idle : task.waits = false) (body : IsLightBody task.script)
  | waiting (duty : Duty) (millis : Nat) (rest : Script) (works : task.duty = some duty)
      (live : task.life = .live) (waits : task.waits = true)
      (script : task.script = .wait millis :: rest)
      (last : ∀ action ∈ rest, ∃ failure, action = .fail failure)
  | finished (stopped : task.isOver = true)

end Task

namespace State

variable {before state now : State} {id : TaskId} {task old next : Task} {duty : Duty}

def bare (state : State) : State :=
  { state with limiter := .new 1, running := 0, tasks := state.tasks.map Task.bare }

/-- Nobody is in line for a slot, and there are enough for all who are going to ask for one. -/
structure Plenty (state : State) : Prop where
  nobody : state.limiter.line = []
  light : ∀ task ∈ state.tasks, task.IsLight
  enough : sumOf Task.wants state.tasks ≤ state.limiter.free

theorem bare_wake (state : State) (worker : Worker) :
    (state.wake worker).bare = state.bare.wake worker := by
  have same : state.bare.ready = state.ready := rfl
  unfold wake
  rw [same]
  split <;> rfl

theorem bare_wakeAll (state : State) (tasks : List TaskId) :
    (state.wakeAll tasks).bare = state.bare.wakeAll tasks := by
  induction tasks generalizing state with
  | nil => rfl
  | cons task tasks ih =>
      refine (ih (state.wake (.task task))).trans ?_
      rw [bare_wake]
      rfl

theorem bare_cancelScope (state : State) (target : ScopeId) :
    (state.cancelScope target).bare = state.bare.cancelScope target :=
  bare_wakeAll { state with scopes := state.scopes.cancel target } _

theorem bare_jump (state : State) (time : Nat) : (state.jump time).bare = state.bare.jump time :=
  bare_wakeAll _ _

theorem bare_setTask (state : State) (id : TaskId) (task : Task) :
    (state.setTask id task).bare = state.bare.setTask id task.bare := by
  simp [setTask, bare, List.map_set]

theorem giveSlots_of_nobody (nobody : state.limiter.waiting = []) (count : Nat) :
    state.giveSlots count =
      { state with limiter := { state.limiter with free := state.limiter.free + count } } := by
  induction count generalizing state with
  | zero => rfl
  | succ count ih =>
      have given : state.giveSlot =
          { state with limiter := { state.limiter with free := state.limiter.free + 1 } } := by
        simp only [giveSlot, withLimiter, Limiter.give, nobody]
      have nobody' : state.giveSlot.limiter.waiting = [] := by rw [given]; exact nobody
      rw [giveSlots, ih nobody', given]
      simp only [Nat.add_assoc, Nat.add_comm 1]

theorem giveBack_of_nobody (nobody : state.limiter.waiting = []) (task : Task) :
    state.giveBack task = { state with
      running := state.running - task.guards
      limiter := { state.limiter with free := state.limiter.free + task.slots } } := by
  let counted : State := { state with running := state.running - task.guards }
  have nobody' : counted.limiter.waiting = [] := nobody
  exact giveSlots_of_nobody nobody' task.slots

theorem bare_finish (nobody : state.limiter.waiting = []) (works : task.duty = some duty)
    (id : TaskId) (ending : Ending) :
    (state.finish id task ending).bare = state.bare.finish id task.bare ending := by
  have works' : task.bare.duty = some duty := works
  simp only [finish, works, works', report]
  rw [bare_wake, giveBack_of_nobody nobody]
  congr 1
  simp [bare, setTask, giveBack, Task.bare, bareScript, giveSlots, List.map_set]

theorem finish_of_nobody (nobody : state.limiter.waiting = []) (works : task.duty = some duty)
    (id : TaskId) (ending : Ending) :
    (state.finish id task ending).tasks = state.tasks.set id { task with
        script := [], waits := false, wake := none, guards := 0, slots := 0
        life := .ended state.clock ending } ∧
      (state.finish id task ending).limiter =
        { state.limiter with free := state.limiter.free + task.slots } := by
  simp [finish, works, report, giveBack_of_nobody nobody, setTask]

/-- What a turn has made of a task that was there as `old`: the run is in step with the bare one, and
the slots that it has taken are no more than it was going to ask for. -/
structure Keeps (before : State) (id : TaskId) (old : Task) (alike after : State) : Prop where
  same : after.bare = alike
  nobody : after.limiter.line = []
  stored : ∃ next : Task, after.tasks = before.tasks.set id next ∧ next.IsLight ∧
    before.limiter.free + next.wants ≤ after.limiter.free + old.wants

theorem wants_of_isOver (stopped : task.isOver = true) : task.wants = 0 := by
  simp [Task.wants, stopped]

theorem wants_of_live (live : task.life = .live) : task.wants = acquires task.script := by
  simp [Task.wants, Task.isOver, live]

theorem keeps_finish (nobody : state.limiter.line = []) (tasks : state.tasks = before.tasks)
    (free : before.limiter.free ≤ state.limiter.free + old.wants) (works : task.duty = some duty)
    (ending : Ending) :
    before.Keeps id old (state.bare.finish id task.bare ending) (state.finish id task ending) := by
  have none_waits := (List.append_eq_nil_iff.mp nobody).2
  obtain ⟨stored, limiter⟩ := finish_of_nobody none_waits works id ending
  refine ⟨bare_finish none_waits works id ending, ?_, _, tasks ▸ stored, .finished rfl, ?_⟩
  · rw [limiter]
    exact nobody
  · rw [limiter, wants_of_isOver rfl]
    simp only
    omega

theorem acquires_fails {rest : Script} (last : ∀ action ∈ rest, ∃ failure, action = .fail failure) :
    acquires rest = 0 := by
  refine List.countP_eq_zero.mpr fun action member => ?_
  obtain ⟨failure, rfl⟩ := last action member
  simp [Action.isAcquire]

theorem acquires_wait (millis : Nat) {rest : Script}
    (last : ∀ action ∈ rest, ∃ failure, action = .fail failure) :
    acquires (.wait millis :: rest) = 0 :=
  (List.countP_cons_of_neg (by simp [Action.isAcquire])).trans (acquires_fails last)

theorem keeps_perform_rest (nobody : state.limiter.line = []) (tasks : state.tasks = before.tasks)
    (free : before.limiter.free ≤ state.limiter.free + old.wants) (works : task.duty = some duty)
    {rest : Script} (last : ∀ action ∈ rest, ∃ failure, action = .fail failure) :
    before.Keeps id old (state.bare.perform id task.bare rest) (state.perform id task rest) := by
  cases rest with
  | nil => exact keeps_finish nobody tasks free works _
  | cons action rest =>
      obtain ⟨failure, rfl⟩ := last action List.mem_cons_self
      exact keeps_finish nobody tasks free works _

theorem keeps_perform_wait (nobody : state.limiter.line = []) (tasks : state.tasks = before.tasks)
    (free : before.limiter.free ≤ state.limiter.free + old.wants) (works : task.duty = some duty)
    (live : task.life = .live) {millis : Nat} (positive : 0 < millis) {rest : Script}
    (last : ∀ action ∈ rest, ∃ failure, action = .fail failure) :
    before.Keeps id old (state.bare.perform id task.bare (.wait millis :: rest))
      (state.perform id task (.wait millis :: rest)) := by
  have some_time : millis ≠ 0 := Nat.ne_of_gt positive
  have cause : state.bare.cause? task.bare.scope = state.cause? task.scope := rfl
  simp only [perform, attempt, doneAtOnce?_eq, some_time, if_false, cause]
  cases state.cause? task.scope with
  | some cause => exact keeps_finish nobody tasks free works _
  | none =>
      simp only
      refine ⟨?_, nobody, { task with
        waits := true, wake := some (state.clock + millis), script := .wait millis :: rest }, ?_,
        .waiting duty millis rest works live rfl rfl last, ?_⟩
      · exact bare_setTask ((state.listen id task.scope).setTimer id (state.clock + millis)) id _
      · simp [setTask, tasks]
      · have none_left := acquires_wait millis last
        simp only [Task.wants, Task.isOver, live, none_left]
        exact free

theorem perform_of_proceed {action : Action} {rest : Script}
    (tried : state.attempt id task action = .proceed now next) :
    state.perform id task (action :: rest) = now.perform id next rest := by
  simp only [perform, tried]

theorem perform_of_stop {action : Action} {ending : Ending} {rest : Script}
    (tried : state.attempt id task action = .stop now ending) :
    state.perform id task (action :: rest) = now.finish id task ending := by
  simp only [perform, tried]

theorem keeps_perform_fresh (nobody : before.limiter.line = []) (works : task.duty = some duty)
    (live : task.life = .live) {entrance : Script} {millis : Nat} {rest : Script}
    (script : task.script = entrance ++ .wait millis :: rest)
    (entry : entrance = [] ∨ entrance = [.enter] ∨ entrance = [.enter, .acquire])
    (positive : 0 < millis) (last : ∀ action ∈ rest, ∃ failure, action = .fail failure)
    (enough : task.wants ≤ before.limiter.free) :
    before.Keeps id task (before.bare.perform id task.bare (.wait millis :: rest))
      (before.perform id task (entrance ++ .wait millis :: rest)) := by
  let entered : State := { before with running := before.running + 1 }
  let guarded : Task := { task with guards := task.guards + 1 }
  have nobody' : entered.limiter.line = [] := nobody
  have same : entered.tasks = before.tasks := rfl
  have free : before.limiter.free ≤ entered.limiter.free + task.wants := Nat.le_add_right _ _
  have works' : guarded.duty = some duty := works
  rcases entry with rfl | rfl | rfl
  · exact keeps_perform_wait nobody rfl (Nat.le_add_right _ _) works live positive last
  · exact keeps_perform_wait nobody' same free works' live positive last
  · cases ended : before.cause? task.scope with
    | some cause =>
        -- The scope has ended, which the body would notice as well when it begins to wait.
        have opened : entered.cause? guarded.scope = some cause := ended
        have opened' : before.bare.cause? task.bare.scope = some cause := ended
        have some_time : millis ≠ 0 := Nat.ne_of_gt positive
        have acquires : entered.attempt id guarded .acquire =
            .stop entered (entered.returned guarded (some (.cancelled cause))) := by
          simp only [attempt, doneAtOnce?_eq, Option.or_self, opened, stopWith]
        have waits : before.bare.attempt id task.bare (.wait millis) =
            .stop before.bare (entered.returned guarded (some (.cancelled cause))) := by
          simp only [attempt, doneAtOnce?_eq, some_time, if_false, opened', stopWith]
          rfl
        have stops : before.Keeps id task _ _ := keeps_finish nobody' same free works'
          (entered.returned guarded (some (.cancelled cause)))
        rw [perform_of_stop waits]
        exact perform_of_stop acquires ▸ stops
    | none =>
        have one : task.wants = 1 := by
          rw [wants_of_live live, script, List.cons_append, List.cons_append, List.nil_append]
          exact (acquires_acquire _).trans (congrArg (· + 1) (acquires_wait millis last))
        let taken : State := { entered with
          limiter := { before.limiter with free := before.limiter.free - 1 } }
        let holding : Task := { guarded with slots := task.slots + 1 }
        have some_free : entered.limiter.take? = some taken.limiter := by
          have free : before.limiter.free ≠ 0 := by omega
          simp only [Limiter.take?, entered, free, if_false, taken]
        have opened : entered.cause? guarded.scope = none := ended
        have acquires : entered.attempt id guarded .acquire = .proceed taken holding := by
          simp only [attempt, doneAtOnce?_eq, Option.or_self, opened, some_free]
          rfl
        have nobody'' : taken.limiter.line = [] := nobody
        have same' : taken.tasks = before.tasks := rfl
        have free' : before.limiter.free ≤ taken.limiter.free + task.wants := by
          simp only [taken, one]
          omega
        have works'' : holding.duty = some duty := works
        have kept : before.Keeps id task _ _ :=
          keeps_perform_wait nobody'' same' free' works'' live positive last
        exact perform_of_proceed acquires ▸ kept

theorem Plenty.of_keeps (plenty : before.Plenty) (found : before.tasks[id]? = some old) {alike : State}
    (keeps : before.Keeps id old alike state) : state.Plenty := by
  obtain ⟨next, tasks, light, free⟩ := keeps.stored
  refine ⟨keeps.nobody, fun task member => ?_, ?_⟩
  · rw [tasks] at member
    rcases List.mem_or_eq_of_mem_set member with before | rfl
    · exact plenty.light task before
    · exact light
  · have changed := sumOf_set Task.wants before.tasks id old next found
    have enough := plenty.enough
    rw [tasks]
    omega

theorem wants_le_sumOf {tasks : List Task} (member : task ∈ tasks) :
    task.wants ≤ sumOf Task.wants tasks := by
  induction tasks with
  | nil => cases member
  | cons first rest ih =>
      rcases List.mem_cons.mp member with rfl | later
      · exact Nat.le_add_right _ _
      · exact Nat.le_trans (ih later) (Nat.le_add_left _ _)

theorem runTask_of_fresh (found : state.tasks[id]? = some task) (live : task.life = .live)
    (idle : task.waits = false) : state.runTask id = state.perform id task task.script := by
  simp only [runTask, found, live, idle]

theorem runTask_of_isOver (found : state.tasks[id]? = some task) (stopped : task.isOver = true) :
    state.runTask id = state := by
  unfold Task.isOver at stopped
  split at stopped
  · cases stopped
  · cases stopped
  · rename_i time ending life
    simp only [runTask, found, life]
  · rename_i life
    simp only [runTask, found, life]

theorem keeps_resume (nobody : state.limiter.line = []) (found : state.tasks[id]? = some task)
    (works : task.duty = some duty) {millis : Nat} {rest : Script}
    (live : task.life = .live) (waits : task.waits = true) (script : task.script = .wait millis :: rest)
    (last : ∀ action ∈ rest, ∃ failure, action = .fail failure) :
    state.runTask id = state ∧ state.bare.runTask id = state.bare ∨
      state.Keeps id task (state.bare.runTask id) (state.runTask id) := by
  have found' : state.bare.tasks[id]? = some task.bare :=
    List.getElem?_map.trans (congrArg (Option.map Task.bare) found)
  have script' : task.bare.script = .wait millis :: rest := congrArg bareScript script
  have live' : task.bare.life = .live := live
  have waits' : task.bare.waits = true := waits
  have cause' : state.bare.done? id task.bare.scope = state.done? id task.scope := rfl
  have wake' : task.bare.wake = task.wake := rfl
  have clock' : state.bare.clock = state.clock := rfl
  let quiet := state.unlisten id
  have nobody' : quiet.limiter.line = [] := nobody
  have tasks : quiet.tasks = state.tasks := rfl
  have free : state.limiter.free ≤ quiet.limiter.free + task.wants := Nat.le_add_right _ _
  simp only [runTask, found, found', live, live', waits, waits', script, script', resume, cause',
    wake', clock']
  cases state.done? id task.scope with
  | some cause =>
      simp only [stopWith]
      exact .inr (keeps_finish nobody' tasks free works _)
  | none =>
      cases task.wake.any fun wake => decide (wake ≤ state.clock) with
      | true =>
          simp only [if_true]
          let awake : Task := { task with
            script := .wait millis :: rest, waits := false, wake := none, life := .live }
          have works' : awake.duty = some duty := works
          exact .inr (keeps_perform_rest nobody' tasks free works' last)
      | false => exact .inl ⟨rfl, rfl⟩

theorem bare_runTask (plenty : state.Plenty) (id : TaskId) :
    (state.runTask id).bare = state.bare.runTask id ∧ (state.runTask id).Plenty := by
  have mapped : state.bare.tasks[id]? = (state.tasks[id]?).map Task.bare := List.getElem?_map
  cases found : state.tasks[id]? with
  | none =>
      rw [found] at mapped
      simp only [runTask, found, mapped, Option.map_none]
      exact ⟨trivial, plenty⟩
  | some task =>
      rw [found, Option.map_some] at mapped
      cases plenty.light task (List.mem_of_getElem? found) with
      | fresh duty works live idle body =>
          obtain ⟨entrance, millis, rest, script, entry, positive, last⟩ := body
          have asked := wants_le_sumOf (List.mem_of_getElem? found)
          have kept : state.Keeps id task _ _ := keeps_perform_fresh plenty.nobody works live script
            entry positive last (Nat.le_trans asked plenty.enough)
          have script' : task.bare.script = .wait millis :: rest := by
            rcases entry with rfl | rfl | rfl
            · exact congrArg bareScript script
            · exact congrArg bareScript script
            · exact congrArg bareScript script
          rw [runTask_of_fresh found live idle, runTask_of_fresh mapped live idle, script, script']
          exact ⟨kept.same, plenty.of_keeps found kept⟩
      | waiting duty millis rest works live waits script last =>
          rcases keeps_resume plenty.nobody found works live waits script last with
            ⟨still, still'⟩ | kept
          · rw [still, still']
            exact ⟨rfl, plenty⟩
          · exact ⟨kept.same, plenty.of_keeps found kept⟩
      | finished stopped =>
          rw [runTask_of_isOver found stopped, runTask_of_isOver mapped stopped]
          exact ⟨rfl, plenty⟩

theorem bare_settled? (state : State) (call : Call) (id : TaskId) :
    state.bare.settled? call id = state.settled? call id := by
  have mapped : state.bare.tasks[id]? = (state.tasks[id]?).map Task.bare := List.getElem?_map
  unfold settled?
  rw [mapped]
  cases state.tasks[id]? with
  | none => rfl
  | some task => rfl

theorem bare_entries (state : State) (call : Call) : state.bare.entries call = state.entries call := by
  unfold entries
  split
  · rfl
  · exact congrArg (List.filterMap · call.finished) (funext fun id => bare_settled? state call id)

theorem bare_hearing (state : State) (scope : ScopeId) (order : List Settled) :
    (state.hearing scope order).bare = state.bare.hearing scope order := by
  unfold hearing
  split
  · rfl
  · exact bare_cancelScope state scope

theorem bare_runCall (state : State) (id : CallId) :
    (state.runCall id).bare = state.bare.runCall id := by
  have same : state.bare.calls[id]? = state.calls[id]? := rfl
  cases found : state.calls[id]? with
  | none => simp only [runCall, same, found]
  | some call =>
      rw [found] at same
      by_cases going : (call.aborted || call.ended.isSome) = true
      · simp only [runCall, same, found, going, if_true]
      · simp only [Bool.or_eq_true, not_or, Bool.not_eq_true, Option.isSome_eq_false_iff,
          Option.isNone_iff_eq_none] at going
        rw [runCall_of_going found going.1 going.2, runCall_of_going same going.1 going.2]
        simp only [bare_entries, ← bare_hearing]
        rfl

theorem Plenty.congr (plenty : before.Plenty) (tasks : state.tasks = before.tasks)
    (limiter : state.limiter = before.limiter) : state.Plenty := by
  refine ⟨limiter ▸ plenty.nobody, tasks ▸ plenty.light, ?_⟩
  rw [tasks, limiter]
  exact plenty.enough

theorem Plenty.runCall (plenty : state.Plenty) (id : CallId) : (state.runCall id).Plenty := by
  rcases runCall_cases state id with same | ⟨call, found, aborted, ended⟩
  · rw [same]
    exact plenty
  · obtain ⟨stop, turned⟩ := joins_runCall found aborted ended
    exact plenty.congr turned.tasks turned.limiter

theorem bare_spawn (state : State) (scope : ScopeId) (duty : Option Duty) (script : Script) :
    (state.spawn scope duty script).bare = state.bare.spawn scope duty (bareScript script) := by
  have size : state.bare.tasks.length = state.tasks.length := List.length_map _
  simp only [spawn, size, bare_wake]
  congr 1
  simp only [bare, List.map_append, List.map_cons, List.map_nil]
  rfl

theorem bare_spawnSteps (state : State) (scope : ScopeId) (call : CallId) (position : Nat)
    (scripts : List Script) :
    (state.spawnSteps scope call position scripts).1.bare =
        (state.bare.spawnSteps scope call position (scripts.map bareScript)).1 ∧
      (state.spawnSteps scope call position scripts).2 =
        (state.bare.spawnSteps scope call position (scripts.map bareScript)).2 := by
  induction scripts generalizing state position with
  | nil => exact ⟨rfl, rfl⟩
  | cons script scripts ih =>
      have size : state.bare.tasks.length = state.tasks.length := List.length_map _
      obtain ⟨same, ids⟩ := ih (state.spawn scope (some ⟨call, position⟩) script) (position + 1)
      rw [bare_spawn] at same ids
      simp only [spawnSteps, List.map_cons, size]
      exact ⟨same, congrArg _ ids⟩

theorem bare_openCall {first second : List (String × Script)}
    (names : first.map Prod.fst = second.map Prod.fst)
    (bodies : (first.map Prod.snd).map bareScript = (second.map Prod.snd).map bareScript)
    (state : State) (context : ScopeId) :
    (state.openCall context first).1.bare = (state.openCall context second).1.bare := by
  let spawned (steps : List (String × Script)) : State × List TaskId :=
    (state.derive context none).1.spawnSteps state.scopes.length state.calls.length 0
      (steps.map Prod.snd)
  have opened (steps : List (String × Script)) : (state.openCall context steps).1.bare =
      { (spawned steps).1.bare with
        calls := (spawned steps).1.bare.calls ++ [Call.new context state.scopes.length state.clock
          (steps.map Prod.fst) (spawned steps).2] } := rfl
  obtain ⟨states₁, ids₁⟩ := bare_spawnSteps (state.derive context none).1 state.scopes.length
    state.calls.length 0 (first.map Prod.snd)
  obtain ⟨states₂, ids₂⟩ := bare_spawnSteps (state.derive context none).1 state.scopes.length
    state.calls.length 0 (second.map Prod.snd)
  rw [bodies] at states₁ ids₁
  rw [opened, opened, names, states₁.trans states₂.symm, ids₁.trans ids₂.symm]

theorem sumOf_wants_stepTasks (scope : ScopeId) (call : CallId) (clock position : Nat)
    (scripts : List Script) :
    sumOf Task.wants (stepTasks scope call clock position scripts) = sumOf acquires scripts := by
  induction scripts generalizing position with
  | nil => rfl
  | cons script scripts ih =>
      rw [stepTasks_cons, sumOf, sumOf, ih]
      rfl

/-- A call of light bodies that begins while all else is over finds plenty. -/
theorem plenty_openCall (stopped : ∀ task ∈ state.tasks, task.isOver = true)
    (nobody : state.limiter.line = []) {steps : List (String × Script)}
    (light : ∀ step ∈ steps, IsLightBody step.2)
    (enough : sumOf acquires (steps.map Prod.snd) ≤ state.limiter.free) (context : ScopeId) :
    (state.openCall context steps).1.Plenty := by
  have opened := opened_openCall state context steps
  refine ⟨opened.limiter ▸ nobody, fun task member => ?_, ?_⟩
  · rw [opened.tasks] at member
    rcases List.mem_append.mp member with old | new
    · exact .finished (stopped task old)
    · obtain ⟨index, there⟩ := List.getElem?_of_mem new
      rw [getElem?_stepTasks] at there
      obtain ⟨script, placed, rfl⟩ := Option.map_eq_some_iff.mp there
      obtain ⟨step, listed, rfl⟩ := List.mem_map.mp (List.mem_of_getElem? placed)
      exact .fresh _ rfl rfl rfl (light step listed)
  · have nothing : sumOf Task.wants state.tasks = 0 :=
      sumOf_eq_zero Task.wants fun task member => wants_of_isOver (stopped task member)
    rw [opened.tasks, opened.limiter, sumOf_append, nothing, sumOf_wants_stepTasks, Nat.zero_add]
    exact enough

/-! ## Runs -/

theorem bare_tick (plenty : state.Plenty) (limit : Option Nat) :
    state.bare.tick limit = (state.tick limit).map bare ∧
      ∀ next, state.tick limit = some next → next.Plenty := by
  have ready : state.bare.ready = state.ready := rfl
  have due : state.bare.nextDue = state.nextDue := rfl
  cases line : state.ready with
  | cons worker rest =>
      rw [line] at ready
      let popped : State := { state with ready := rest }
      have served : popped.Plenty := plenty.congr rfl rfl
      simp only [tick, line, ready, Option.map_some, Option.some.injEq]
      cases worker with
      | task id =>
          obtain ⟨same, still⟩ := bare_runTask served id
          exact ⟨same.symm, fun next moved => moved ▸ still⟩
      | call id => exact ⟨(bare_runCall popped id).symm, fun next moved => moved ▸ served.runCall id⟩
  | nil =>
      rw [line] at ready
      simp only [tick, line, ready, due]
      cases state.nextDue with
      | none => exact ⟨rfl, fun next moved => by cases moved⟩
      | some due =>
          simp only
          split
          · refine ⟨congrArg some (bare_jump state due).symm, fun next moved => ?_⟩
            obtain rfl := Option.some.inj moved
            exact plenty.congr (tasks_wakeAll _ _) (limiter_wakeAll _ _)
          · exact ⟨rfl, fun next moved => by cases moved⟩

/-- Everything that happens happens in the bare run as well. -/
theorem bare_settle (plenty : state.Plenty) (limit : Option Nat) :
    (state.settle limit).bare = state.bare.settle limit := by
  fun_induction settle limit state with
  | case1 state still =>
      refine (settle_of_tick_eq_none ?_).symm
      rw [(bare_tick plenty limit).1, still]
      rfl
  | case2 state next ticked ih =>
      obtain ⟨same, served⟩ := bare_tick plenty limit
      rw [ticked] at same
      rw [ih (served next ticked)]
      exact (settle_of_tick_eq_some same).symm

end State

end OrderDesk.Schedule
