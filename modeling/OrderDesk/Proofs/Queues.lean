import OrderDesk.Proofs.Slots

/-! The line of the limiter is looked after. Nobody waits while a slot is free, whoever has been
granted a slot or has been told to drop everything is in line to run, and whoever waits for a slot is
in the line of the limiter. Every move keeps this, whatever the tasks do and in whatever order they
take their turns. So when nobody is in line to run, no slot is on its way,
and if somebody still waits, then no slot is free. -/

namespace OrderDesk.Schedule

namespace Limiter

def IsTight (limiter : Limiter) : Prop :=
  limiter.waiting ≠ [] → limiter.free = 0

theorem IsTight.take? {limiter next : Limiter} (tight : limiter.IsTight)
    (taken : limiter.take? = some next) : next.IsTight := by
  unfold Limiter.take? at taken
  split at taken
  · cases taken
  · rename_i some_free
    obtain rfl := Option.some.inj taken
    intro waits
    exact absurd (tight waits) some_free

theorem isTight_wait {limiter : Limiter} (full : limiter.take? = none) (task : Nat) :
    (limiter.wait task).IsTight := by
  intro _
  unfold Limiter.take? at full
  split at full
  · assumption
  · cases full

theorem IsTight.give {limiter : Limiter} (tight : limiter.IsTight) : limiter.give.1.IsTight := by
  unfold Limiter.give
  split
  · rename_i nobody
    exact fun waits => absurd nobody waits
  · rename_i first rest waiting
    exact fun _ => tight (by simp [waiting])

theorem IsTight.claim {limiter : Limiter} (tight : limiter.IsTight) (task : Nat) :
    (limiter.claim task).IsTight := tight

theorem IsTight.leave {limiter : Limiter} (tight : limiter.IsTight) (task : Nat) :
    (limiter.leave task).1.IsTight := by
  unfold Limiter.leave
  split
  · exact (tight.claim task).give
  · intro waits
    refine tight fun nobody => waits ?_
    simp [nobody]

theorem mem_granted_give {limiter : Limiter} {task : Nat} (granted : task ∈ limiter.give.1.granted) :
    task ∈ limiter.granted ∨ limiter.give.2 = some task := by
  unfold Limiter.give at granted ⊢
  split at granted
  · exact .inl granted
  · rcases List.mem_append.mp granted with old | new
    · exact .inl old
    · exact .inr (congrArg some (List.mem_singleton.mp new).symm)

theorem mem_granted_leave {limiter : Limiter} {task other : Nat}
    (granted : other ∈ (limiter.leave task).1.granted) :
    other ∈ limiter.granted ∨ (limiter.leave task).2 = some other := by
  unfold Limiter.leave at granted ⊢
  split at granted
  · rename_i held
    rw [if_pos held]
    exact (mem_granted_give granted).imp_left List.mem_of_mem_erase
  · exact .inl granted

end Limiter

namespace State

variable {before state after : State} {away : Option TaskId} {id : TaskId} {task : Task}
  {total : Nat}

/-- The line of the limiter is looked after, except that the task `away` may be in hand. -/
structure Tended (state : State) (away : Option TaskId) : Prop where
  tight : state.limiter.IsTight
  told : ∀ id ∈ state.limiter.granted, away ≠ some id → .task id ∈ state.ready
  lined : ∀ (id : TaskId) (task : Task), state.tasks[id]? = some task → task.isQueued = true →
    away ≠ some id → id ∈ state.limiter.line
  heeded : ∀ (id : TaskId) (task : Task), state.tasks[id]? = some task → task.life = .doomed →
    away ≠ some id → .task id ∈ state.ready

theorem Tended.frame (tended : before.Tended away) (tasks : after.tasks = before.tasks)
    (limiter : after.limiter = before.limiter)
    (ready : ∀ worker ∈ before.ready, worker ∈ after.ready) : after.Tended away := by
  refine ⟨?_, ?_, ?_, ?_⟩
  · rw [limiter]
    exact tended.tight
  · intro id granted here
    rw [limiter] at granted
    exact ready _ (tended.told id granted here)
  · rw [tasks, limiter]
    exact tended.lined
  · intro id task found doomed here
    rw [tasks] at found
    exact ready _ (tended.heeded id task found doomed here)

theorem Tended.wake (tended : state.Tended away) (worker : Worker) :
    (state.wake worker).Tended away := by
  have ready := (stirs_wake state worker).ready
  rw [wake_eq] at ready ⊢
  exact tended.frame rfl rfl ready

theorem Tended.wakeAll (tended : state.Tended away) (tasks : List TaskId) :
    (state.wakeAll tasks).Tended away := by
  induction tasks generalizing state with
  | nil => exact tended
  | cons first rest ih => exact ih (tended.wake (.task first))

theorem Tended.cancelScope (tended : state.Tended away) (target : ScopeId) :
    (state.cancelScope target).Tended away :=
  (tended.frame rfl rfl fun _ member => member :
    ({ state with scopes := state.scopes.cancel target } : State).Tended away).wakeAll _

/-- Whoever is newly granted a slot is woken. -/
theorem Tended.relimit (tended : state.Tended away) (change : Limiter × Option TaskId)
    (tight : change.1.IsTight)
    (granted : ∀ id ∈ change.1.granted, id ∈ state.limiter.granted ∨ change.2 = some id)
    (line : ∀ id ∈ state.limiter.line, away ≠ some id → id ∈ change.1.line) :
    (state.withLimiter change).Tended away := by
  have stirs := stirs_withLimiter state change
  refine ⟨?_, ?_, ?_, ?_⟩
  · rw [limiter_withLimiter]
    exact tight
  · intro id member here
    rw [limiter_withLimiter] at member
    rcases granted id member with old | named
    · exact stirs.ready _ (tended.told id old here)
    · simp only [withLimiter, named]
      exact mem_ready_wake _ _
  · intro id task found queued here
    rw [limiter_withLimiter]
    rw [stirs.tasks] at found
    exact line id (tended.lined id task found queued here) here
  · intro id task found doomed here
    rw [stirs.tasks] at found
    exact stirs.ready _ (tended.heeded id task found doomed here)

theorem Tended.giveSlot (tended : state.Tended away) : state.giveSlot.Tended away :=
  tended.relimit state.limiter.give tended.tight.give (fun _ member => Limiter.mem_granted_give member)
    fun id member _ => by rwa [Limiter.line_give]

theorem Tended.giveSlots (tended : state.Tended away) (count : Nat) :
    (state.giveSlots count).Tended away := by
  induction count generalizing state with
  | zero => exact tended
  | succ count ih => exact ih tended.giveSlot

theorem Tended.giveBack (tended : state.Tended away) (task : Task) :
    (state.giveBack task).Tended away :=
  (tended.frame rfl rfl fun _ member => member :
    ({ state with running := state.running - task.guards } : State).Tended away).giveSlots _

theorem Tended.leave (tended : state.Tended (some id)) :
    (state.withLimiter (state.limiter.leave id)).Tended (some id) := by
  refine tended.relimit (state.limiter.leave id) (tended.tight.leave id)
    (fun _ member => Limiter.mem_granted_leave member) ?_
  intro other member here
  rw [Limiter.line_leave]
  exact (List.mem_erase_of_ne fun same => here (congrArg some same.symm)).mpr member

theorem Tended.unlisten (tended : state.Tended away) (id : TaskId) :
    (state.unlisten id).Tended away :=
  tended.frame rfl rfl fun _ member => member

theorem Tended.report (tended : state.Tended away) (id : TaskId) (duty : Duty) :
    (state.report id (some duty)).Tended away :=
  (tended.frame rfl rfl fun _ member => member :
    State.Tended { state with
      calls := state.calls.modify duty.call fun call =>
        { call with finished := call.finished ++ [id] } } away).wake _

theorem Tended.listen (tended : state.Tended away) (id : TaskId) (scope : ScopeId) :
    (state.listen id scope).Tended away :=
  tended.frame rfl rfl fun _ member => member

theorem Tended.setTimer (tended : state.Tended away) (id : TaskId) (due : Nat) :
    (state.setTimer id due).Tended away :=
  tended.frame rfl rfl fun _ member => member

theorem Tended.store (tended : state.Tended (some id)) (next : Task)
    (told : id ∈ state.limiter.granted → .task id ∈ state.ready)
    (queued : next.isQueued = true → id ∈ state.limiter.line)
    (heeded : next.life = .doomed → .task id ∈ state.ready) :
    (state.setTask id next).Tended none := by
  refine ⟨tended.tight, ?_, ?_, ?_⟩
  · intro other granted _
    by_cases own : other = id
    · subst own
      exact told granted
    · exact tended.told other granted fun same => own (Option.some.inj same).symm
  · intro other task found waits _
    simp only [setTask, List.getElem?_set] at found
    by_cases own : id = other
    · subst own
      rw [if_pos rfl] at found
      split at found
      · obtain rfl := Option.some.inj found
        exact queued waits
      · cases found
    · rw [if_neg own] at found
      exact tended.lined other task found waits fun same => own (Option.some.inj same)
  · intro other task found doomed _
    simp only [setTask, List.getElem?_set] at found
    by_cases own : id = other
    · subst own
      rw [if_pos rfl] at found
      split at found
      · obtain rfl := Option.some.inj found
        exact heeded doomed
      · cases found
    · rw [if_neg own] at found
      exact tended.heeded other task found doomed fun same => own (Option.some.inj same)

def InHandOf (state : State) (id : TaskId) : Prop :=
  state.Tended (some id) ∧ id ∉ state.limiter.line

theorem not_mem_granted (outside : id ∉ state.limiter.line) : id ∉ state.limiter.granted :=
  fun granted => outside (List.mem_append_left _ granted)

theorem line_giveBack (state : State) (task : Task) :
    (state.giveBack task).limiter.line = state.limiter.line :=
  line_giveSlots { state with running := state.running - task.guards } task.slots

theorem tended_finish (inHand : state.InHandOf id) (task : Task) (ending : Ending) :
    (state.finish id task ending).Tended none := by
  obtain ⟨tended, outside⟩ := inHand
  unfold finish
  split
  · exact tended.store _ (fun granted => absurd granted (not_mem_granted outside))
      (fun queued => by simp [Task.isQueued] at queued) fun doomed => by cases doomed
  · rename_i duty _
    have given := tended.giveBack task
    have absent : id ∉ (state.giveBack task).limiter.line := by
      rwa [line_giveBack]
    have stored := given.store { task with
        script := [], waits := false, wake := none, guards := 0, slots := 0
        life := .ended state.clock ending }
      (fun granted => absurd granted (not_mem_granted absent))
      (fun queued => by simp [Task.isQueued] at queued) fun doomed => by cases doomed
    exact stored.report id duty

def Advance.Tends (id : TaskId) (script : Script) : Advance → Prop
  | .proceed next advanced => next.InHandOf id ∧ advanced.life = .live
  | .stop next _ => next.InHandOf id
  | .wait next waiting => (next.setTask id { waiting with script := script }).Tended none

theorem Tended.park {next : State} {waiting : Task} (tended : next.Tended (some id))
    (outside : id ∉ next.limiter.line) (live : waiting.life = .live)
    (unqueued : waiting.isQueued = false) : (next.setTask id waiting).Tended none := by
  refine tended.store waiting (fun granted => ?_) (fun queued => ?_) fun doomed => ?_
  · exact absurd granted (not_mem_granted outside)
  · rw [unqueued] at queued
    cases queued
  · rw [live] at doomed
    cases doomed

theorem tends_take (inHand : state.InHandOf id) {limiter : Limiter}
    (taken : state.limiter.take? = some limiter) : { state with limiter }.InHandOf id := by
  obtain ⟨tended, outside⟩ := inHand
  have granted : limiter.granted = state.limiter.granted := by
    unfold Limiter.take? at taken
    split at taken
    · cases taken
    · obtain rfl := Option.some.inj taken
      rfl
  refine ⟨tended.relimit (limiter, none) (tended.tight.take? taken) ?_ ?_, ?_⟩
  · exact fun other member => .inl (granted ▸ member)
  · exact fun other member _ => (Limiter.line_take? taken).symm ▸ member
  · rw [Limiter.line_take? taken]
    exact outside

theorem tended_queue (inHand : state.InHandOf id) (full : state.limiter.take? = none)
    {waiting : Task} (live : waiting.life = .live) :
    ({ state with limiter := state.limiter.wait id }.setTask id waiting).Tended none := by
  obtain ⟨tended, outside⟩ := inHand
  have line : (state.limiter.wait id).line = state.limiter.line ++ [id] := by
    simp [Limiter.line, Limiter.wait]
  have queued : State.Tended { state with limiter := state.limiter.wait id } (some id) := by
    refine tended.relimit (state.limiter.wait id, none)
      (Limiter.isTight_wait full id) (fun other member => .inl member) ?_
    intro other member _
    rw [line]
    exact List.mem_append_left _ member
  refine queued.store _ (fun granted => ?_) (fun _ => ?_) fun doomed => ?_
  · have before : id ∈ state.limiter.granted := granted
    exact absurd before (not_mem_granted outside)
  · simp [line]
  · rw [live] at doomed
    cases doomed

theorem attempt_tends (inHand : state.InHandOf id) (live : task.life = .live) (action : Action)
    (rest : Script) : (state.attempt id task action).Tends id (action :: rest) := by
  obtain ⟨tended, outside⟩ := inHand
  cases action with
  | wait millis =>
      simp only [attempt, stopWith]
      split
      · exact ⟨⟨tended, outside⟩, live⟩
      · split
        · exact ⟨tended, outside⟩
        · exact ((tended.listen id task.scope).setTimer id (state.clock + millis)).park outside live
            (by simp [Task.isQueued, live])
  | sleep millis =>
      simp only [attempt]
      split
      · exact ⟨⟨tended, outside⟩, live⟩
      · exact (tended.setTimer id (state.clock + millis)).park outside live
          (by simp [Task.isQueued, live])
  | acquire =>
      simp only [attempt, stopWith]
      split
      · exact ⟨tended, outside⟩
      · split
        · rename_i limiter taken
          exact ⟨tends_take ⟨tended, outside⟩ taken, live⟩
        · rename_i full
          have listening : (state.listen id task.scope).InHandOf id :=
            ⟨tended.listen id task.scope, outside⟩
          exact tended_queue listening full live
  | release =>
      simp only [attempt]
      split
      · exact ⟨⟨tended, outside⟩, live⟩
      · refine ⟨⟨tended.giveSlot, ?_⟩, live⟩
        rw [giveSlot, limiter_withLimiter, Limiter.line_give]
        exact outside
  | cancel =>
      refine ⟨⟨tended.cancelScope task.scope, ?_⟩, live⟩
      rw [limiter_cancelScope]
      exact outside
  | leave =>
      simp only [attempt]
      split
      · exact ⟨⟨tended, outside⟩, live⟩
      · exact ⟨⟨tended.frame rfl rfl fun _ member => member,
          outside⟩, live⟩
  | note index tag =>
      simp only [attempt]
      split
      · exact ⟨⟨tended.frame rfl rfl fun _ member => member,
          outside⟩, live⟩
      · exact ⟨⟨tended, outside⟩, live⟩
  | enter =>
      exact ⟨⟨tended.frame rfl rfl fun _ member => member,
        outside⟩, live⟩
  | fail failure => exact ⟨tended, outside⟩
  | crash message => exact ⟨tended, outside⟩
  | finish => exact ⟨tended, outside⟩
  | _ =>
      simp only [attempt, stopWith]
      split
      · first
          | exact ⟨tended, outside⟩
          | exact ⟨⟨tended, outside⟩, live⟩
      · first
          | exact ⟨⟨tended, outside⟩, live⟩
          | exact (tended.listen id task.scope).park outside live (by simp [Task.isQueued, live])

theorem tended_perform (inHand : state.InHandOf id) (live : task.life = .live) (script : Script) :
    (state.perform id task script).Tended none := by
  refine perform_keeps (fun now current _ => now.InHandOf id ∧ current.life = .live)
    (fun now => now.Tended none) ?_ ?_ state task script ⟨inHand, live⟩
  · rintro now current action rest ⟨holds, alive⟩
    have tried := attempt_tends holds alive action rest
    split <;> rename_i same <;> rw [same] at tried
    · exact tried
    · exact tended_finish tried current _
    · exact tried
  · rintro now current ⟨holds, _⟩
    exact tended_finish holds current _

def Advance.Heeds (state : State) (id : TaskId) (task : Task) : Advance → Prop
  | .proceed next advanced => next.InHandOf id ∧ advanced.life = task.life
  | .stop next _ => next.InHandOf id
  | .wait _ _ => id ∉ state.limiter.granted

theorem resume_heeds (tended : state.Tended (some id)) (balanced : state.IsBalanced total)
    (found : state.tasks[id]? = some task) {action : Action} {rest : Script}
    (script : task.script = action :: rest) :
    (state.resume id task action).Heeds state id task := by
  have distinct := Balanced.distinct balanced
  have quiet := tended.unlisten id
  cases action with
  | acquire =>
      simp only [resume, stopWith]
      split
      · refine ⟨quiet.leave, ?_⟩
        rw [limiter_withLimiter, Limiter.line_leave]
        exact distinct.not_mem_erase
      · split
        · rename_i granted
          refine ⟨⟨?_, ?_⟩, rfl⟩
          · refine quiet.relimit (state.limiter.claim id, none) (quiet.tight.claim id)
              (fun other member => .inl (List.mem_of_mem_erase member)) ?_
            intro other member here
            rw [Limiter.line_claim (List.contains_iff_mem.mp granted)]
            exact (List.mem_erase_of_ne fun same => here (congrArg some same.symm)).mpr member
          · rw [show ({ state.unlisten id with limiter := (state.unlisten id).limiter.claim id } :
              State).limiter.line = state.limiter.line.erase id from
                Limiter.line_claim (List.contains_iff_mem.mp granted)]
            exact distinct.not_mem_erase
        · rename_i absent
          exact fun granted => absent (List.contains_iff_mem.mpr granted)
  | _ =>
      have outside : id ∉ state.limiter.line := by
        refine (balanced.holds found ?_).outside
        unfold Task.isQueued
        split <;> simp_all
      simp only [resume, stopWith]
      repeat' split
      all_goals first
        | exact ⟨⟨quiet, outside⟩, rfl⟩
        | exact ⟨quiet, outside⟩
        | exact not_mem_granted outside

theorem tended_drop (tended : state.Tended (some id)) (balanced : state.IsBalanced total)
    (task : Task) : (state.drop id task).Tended none := by
  have left := (tended.unlisten id).leave
  have outside : id ∉
      ((state.unlisten id).withLimiter ((state.unlisten id).limiter.leave id)).limiter.line := by
    rw [limiter_withLimiter, Limiter.line_leave]
    exact List.Nodup.not_mem_erase (Balanced.distinct balanced)
  unfold drop
  split
  · exact left.store _ (fun granted => absurd granted (not_mem_granted outside))
      (fun queued => by simp [Task.isQueued] at queued) fun doomed => by cases doomed
  · refine (left.giveBack task).store _ (fun granted => ?_)
      (fun queued => by simp [Task.isQueued] at queued) fun doomed => by cases doomed
    refine absurd granted (not_mem_granted ?_)
    rwa [line_giveBack]

theorem Tended.pop (tended : state.Tended none) (id : TaskId) :
    State.Tended { state with ready := state.ready.erase (.task id) } (some id) := by
  have stays {other : TaskId} (here : some id ≠ some other) (inLine : .task other ∈ state.ready) :
      Worker.task other ∈ state.ready.erase (.task id) := by
    refine (List.mem_erase_of_ne fun same => ?_).mpr inLine
    exact here (congrArg some (Worker.task.inj same).symm)
  refine ⟨tended.tight, ?_, ?_, ?_⟩
  · exact fun other granted here => stays here (tended.told other granted (by simp))
  · exact fun other task found queued _ => tended.lined other task found queued (by simp)
  · intro other task found doomed here
    exact stays here (tended.heeded other task found doomed (by simp))

theorem Tended.put (tended : state.Tended (some id)) (granted : id ∉ state.limiter.granted)
    (unharmed : ∀ task, state.tasks[id]? = some task → task.life ≠ .doomed)
    (lined : ∀ task, state.tasks[id]? = some task → task.isQueued = true →
      id ∈ state.limiter.line) : state.Tended none := by
  refine ⟨tended.tight, ?_, ?_, ?_⟩
  · intro other member _
    refine tended.told other member fun same => ?_
    obtain rfl := Option.some.inj same
    exact granted member
  · intro other task found queued _
    by_cases own : id = other
    · subst own
      exact lined task found queued
    · exact tended.lined other task found queued fun same => own (Option.some.inj same)
  · intro other task found doomed _
    by_cases own : id = other
    · subst own
      exact absurd doomed (unharmed task found)
    · exact tended.heeded other task found doomed fun same => own (Option.some.inj same)

theorem tended_runTask (tended : state.Tended (some id)) (balanced : state.IsBalanced total)
    (lined : ∀ task, state.tasks[id]? = some task → task.isQueued = true →
      id ∈ state.limiter.line) : (state.runTask id).Tended none := by
  have idle (unqueued : ∀ task, state.tasks[id]? = some task → task.isQueued = false)
      (unharmed : ∀ task, state.tasks[id]? = some task → task.life ≠ .doomed) :
      state.Tended none := by
    refine tended.put (fun granted => ?_) unharmed fun task found queued => ?_
    · obtain ⟨task, found, queued⟩ := Balanced.queued balanced id (List.mem_append_left _ granted)
      rw [unqueued task found] at queued
      cases queued
    · rw [unqueued task found] at queued
      cases queued
  unfold runTask
  split
  · rename_i missing
    exact idle (by simp [missing]) (by simp [missing])
  · rename_i task found
    split
    · rename_i live
      split
      · rename_i action rest waits script
        have heeds := resume_heeds tended balanced found script
        split
        · rename_i next advanced same
          rw [same] at heeds
          exact tended_perform heeds.1 (heeds.2.trans live) rest
        · rename_i next ending same
          rw [same] at heeds
          exact tended_finish heeds task ending
        · rename_i next waiting same
          rw [same] at heeds
          refine tended.put heeds (fun other there => ?_) lined
          obtain rfl := Option.some.inj (found.symm.trans there)
          simp [live]
      · refine tended_perform ⟨tended, (balanced.holds found ?_).outside⟩ live task.script
        unfold Task.isQueued
        split <;> simp_all
    · exact tended_drop tended balanced task
    · rename_i unlive undoomed
      refine idle (fun other there => ?_) fun other there => ?_
      · obtain rfl := Option.some.inj (found.symm.trans there)
        unfold Task.isQueued
        split
        · exact absurd ‹_› unlive
        · exact absurd ‹_› undoomed
        · rfl
      · obtain rfl := Option.some.inj (found.symm.trans there)
        exact undoomed

theorem Tended.append (tended : before.Tended none) {added : List Task}
    (tasks : after.tasks = before.tasks ++ added) (limiter : after.limiter = before.limiter)
    (ready : ∀ worker ∈ before.ready, worker ∈ after.ready)
    (fresh : ∀ task ∈ added, task.isQueued = false ∧ task.life = .live) : after.Tended none := by
  have cases_of {id : TaskId} {task : Task} (found : after.tasks[id]? = some task) :
      before.tasks[id]? = some task ∨ task ∈ added := by
    rw [tasks] at found
    by_cases known : id < before.tasks.length
    · rw [List.getElem?_append_left known] at found
      exact .inl found
    · rw [List.getElem?_append_right (Nat.le_of_not_lt known)] at found
      exact .inr (List.mem_of_getElem? found)
  refine ⟨?_, ?_, ?_, ?_⟩
  · rw [limiter]
    exact tended.tight
  · rw [limiter]
    exact fun id granted here => ready _ (tended.told id granted here)
  · intro id task found queued here
    rw [limiter]
    rcases cases_of found with old | new
    · exact tended.lined id task old queued here
    · rw [(fresh task new).1] at queued
      cases queued
  · intro id task found doomed here
    rcases cases_of found with old | new
    · exact ready _ (tended.heeded id task old doomed here)
    · rw [(fresh task new).2] at doomed
      cases doomed

theorem Tended.inHand (tended : state.Tended none) (id : TaskId) : state.Tended (some id) :=
  ⟨tended.tight, fun other granted _ => tended.told other granted (by simp),
    fun other task found queued _ => tended.lined other task found queued (by simp),
    fun other task found doomed _ => tended.heeded other task found doomed (by simp)⟩

theorem wake_setTask (state : State) (id : TaskId) (task : Task) (worker : Worker) :
    (state.setTask id task).wake worker = (state.wake worker).setTask id task := by
  unfold wake setTask
  split <;> rfl

theorem tended_doom (tended : state.Tended none) (id : TaskId) : (state.doom id).Tended none := by
  unfold doom
  split
  · exact tended
  · rename_i task found
    split
    · rename_i live
      have woken := ((tended.inHand id).wake (.task id)).store { task with life := .doomed }
        (fun _ => mem_ready_wake _ _) ?_ fun _ => mem_ready_wake _ _
      · rwa [wake_setTask]
      · intro queued
        rw [limiter_wake]
        refine tended.lined id task found ?_ (by simp)
        unfold Task.isQueued at queued ⊢
        split at queued <;> simp_all
    · exact tended

theorem tended_foldl_doom (tended : state.Tended none) (ids : List TaskId) :
    (ids.foldl doom state).Tended none := by
  induction ids generalizing state with
  | nil => exact tended
  | cons id ids ih => exact ih (tended_doom tended id)

theorem tended_runCall (tended : state.Tended none) (id : CallId) :
    (state.runCall id).Tended none := by
  rcases runCall_cases state id with same | ⟨call, found, aborted, ended⟩
  · rw [same]
    exact tended
  · rw [runCall_of_going found aborted ended]
    have heard : (state.hearing call.scope (state.entries call)).Tended none := by
      unfold hearing
      split
      · exact tended
      · exact tended.cancelScope call.scope
    exact heard.frame rfl rfl fun _ member => member

theorem tended_release (tended : state.Tended none) (id : TaskId) :
    (state.release id).Tended none := by
  unfold release
  split
  · exact tended
  · rename_i task found
    split
    · exact tended
    · have stored := (tended.inHand id).store { task with slots := task.slots - 1 }
        (fun granted => tended.told id granted (by simp)) (fun queued => ?_) fun doomed => ?_
      · exact stored.giveSlot
      · exact tended.lined id task found queued (by simp)
      · exact tended.heeded id task found doomed (by simp)

theorem Tended.jump (tended : state.Tended none) (time : Nat) : (state.jump time).Tended none :=
  (tended.frame rfl rfl fun _ member => member : State.Tended { state with
    clock := max state.clock time
    timers := state.timers.filter fun timer => !(timer.due ≤ time) } none).wakeAll _

theorem isQueued_new (scope : ScopeId) (duty : Option Duty) (script : Script) (now : Nat) :
    (Task.new scope duty script now).isQueued = false := by
  unfold Task.isQueued
  split <;> simp_all [Task.new]

theorem Tended.popCall (tended : state.Tended none) (call : CallId) :
    State.Tended { state with ready := state.ready.erase (.call call) } none := by
  have stays {other : TaskId} (inLine : .task other ∈ state.ready) :
      Worker.task other ∈ state.ready.erase (.call call) :=
    (List.mem_erase_of_ne (by simp)).mpr inLine
  refine ⟨tended.tight, ?_, tended.lined, ?_⟩
  · exact fun other granted here => stays (tended.told other granted here)
  · exact fun other task found doomed here => stays (tended.heeded other task found doomed here)

theorem Tended.apply (tended : state.Tended none) (balanced : state.IsBalanced total) (move : Move) :
    (state.apply move).Tended none := by
  cases move with
  | addBackground =>
      exact tended.frame rfl rfl fun _ member => member
  | derive parent deadline =>
      exact tended.frame rfl rfl fun _ member => member
  | cancel target => exact tended.cancelScope target
  | openCall context steps =>
      have opened := opened_openCall state context steps
      refine tended.append opened.tasks opened.limiter opened.ready fun task member => ?_
      obtain ⟨position, there⟩ := List.getElem?_of_mem member
      rw [getElem?_stepTasks] at there
      obtain ⟨script, _, rfl⟩ := Option.map_eq_some_iff.mp there
      exact ⟨isQueued_new _ _ _ _, rfl⟩
  | abortCall id =>
      simp only [State.apply, abortCall]
      split
      · exact tended
      · split
        · exact tended
        · rename_i call _ _
          have marked : State.Tended
              { state with calls := state.calls.set id { call with aborted := true } } none :=
            tended.frame rfl rfl fun _ member => member
          exact tended_foldl_doom marked call.tasks
  | spawn scope script =>
      have spawned : State.Tended
          { state with tasks := state.tasks ++ [Task.new scope none script state.clock] } none := by
        refine tended.append rfl rfl (fun _ member => member) fun task member => ?_
        obtain rfl := List.mem_singleton.mp member
        exact ⟨isQueued_new _ _ _ _, rfl⟩
      exact spawned.wake _
  | doom id =>
      simp only [State.apply]
      split
      · exact tended_doom tended id
      · exact tended
  | release id =>
      simp only [State.apply]
      split
      · exact tended_release tended id
      · exact tended
  | turn worker =>
      simp only [State.apply]
      split
      · cases worker with
        | task id =>
            refine tended_runTask (tended.pop id) balanced fun task found queued => ?_
            exact tended.lined id task found queued (by simp)
        | call id =>
            exact tended_runCall (tended.popCall id) id
      · exact tended
  | jump time =>
      simp only [State.apply]
      split
      · exact tended.jump time
      · exact tended

theorem Tended.play (tended : state.Tended none) (balanced : state.IsBalanced total)
    (moves : List Move) : (state.play moves).Tended none := by
  induction moves generalizing state with
  | nil => exact tended
  | cons move moves ih => exact ih (tended.apply balanced move) (balanced_apply balanced move)

theorem tended_start {limiter : Limiter} (nobody : limiter.line = []) :
    (start limiter).Tended none := by
  obtain ⟨none_granted, none_waiting⟩ := List.append_eq_nil_iff.mp nobody
  refine ⟨fun waits => absurd none_waiting waits, ?_, by simp [start], by simp [start]⟩
  simp [start, none_granted]

/-! ## When nobody is in line to run -/

/-- When nobody is in line to run, no slot is on its way, and those who wait for a slot are just
those that the limiter knows of; if there is one, then no slot is free. -/
theorem Tended.quiet (tended : state.Tended none) (balanced : state.IsBalanced total)
    (quiet : state.ready = []) :
    state.limiter.granted = [] ∧ (state.limiter.waiting ≠ [] → state.limiter.free = 0) ∧
      ∀ (id : TaskId) (task : Task), state.tasks[id]? = some task →
        (task.isQueued = true ↔ id ∈ state.limiter.waiting) ∧ task.life ≠ .doomed := by
  have none_granted : state.limiter.granted = [] := by
    refine List.eq_nil_iff_forall_not_mem.mpr fun id granted => ?_
    have inLine := tended.told id granted (by simp)
    rw [quiet] at inLine
    cases inLine
  have line : state.limiter.line = state.limiter.waiting := by simp [Limiter.line, none_granted]
  refine ⟨none_granted, tended.tight, fun id task found => ⟨⟨fun queued => ?_, fun waits => ?_⟩,
    fun doomed => ?_⟩⟩
  · exact line ▸ tended.lined id task found queued (by simp)
  · obtain ⟨same, there, queued⟩ := Balanced.queued balanced id (line.symm ▸ waits)
    obtain rfl := Option.some.inj (found.symm.trans there)
    exact queued
  · have inLine := tended.heeded id task found doomed (by simp)
    rw [quiet] at inLine
    cases inLine

end State

end OrderDesk.Schedule
