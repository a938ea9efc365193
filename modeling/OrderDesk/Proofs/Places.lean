import OrderDesk.Proofs.Queues

/-! Places in line. While others act, whoever waits for a slot keeps its place in the line of the
limiter: those before it may leave or be granted slots, and those who come later stay behind it and
get none, until it is granted one itself. -/

namespace OrderDesk.Schedule

namespace Limiter

/-- How the waiter `id` stands once others have dealt with the limiter, where those in `ahead` were
in line before it. Either the line before it has only become shorter, and slots have been granted to
those before it only; or it has been granted a slot, before all who came after it. -/
inductive Respects (before : Limiter) (ahead : List Nat) (id : Nat) (after : Limiter) : Prop
  | waits (still : id ∈ before.waiting) (fewer behind : List Nat)
      (line : after.waiting = fewer ++ id :: behind)
      (once : id ∉ behind) (shorter : fewer.Sublist ahead) (full : after.free = 0)
      (granted : ∀ other ∈ after.granted, other ∈ before.granted ∨ other ∈ ahead)
  | granted (early late : List Nat) (order : after.granted = early ++ id :: late)
      (gone : id ∉ after.waiting)
      (preferred : ∀ other ∈ early, other ∈ before.granted ∨ other ∈ ahead)

variable {before limiter : Limiter} {ahead : List Nat} {id task : Nat}

theorem Respects.give (respects : before.Respects ahead id limiter) :
    before.Respects ahead id limiter.give.1 := by
  cases respects with
  | waits still fewer behind line once shorter full granted =>
      cases fewer with
      | nil =>
          simp only [List.nil_append] at line
          simp only [Limiter.give, line]
          exact .granted limiter.granted [] rfl once granted
      | cons first fewer =>
          simp only [List.cons_append] at line
          simp only [Limiter.give, line]
          refine .waits still fewer behind rfl once ((List.sublist_cons_self _ _).trans shorter) full ?_
          intro other member
          rcases List.mem_append.mp member with old | new
          · exact granted other old
          · exact .inr (shorter.subset (by simp [List.mem_singleton.mp new]))
  | granted early late order gone preferred =>
      unfold Limiter.give
      split
      · exact .granted early late order gone preferred
      · rename_i first rest waiting
        refine .granted early (late ++ [first]) (by simp [order]) (fun member => ?_) preferred
        exact gone (by simp only [waiting, List.mem_cons]; exact .inr member)

theorem Respects.take? (respects : before.Respects ahead id limiter) {next : Limiter}
    (taken : limiter.take? = some next) :
    before.Respects ahead id next ∧ id ∉ next.waiting := by
  unfold Limiter.take? at taken
  split at taken
  · cases taken
  · rename_i some_free
    obtain rfl := Option.some.inj taken
    cases respects with
    | waits still fewer behind line once shorter full granted => exact absurd full some_free
    | granted early late order gone preferred =>
        exact ⟨.granted early late order gone preferred, gone⟩

theorem Respects.wait (respects : before.Respects ahead id limiter) (other : task ≠ id) :
    before.Respects ahead id (limiter.wait task) := by
  cases respects with
  | waits still fewer behind line once shorter full granted =>
      refine .waits still fewer (behind ++ [task]) (by simp [Limiter.wait, line]) ?_ shorter full
        granted
      simp [once, other.symm]
  | granted early late order gone preferred =>
      exact .granted early late order (by simp [Limiter.wait, gone, other.symm]) preferred

theorem Respects.claim (respects : before.Respects ahead id limiter) (other : task ≠ id) :
    before.Respects ahead id (limiter.claim task) := by
  cases respects with
  | waits still fewer behind line once shorter full granted =>
      exact .waits still fewer behind line once shorter full
        fun other member => granted other (List.mem_of_mem_erase member)
  | granted early late order gone preferred =>
      by_cases first : task ∈ early
      · refine .granted (early.erase task) late ?_ gone
          fun other member => preferred other (List.mem_of_mem_erase member)
        simp [Limiter.claim, order, List.erase_append_left _ first]
      · refine .granted early (late.erase task) ?_ gone preferred
        simp [Limiter.claim, order, List.erase_append_right _ first, List.erase_cons_tail, other.symm]

theorem Respects.leave (respects : before.Respects ahead id limiter) (other : task ≠ id) :
    before.Respects ahead id (limiter.leave task).1 := by
  unfold Limiter.leave
  split
  · exact (respects.claim other).give
  · cases respects with
    | waits still fewer behind line once shorter full granted =>
        by_cases first : task ∈ fewer
        · refine .waits still (fewer.erase task) behind ?_ once (List.erase_sublist.trans shorter)
            full granted
          simp [line, List.erase_append_left _ first]
        · refine .waits still fewer (behind.erase task) ?_
            (fun member => once (List.mem_of_mem_erase member)) shorter full granted
          simp [line, List.erase_append_right _ first, List.erase_cons_tail, other.symm]
    | granted early late order gone preferred =>
        exact .granted early late order (fun member => gone (List.mem_of_mem_erase member)) preferred

end Limiter

namespace State

variable {before state : State} {ahead behind : List TaskId} {id other : TaskId} {total : Nat}

def slotsOf (state : State) (id : TaskId) : Nat :=
  (state.tasks[id]?.map Task.slots).getD 0

theorem slotsOf_of_found {task : Task} (found : state.tasks[id]? = some task) :
    state.slotsOf id = task.slots := by
  simp [slotsOf, found]

theorem slotsOf_congr {after : State} (tasks : after.tasks = before.tasks) (id : TaskId) :
    after.slotsOf id = before.slotsOf id := by
  rw [slotsOf, slotsOf, tasks]

theorem slotsOf_setTask_le {next : Task} (task : TaskId)
    (fewer : other = task → next.slots ≤ state.slotsOf other) :
    (state.setTask task next).slotsOf other ≤ state.slotsOf other := by
  by_cases own : other = task
  · subst own
    have bound := fewer rfl
    by_cases known : other < state.tasks.length
    · simpa [slotsOf, setTask, List.getElem?_set_self known] using bound
    · simp [slotsOf, setTask, Nat.le_of_not_lt known]
  · simp [slotsOf, setTask, List.getElem?_set_ne (Ne.symm own)]

/-- The waiter `id` keeps its place while others act: as long as it waits, nobody gains a slot who
was neither granted one nor in line before it. -/
structure Yields (before : State) (ahead : List TaskId) (id : TaskId) (after : State) : Prop where
  respects : before.limiter.Respects ahead id after.limiter
  slots : id ∈ after.limiter.waiting → ∀ other, other ∉ before.limiter.granted → other ∉ ahead →
    after.slotsOf other ≤ before.slotsOf other

theorem respects_giveSlots (respects : before.limiter.Respects ahead id state.limiter) (count : Nat) :
    before.limiter.Respects ahead id (state.giveSlots count).limiter := by
  induction count generalizing state with
  | zero => exact respects
  | succ count ih =>
      refine ih ?_
      rw [giveSlot, limiter_withLimiter]
      exact respects.give

structure Defers (before : State) (ahead : List TaskId) (id other : TaskId) (state : State)
    (task : Task) : Prop where
  tasks : state.tasks = before.tasks
  respects : before.limiter.Respects ahead id state.limiter
  slots : id ∈ state.limiter.waiting → other ∉ before.limiter.granted → other ∉ ahead →
    task.slots ≤ before.slotsOf other

theorem Defers.congr {after : State} {task next : Task}
    (defers : before.Defers ahead id other state task) (tasks : after.tasks = state.tasks)
    (limiter : after.limiter = state.limiter) (slots : next.slots ≤ task.slots) :
    before.Defers ahead id other after next := by
  refine ⟨tasks.trans defers.tasks, ?_, ?_⟩
  · rw [limiter]
    exact defers.respects
  · rw [limiter]
    intro waits late behind
    exact Nat.le_trans slots (defers.slots waits late behind)

theorem Defers.store {task : Task} (defers : before.Defers ahead id other state task) (next : Task)
    (slots : next.slots ≤ task.slots) : before.Yields ahead id (state.setTask other next) := by
  refine ⟨defers.respects, fun waits late here behind => ?_⟩
  have same := slotsOf_congr defers.tasks late
  rw [← same]
  refine slotsOf_setTask_le other fun own => ?_
  subst own
  rw [same]
  exact Nat.le_trans slots (defers.slots waits here behind)

theorem Defers.giveBack {task : Task} (defers : before.Defers ahead id other state task) :
    before.Defers ahead id other (state.giveBack task) { task with guards := 0, slots := 0 } := by
  have counted : before.limiter.Respects ahead id
      ({ state with running := state.running - task.guards } : State).limiter := defers.respects
  exact ⟨(tasks_giveBack state task).trans defers.tasks, respects_giveSlots counted task.slots,
    fun _ _ _ => Nat.zero_le _⟩

theorem yields_finish {task : Task} (defers : before.Defers ahead id other state task)
    (ending : Ending) : before.Yields ahead id (state.finish other task ending) := by
  unfold finish
  split
  · exact defers.store _ (Nat.le_refl _)
  · rename_i duty _
    have stored := defers.giveBack.store { task with
      script := [], waits := false, wake := none, guards := 0, slots := 0
      life := .ended state.clock ending } (Nat.zero_le _)
    refine ⟨?_, fun waits late here behind => ?_⟩
    · simpa [report] using stored.respects
    · have bound := stored.slots (by simpa [report] using waits) late here behind
      refine Nat.le_trans (Nat.le_of_eq (slotsOf_congr ?_ late)) bound
      simp [report]

def Advance.Defer (before : State) (ahead : List TaskId) (id other : TaskId) (task : Task)
    (script : Script) : Advance → Prop
  | .proceed next advanced => before.Defers ahead id other next advanced
  | .stop next _ => before.Defers ahead id other next task
  | .wait next waiting => before.Yields ahead id (next.setTask other { waiting with script := script })

theorem attempt_defer {task : Task} (defers : before.Defers ahead id other state task)
    (apart : other ≠ id) (action : Action) (rest : Script) :
    (state.attempt other task action).Defer before ahead id other task (action :: rest) := by
  have listening : before.Defers ahead id other (state.listen other task.scope) task :=
    defers.congr rfl rfl (Nat.le_refl _)
  cases action with
  | acquire =>
      simp only [attempt, stopWith]
      split
      · exact defers
      · split
        · rename_i limiter taken
          obtain ⟨respects, gone⟩ := defers.respects.take? taken
          exact ⟨defers.tasks, respects, fun waits => absurd waits gone⟩
        · have queued : before.Defers ahead id other
              { state.listen other task.scope with limiter := state.limiter.wait other } task := by
            refine ⟨defers.tasks, defers.respects.wait apart, fun waits => defers.slots ?_⟩
            have member : id ∈ state.limiter.waiting ++ [other] := waits
            simpa [apart.symm] using member
          exact queued.store _ (Nat.le_refl _)
  | release =>
      simp only [attempt]
      split
      · exact defers
      · refine ⟨(tasks_giveSlot state).trans defers.tasks, ?_, fun waits late behind => ?_⟩
        · rw [giveSlot, limiter_withLimiter]
          exact defers.respects.give
        · refine Nat.le_trans (Nat.sub_le _ _) (defers.slots ?_ late behind)
          rw [giveSlot, limiter_withLimiter] at waits
          unfold Limiter.give at waits
          split at waits
          · exact waits
          · rename_i first rest waiting
            rw [waiting]
            exact List.mem_cons_of_mem _ waits
  | cancel =>
      exact defers.congr (tasks_cancelScope _ _) (limiter_cancelScope _ _) (Nat.le_refl _)
  | wait millis =>
      simp only [attempt, stopWith]
      repeat' split
      · exact defers
      · exact defers
      · have timed : before.Defers ahead id other
            ((state.listen other task.scope).setTimer other (state.clock + millis)) task :=
          defers.congr rfl rfl (Nat.le_refl _)
        exact timed.store _ (Nat.le_refl _)
  | sleep millis =>
      simp only [attempt]
      split
      · exact defers
      · have timed : before.Defers ahead id other (state.setTimer other (state.clock + millis)) task :=
          defers.congr rfl rfl (Nat.le_refl _)
        exact timed.store _ (Nat.le_refl _)
  | enter => exact defers.congr rfl rfl (Nat.le_refl _)
  | fail failure => exact defers
  | crash message => exact defers
  | finish => exact defers
  | _ =>
      simp only [attempt, stopWith]
      split
      · first
          | exact defers
          | exact defers.congr rfl rfl (Nat.le_refl _)
      · first
          | exact defers
          | exact defers.congr rfl rfl (Nat.le_refl _)
          | exact listening.store _ (Nat.le_refl _)

theorem yields_perform {task : Task} (defers : before.Defers ahead id other state task)
    (apart : other ≠ id) (script : Script) :
    before.Yields ahead id (state.perform other task script) := by
  refine perform_keeps (fun now current _ => before.Defers ahead id other now current)
    (before.Yields ahead id) ?_ ?_ state task script defers
  · intro now current action rest defers
    have tried := attempt_defer defers apart action rest
    split <;> rename_i same <;> rw [same] at tried
    · exact tried
    · exact yields_finish tried _
    · exact tried
  · intro now current defers
    exact yields_finish defers _

def Advance.Concedes (before : State) (ahead : List TaskId) (id other : TaskId) (task : Task) :
    Advance → Prop
  | .proceed next advanced => before.Defers ahead id other next advanced
  | .stop next _ => before.Defers ahead id other next task
  | .wait _ _ => True

theorem defers_of_found {task : Task} (respects : state.limiter.Respects ahead id state.limiter)
    (found : state.tasks[other]? = some task) : state.Defers ahead id other state task :=
  ⟨rfl, respects, fun _ _ _ => Nat.le_of_eq (slotsOf_of_found found).symm⟩

theorem defers_leave {task : Task} (respects : state.limiter.Respects ahead id state.limiter)
    (found : state.tasks[other]? = some task) (apart : other ≠ id) :
    state.Defers ahead id other
      ((state.unlisten other).withLimiter ((state.unlisten other).limiter.leave other)) task := by
  refine ⟨tasks_withLimiter _ _, ?_, fun _ _ _ => Nat.le_of_eq (slotsOf_of_found found).symm⟩
  rw [limiter_withLimiter]
  exact respects.leave apart

theorem resume_concedes {task : Task} (respects : state.limiter.Respects ahead id state.limiter)
    (found : state.tasks[other]? = some task) (apart : other ≠ id) (action : Action) :
    (state.resume other task action).Concedes state ahead id other task := by
  have quiet : state.Defers ahead id other (state.unlisten other) task :=
    (defers_of_found respects found).congr rfl rfl (Nat.le_refl _)
  cases action with
  | acquire =>
      simp only [resume, stopWith]
      split
      · exact defers_leave respects found apart
      · split
        · rename_i granted
          refine ⟨rfl, respects.claim apart, fun waits late behind => ?_⟩
          exact absurd (List.contains_iff_mem.mp granted) late
        · trivial
  | _ =>
      simp only [resume, stopWith]
      repeat' split
      all_goals first
        | exact quiet
        | exact quiet.congr rfl rfl (Nat.le_refl _)
        | trivial

theorem yields_refl (respects : state.limiter.Respects ahead id state.limiter) :
    state.Yields ahead id state :=
  ⟨respects, fun _ _ _ _ => Nat.le_refl _⟩

theorem yields_runTask (respects : state.limiter.Respects ahead id state.limiter)
    (apart : other ≠ id) : state.Yields ahead id (state.runTask other) := by
  unfold runTask
  split
  · exact yields_refl respects
  · rename_i task found
    split
    · split
      · rename_i action rest waits script
        have concedes := resume_concedes respects found apart action
        split
        · rename_i next advanced same
          rw [same] at concedes
          exact yields_perform concedes apart rest
        · rename_i next ending same
          rw [same] at concedes
          exact yields_finish concedes ending
        · exact yields_refl respects
      · exact yields_perform (defers_of_found respects found) apart task.script
    · have left := defers_leave respects found apart
      unfold drop
      split
      · exact left.store _ (Nat.le_refl _)
      · exact left.giveBack.store _ (Nat.le_refl _)
    · exact yields_refl respects

/-! ## Every move but its own turn -/

theorem Yields.congr {after : State} (respects : before.limiter.Respects ahead id before.limiter)
    (limiter : after.limiter = before.limiter)
    (slots : ∀ other, after.slotsOf other ≤ before.slotsOf other) : before.Yields ahead id after := by
  refine ⟨?_, fun _ other _ _ => slots other⟩
  rw [limiter]
  exact respects

theorem slotsOf_append {after : State} {added : List Task}
    (tasks : after.tasks = before.tasks ++ added) (nothing : ∀ task ∈ added, task.slots = 0)
    (id : TaskId) : after.slotsOf id ≤ before.slotsOf id := by
  by_cases known : id < before.tasks.length
  · exact Nat.le_of_eq (by rw [slotsOf, slotsOf, tasks, List.getElem?_append_left known])
  · cases found : after.tasks[id]? with
    | none => simp [slotsOf, found]
    | some task =>
        have same := found
        rw [tasks, List.getElem?_append_right (Nat.le_of_not_lt known)] at same
        simp [slotsOf_of_found found, nothing task (List.mem_of_getElem? same)]

theorem slotsOf_doom_le (state : State) (target : TaskId) (id : TaskId) :
    (state.doom target).slotsOf id ≤ state.slotsOf id := by
  unfold doom
  split
  · exact Nat.le_refl _
  · rename_i task found
    split
    · rw [slotsOf_congr (tasks_wake _ _)]
      refine slotsOf_setTask_le target fun own => ?_
      subst own
      exact Nat.le_of_eq (slotsOf_of_found found).symm
    · exact Nat.le_refl _

theorem limiter_doom (state : State) (id : TaskId) : (state.doom id).limiter = state.limiter := by
  unfold doom
  split
  · rfl
  · split
    · exact limiter_wake _ _
    · rfl

theorem kept_foldl_doom (state : State) (ids : List TaskId) :
    (ids.foldl doom state).limiter = state.limiter ∧
      ∀ id, (ids.foldl doom state).slotsOf id ≤ state.slotsOf id := by
  induction ids generalizing state with
  | nil => exact ⟨rfl, fun _ => Nat.le_refl _⟩
  | cons first rest ih =>
      obtain ⟨limiter, slots⟩ := ih (state.doom first)
      exact ⟨limiter.trans (limiter_doom state first),
        fun id => Nat.le_trans (slots id) (slotsOf_doom_le state first id)⟩

theorem yields_release (respects : state.limiter.Respects ahead id state.limiter) (target : TaskId) :
    state.Yields ahead id (state.release target) := by
  unfold release
  split
  · exact yields_refl respects
  · rename_i task found
    split
    · exact yields_refl respects
    · refine ⟨?_, fun _ other _ _ => ?_⟩
      · rw [giveSlot, limiter_withLimiter]
        exact respects.give
      · rw [slotsOf_congr (tasks_giveSlot _)]
        refine slotsOf_setTask_le target fun own => ?_
        subst own
        rw [slotsOf_of_found found]
        exact Nat.sub_le _ _

/-- Whatever others do, a waiter keeps its place or is granted a slot. -/
theorem yields_apply (respects : state.limiter.Respects ahead id state.limiter) {move : Move}
    (foreign : move ≠ .turn (.task id)) : state.Yields ahead id (state.apply move) := by
  have same {after : State} (tasks : after.tasks = state.tasks)
      (limiter : after.limiter = state.limiter) : state.Yields ahead id after :=
    .congr respects limiter fun other => Nat.le_of_eq (slotsOf_congr tasks other)
  cases move with
  | addBackground => exact same rfl rfl
  | derive parent deadline => exact same rfl rfl
  | cancel target => exact same (tasks_cancelScope _ _) (limiter_cancelScope _ _)
  | openCall context steps =>
      have opened := opened_openCall state context steps
      refine .congr respects opened.limiter (slotsOf_append opened.tasks fun task member => ?_)
      obtain ⟨position, there⟩ := List.getElem?_of_mem member
      rw [getElem?_stepTasks] at there
      obtain ⟨script, _, rfl⟩ := Option.map_eq_some_iff.mp there
      rfl
  | abortCall call =>
      simp only [State.apply, abortCall]
      split
      · exact yields_refl respects
      · split
        · exact yields_refl respects
        · rename_i found _ _
          obtain ⟨limiter, slots⟩ := kept_foldl_doom
            { state with calls := state.calls.set call { found with aborted := true } } found.tasks
          exact .congr respects limiter slots
  | spawn scope script =>
      have tasks : (state.spawn scope none script).tasks =
          state.tasks ++ [Task.new scope none script state.clock] := tasks_wake _ _
      exact .congr respects (limiter_wake _ _) (slotsOf_append tasks (by simp [Task.new]))
  | doom target =>
      simp only [State.apply]
      split
      · exact .congr respects (limiter_doom _ _) (slotsOf_doom_le state target)
      · exact yields_refl respects
  | release target =>
      simp only [State.apply]
      split
      · exact yields_release respects target
      · exact yields_refl respects
  | turn worker =>
      simp only [State.apply]
      split
      · cases worker with
        | task other =>
            have apart : other ≠ id := fun own => foreign (own ▸ rfl)
            let popped : State := { state with ready := state.ready.erase (.task other) }
            have turned : popped.Yields ahead id (popped.runTask other) := yields_runTask respects apart
            exact ⟨turned.respects, turned.slots⟩
        | call call =>
            rcases runCall_cases { state with ready := state.ready.erase (.call call) } call with
              still | ⟨found, known, aborted, ended⟩
            · exact same (by simp only [run, still]) (by simp only [run, still])
            · obtain ⟨stop, turned⟩ := joins_runCall known aborted ended
              exact same turned.tasks turned.limiter
      · exact yields_refl respects
  | jump time =>
      simp only [State.apply, jump]
      split
      · exact same (tasks_wakeAll _ _) (limiter_wakeAll _ _)
      · exact yields_refl respects

end State

end OrderDesk.Schedule
