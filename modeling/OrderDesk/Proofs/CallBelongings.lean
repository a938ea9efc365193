import OrderDesk.Proofs.Errors
import OrderDesk.Proofs.Slots

/-! What a call has to itself, and what leaves it alone. The tasks of a call are numbered in a row,
and they work in a scope that the call has derived from its context. Whatever else happens, the
clock stands still, these tasks and the call are as they were, and so is everything in line, every
timer and every listener that concerns them, in the same order. The only thing that reaches them
from outside is that their context is canceled. -/

namespace OrderDesk.Schedule

structure Realm where
  call : CallId
  context : ScopeId
  scope : ScopeId
  first : Nat
  size : Nat

namespace Realm

def hasTask (realm : Realm) (task : Nat) : Bool :=
  realm.first ≤ task && task < realm.first + realm.size

def has (realm : Realm) : Worker → Bool
  | .task id => realm.hasTask id
  | .call id => id == realm.call

theorem hasTask_iff {realm : Realm} {task : Nat} :
    realm.hasTask task = true ↔ ∃ position, position < realm.size ∧ task = realm.first + position := by
  simp only [hasTask, Bool.and_eq_true, decide_eq_true_eq]
  constructor
  · rintro ⟨above, below⟩
    exact ⟨task - realm.first, by omega, by omega⟩
  · rintro ⟨position, bound, rfl⟩
    omega

end Realm

structure Task.Alien (task : Task) (realm : Realm) : Prop where
  scope : task.scope ≠ realm.scope
  duty : ∀ duty ∈ task.duty, duty.call ≠ realm.call

/-- All that contains the scope of the realm contains its context, but for the scope itself. -/
def Scopes.Nests (scopes : Scopes) (realm : Realm) : Prop :=
  ∃ own, scopes[realm.scope]? = some own ∧ realm.scope ∈ own.lineage ∧
    ∀ target ∈ own.lineage, target ≠ realm.scope →
      ∃ outer, scopes[realm.context]? = some outer ∧ target ∈ outer.lineage

theorem Scopes.Nests.extends {before after : Scopes} {realm : Realm} (nests : before.Nests realm)
    (grows : before.Extends after) : after.Nests realm := by
  obtain ⟨own, placed, self, others⟩ := nests
  obtain ⟨later, placed', lineage, _, _⟩ := grows realm.scope own placed
  refine ⟨later, placed', lineage ▸ self, ?_⟩
  intro target member other
  obtain ⟨outer, there, within⟩ := others target (lineage ▸ member) other
  obtain ⟨later', there', lineage', _, _⟩ := grows realm.context outer there
  exact ⟨later', there', lineage' ▸ within⟩

namespace State

/-- Nothing that concerns the realm has changed, and none of its tasks waits for a slot. -/
structure Spares (before : State) (realm : Realm) (after : State) : Prop where
  clock : after.clock = before.clock
  tasks : ∀ task, realm.hasTask task = true → after.tasks[task]? = before.tasks[task]?
  call : after.calls[realm.call]? = before.calls[realm.call]?
  scope : after.scopes[realm.scope]? = before.scopes[realm.scope]?
  line : after.ready.filter realm.has = before.ready.filter realm.has
  timers : (after.timers.filter fun timer => realm.hasTask timer.task) =
    before.timers.filter fun timer => realm.hasTask timer.task
  listeners : (after.listeners.filter fun listener => realm.hasTask listener.1) =
    before.listeners.filter fun listener => realm.hasTask listener.1
  queue : ∀ task ∈ after.limiter.line, realm.hasTask task = false

structure Hosts (state : State) (realm : Realm) : Prop where
  nests : state.scopes.Nests realm
  bound : realm.first + realm.size ≤ state.tasks.length
  known : realm.call < state.calls.length
  heard : ∀ listener ∈ state.listeners, realm.hasTask listener.1 = true → listener.2 = realm.scope
  queue : ∀ task ∈ state.limiter.line, realm.hasTask task = false
  working : ∀ (id : TaskId) (task : Task), state.tasks[id]? = some task →
    realm.hasTask id = true → task.duty ≠ none
  tasks : ∀ (id : TaskId) (task : Task), state.tasks[id]? = some task →
    realm.hasTask id = false → task.Alien realm
  calls : ∀ (id : CallId) (call : Call), state.calls[id]? = some call → id ≠ realm.call →
    call.scope ≠ realm.scope ∧ ∀ task ∈ call.tasks, realm.hasTask task = false

variable {realm : Realm} {before state : State}

theorem Spares.refl (queue : ∀ task ∈ state.limiter.line, realm.hasTask task = false) :
    state.Spares realm state :=
  ⟨rfl, fun _ _ => rfl, rfl, rfl, rfl, rfl, rfl, queue⟩

theorem Spares.mem_ready {after : State} (spares : before.Spares realm after) {worker : Worker}
    (own : realm.has worker = true) : worker ∈ after.ready ↔ worker ∈ before.ready := by
  have same := congrArg (worker ∈ ·) spares.line
  simpa [own] using same

theorem Spares.mem_timers {after : State} (spares : before.Spares realm after) {timer : Timer}
    (own : realm.hasTask timer.task = true) : timer ∈ after.timers ↔ timer ∈ before.timers := by
  have same := congrArg (timer ∈ ·) spares.timers
  simpa [own] using same

theorem Spares.mem_listeners {after : State} (spares : before.Spares realm after)
    {listener : TaskId × ScopeId} (own : realm.hasTask listener.1 = true) :
    listener ∈ after.listeners ↔ listener ∈ before.listeners := by
  have same := congrArg (listener ∈ ·) spares.listeners
  simpa [own] using same

theorem Spares.wake (spares : before.Spares realm state) {worker : Worker}
    (foreign : realm.has worker = false) : before.Spares realm (state.wake worker) := by
  have line : (state.wake worker).ready.filter realm.has = state.ready.filter realm.has := by
    unfold State.wake
    split
    · rfl
    · simp [foreign]
  rw [wake_eq]
  exact { spares with line := line.trans spares.line }

theorem Spares.wakeAll (spares : before.Spares realm state) {tasks : List TaskId}
    (foreign : ∀ task ∈ tasks, realm.hasTask task = false) :
    before.Spares realm (state.wakeAll tasks) := by
  induction tasks generalizing state with
  | nil => exact spares
  | cons task tasks ih =>
      exact ih (spares.wake (foreign task (by simp))) fun other member =>
        foreign other (by simp [member])

theorem exists_woken_once {first : List Nat} (task : TaskId)
    (line : state.ready.filter realm.has = first.map Worker.task)
    (sorted : first.Pairwise (· < ·))
    (after : realm.hasTask task = true → ∀ early ∈ first, early ≤ task) :
    ∃ woken : List Nat,
      (state.wake (.task task)).ready.filter realm.has = woken.map Worker.task ∧
      woken.Pairwise (· < ·) ∧
      ∀ id, id ∈ woken ↔ id ∈ first ∨ id = task ∧ realm.hasTask task = true := by
  by_cases own : realm.hasTask task = true
  · have mine : realm.has (.task task) = true := own
    have known : .task task ∈ state.ready ↔ task ∈ first := by
      have filtered := congrArg (Worker.task task ∈ ·) line
      simpa [mine] using filtered
    unfold State.wake
    split
    · rename_i inLine
      have old : task ∈ first := known.mp (List.contains_iff_mem.mp inLine)
      refine ⟨first, line, sorted, fun id => ⟨.inl, ?_⟩⟩
      rintro (early | ⟨rfl, _⟩)
      · exact early
      · exact old
    · rename_i absent
      have fresh : task ∉ first := fun old => absent (List.contains_iff_mem.mpr (known.mpr old))
      refine ⟨first ++ [task], by simp [line, mine], ?_, by simp [own]⟩
      refine List.pairwise_append.mpr ⟨sorted, List.pairwise_singleton _ _, ?_⟩
      intro early member late last
      obtain rfl := List.mem_singleton.mp last
      exact Nat.lt_of_le_of_ne (after own early member) fun same => fresh (same ▸ member)
  · have foreign : realm.has (.task task) = false := by simpa [Realm.has] using own
    refine ⟨first, ?_, sorted, by simp [own]⟩
    rw [← line]
    unfold State.wake
    split
    · rfl
    · simp [foreign]

/-- Tasks that are woken in their order stand in line in their order, each of them once. -/
theorem exists_woken {first : List Nat} (tasks : List TaskId)
    (line : state.ready.filter realm.has = first.map Worker.task)
    (sorted : first.Pairwise (· < ·))
    (later : (tasks.filter realm.hasTask).Pairwise (· ≤ ·))
    (after : ∀ early ∈ first, ∀ late ∈ tasks.filter realm.hasTask, early ≤ late) :
    ∃ woken : List Nat,
      (state.wakeAll tasks).ready.filter realm.has = woken.map Worker.task ∧
      woken.Pairwise (· < ·) ∧
      ∀ id, id ∈ woken ↔ id ∈ first ∨ id ∈ tasks ∧ realm.hasTask id = true := by
  induction tasks generalizing state first with
  | nil => exact ⟨first, line, sorted, by simp⟩
  | cons task tasks ih =>
      have fewer : (tasks.filter realm.hasTask).Sublist ((task :: tasks).filter realm.hasTask) :=
        (List.sublist_cons_self task tasks).filter _
      have head (own : realm.hasTask task = true) :
          task ∈ (task :: tasks).filter realm.hasTask ∧
            ∀ late ∈ tasks.filter realm.hasTask, task ≤ late := by
        rw [List.filter_cons_of_pos own] at later ⊢
        exact ⟨List.mem_cons_self, (List.pairwise_cons.mp later).1⟩
      obtain ⟨once, line', sorted', members⟩ := exists_woken_once task line sorted
        fun own early member => after early member task (head own).1
      obtain ⟨woken, line'', sorted'', members'⟩ := ih line' sorted' (later.sublist fewer) (by
        intro early member late listed
        rcases (members early).mp member with old | ⟨rfl, own⟩
        · exact after early old late (fewer.subset listed)
        · exact (head own).2 late listed)
      refine ⟨woken, line'', sorted'', fun id => ?_⟩
      rw [members', members, List.mem_cons]
      constructor
      · rintro ((old | ⟨rfl, own⟩) | ⟨listed, own⟩)
        · exact .inl old
        · exact .inr ⟨.inl rfl, own⟩
        · exact .inr ⟨.inr listed, own⟩
      · rintro (old | ⟨rfl | listed, own⟩)
        · exact .inl (.inl old)
        · exact .inl (.inr ⟨rfl, own⟩)
        · exact .inr ⟨listed, own⟩

theorem Spares.relimit (spares : before.Spares realm state)
    {change : Limiter × Option TaskId}
    (line : ∀ task ∈ change.1.line, realm.hasTask task = false)
    (granted : ∀ task ∈ change.2, realm.hasTask task = false) :
    before.Spares realm (state.withLimiter change) := by
  have changed : before.Spares realm { state with limiter := change.1 } :=
    { spares with queue := line }
  unfold State.withLimiter
  split
  · rename_i task same
    exact changed.wake (granted task same)
  · exact changed

theorem Spares.withLimiter (spares : before.Spares realm state)
    {change : Limiter × Option TaskId}
    (line : ∀ task ∈ change.1.line, task ∈ state.limiter.line)
    (granted : ∀ task ∈ change.2, task ∈ state.limiter.line) :
    before.Spares realm (state.withLimiter change) :=
  spares.relimit (fun task member => spares.queue task (line task member))
    fun task member => spares.queue task (granted task member)

theorem Spares.giveSlot (spares : before.Spares realm state) :
    before.Spares realm state.giveSlot :=
  spares.withLimiter (fun _ member => state.limiter.line_give ▸ member)
    fun _ granted => Limiter.mem_line_of_give granted

theorem Spares.giveSlots (spares : before.Spares realm state) (count : Nat) :
    before.Spares realm (state.giveSlots count) := by
  induction count generalizing state with
  | zero => exact spares
  | succ count ih => exact ih spares.giveSlot

theorem Spares.giveBack (spares : before.Spares realm state) (task : Task) :
    before.Spares realm (state.giveBack task) := by
  have counted : before.Spares realm { state with running := state.running - task.guards } :=
    { spares with }
  exact counted.giveSlots task.slots

theorem Spares.take (spares : before.Spares realm state) {limiter : Limiter}
    (taken : state.limiter.take? = some limiter) :
    before.Spares realm { state with limiter := limiter } :=
  { spares with queue := fun task member => spares.queue task (Limiter.line_take? taken ▸ member) }

theorem Spares.enqueue (spares : before.Spares realm state) {id : TaskId}
    (foreign : realm.hasTask id = false) :
    before.Spares realm { state with limiter := state.limiter.wait id } := by
  refine { spares with queue := fun other member => ?_ }
  have line : (state.limiter.wait id).line = state.limiter.line ++ [id] := by
    simp [Limiter.line, Limiter.wait]
  rcases List.mem_append.mp (line ▸ member) with old | new
  · exact spares.queue other old
  · exact List.mem_singleton.mp new ▸ foreign

theorem Spares.claim (spares : before.Spares realm state) {id : TaskId}
    (granted : state.limiter.granted.contains id = true) :
    before.Spares realm { state with limiter := state.limiter.claim id } := by
  have line := Limiter.line_claim (List.contains_iff_mem.mp granted)
  exact { spares with
    queue := fun other member => spares.queue other (List.mem_of_mem_erase (line ▸ member)) }

theorem Spares.leave (spares : before.Spares realm state) (id : TaskId) :
    before.Spares realm (state.withLimiter (state.limiter.leave id)) := by
  refine spares.withLimiter (fun task member => ?_) fun _ granted => Limiter.mem_line_of_leave granted
  rw [Limiter.line_leave] at member
  exact List.mem_of_mem_erase member

theorem Spares.setTimer (spares : before.Spares realm state) {id : TaskId}
    (foreign : realm.hasTask id = false) (due : Nat) :
    before.Spares realm (state.setTimer id due) := by
  have timers : ((state.setTimer id due).timers.filter fun timer => realm.hasTask timer.task) =
      state.timers.filter fun timer => realm.hasTask timer.task := by
    simp [State.setTimer, foreign]
  exact { spares with timers := timers.trans spares.timers }

theorem Spares.listen (spares : before.Spares realm state) {id : TaskId}
    (foreign : realm.hasTask id = false) (scope : ScopeId) :
    before.Spares realm (state.listen id scope) := by
  have listeners : ((state.listen id scope).listeners.filter
      fun listener => realm.hasTask listener.1) =
        state.listeners.filter fun listener => realm.hasTask listener.1 := by
    simp [State.listen, foreign]
  unfold State.listen
  split
  · rename_i due _
    exact { spares.setTimer foreign due with listeners := listeners.trans spares.listeners }
  · exact { spares with listeners := listeners.trans spares.listeners }

theorem filter_filter_bne {α : Type} (items : List α) (key : α → TaskId) (own : TaskId → Bool)
    {id : TaskId} (foreign : own id = false) :
    ((items.filter fun item => key item != id).filter fun item => own (key item)) =
      items.filter fun item => own (key item) := by
  rw [List.filter_filter]
  apply List.filter_congr
  intro item _
  by_cases same : key item = id
  · simp [same, foreign]
  · simp [same]

theorem Spares.unlisten (spares : before.Spares realm state) {id : TaskId}
    (foreign : realm.hasTask id = false) : before.Spares realm (state.unlisten id) :=
  { spares with
    timers := (filter_filter_bne state.timers Timer.task realm.hasTask foreign).trans spares.timers
    listeners :=
      (filter_filter_bne state.listeners Prod.fst realm.hasTask foreign).trans spares.listeners }

theorem Spares.cancel_outside (spares : before.Spares realm state) {own : Scope}
    (placed : state.scopes[realm.scope]? = some own)
    (heard : ∀ listener ∈ before.listeners, realm.hasTask listener.1 = true →
      listener.2 = realm.scope)
    {target : ScopeId} (outside : target ∉ own.lineage) :
    before.Spares realm (state.cancelScope target) := by
  have unheard (task : TaskId) (member : task ∈ (state.listeners.filter fun listener =>
      state.scopes.isWithin listener.2 target).map Prod.fst) : realm.hasTask task = false := by
    obtain ⟨listener, kept, rfl⟩ := List.mem_map.mp member
    obtain ⟨listed, hears⟩ := List.mem_filter.mp kept
    by_contra mine
    have mine : realm.hasTask listener.1 = true := by simpa using mine
    simp [heard listener ((spares.mem_listeners mine).mp listed) mine, Scopes.isWithin, placed,
      outside] at hears
  have scope : (state.scopes.cancel target)[realm.scope]? = state.scopes[realm.scope]? := by
    simp [Scopes.cancel, placed, outside]
  have marked : before.Spares realm { state with scopes := state.scopes.cancel target } :=
    { spares with scope := scope.trans spares.scope }
  exact marked.wakeAll unheard

/-- To cancel another scope either cancels the context or does not matter. -/
theorem Spares.cancelScope (spares : before.Spares realm state)
    (nests : state.scopes.Nests realm)
    (heard : ∀ listener ∈ before.listeners, realm.hasTask listener.1 = true →
      listener.2 = realm.scope)
    {target : ScopeId} (other : target ≠ realm.scope) :
    (state.cancelScope target).isCanceled realm.context = true ∨
      before.Spares realm (state.cancelScope target) := by
  obtain ⟨own, placed, _, others⟩ := nests
  by_cases within : target ∈ own.lineage
  · obtain ⟨outer, there, contained⟩ := others target within other
    left
    simp only [isCanceled, scopes_cancelScope, Scopes.cancel, List.getElem?_map, there,
      Option.map_some, List.contains_iff_mem.mpr contained, if_true, Option.any_some]
  · exact .inr (spares.cancel_outside placed heard within)

theorem Spares.setTask (spares : before.Spares realm state) {id : TaskId}
    (foreign : realm.hasTask id = false) (task : Task) :
    before.Spares realm (state.setTask id task) := by
  refine { spares with tasks := fun other own => ?_ }
  have different : id ≠ other := by
    rintro rfl
    rw [foreign] at own
    cases own
  simp only [State.setTask]
  rw [List.getElem?_set_ne different]
  exact spares.tasks other own

theorem Spares.report (spares : before.Spares realm state) {duty : Duty}
    (other : duty.call ≠ realm.call) (id : TaskId) :
    before.Spares realm (state.report id (some duty)) := by
  have foreign : realm.has (.call duty.call) = false := by simpa [Realm.has] using other
  have told : before.Spares realm
      { state with
        calls := state.calls.modify duty.call fun call =>
          { call with finished := call.finished ++ [id] } } :=
    { spares with call := (List.getElem?_modify_ne _ _ other).trans spares.call }
  exact told.wake foreign

theorem Spares.finish (spares : before.Spares realm state) {id : TaskId} {task : Task}
    (foreign : realm.hasTask id = false) (alien : task.Alien realm) (ending : Ending) :
    before.Spares realm (state.finish id task ending) := by
  unfold State.finish
  split
  · exact spares.setTask foreign _
  · rename_i duty works
    exact ((spares.giveBack task).setTask foreign _).report (alien.duty duty works) id

theorem Spares.drop (spares : before.Spares realm state) {id : TaskId}
    (foreign : realm.hasTask id = false) (task : Task) :
    before.Spares realm (state.drop id task) := by
  have left := (spares.unlisten foreign).leave id
  unfold State.drop
  split
  · exact left.setTask foreign _
  · exact (left.giveBack task).setTask foreign _

def Advance.Spares (before : State) (realm : Realm) : Advance → Prop
  | .proceed state task => state.isCanceled realm.context = true ∨
      before.Spares realm state ∧ state.scopes.Nests realm ∧ task.Alien realm
  | .stop state _ => before.Spares realm state
  | .wait state _ => before.Spares realm state

theorem attempt_spares (spares : before.Spares realm state) (nests : state.scopes.Nests realm)
    (heard : ∀ listener ∈ before.listeners, realm.hasTask listener.1 = true →
      listener.2 = realm.scope)
    {id : TaskId} {task : Task} (foreign : realm.hasTask id = false) (alien : task.Alien realm)
    (action : Action) : (state.attempt id task action).Spares before realm := by
  have same : task.Alien realm := ⟨alien.scope, alien.duty⟩
  cases action <;> simp only [attempt, stopWith] <;> (repeat' split)
  all_goals simp only [Advance.Spares]
  all_goals first
    | exact .inr ⟨spares, nests, alien.scope, alien.duty⟩
    | exact .inr ⟨{ spares with }, nests, alien.scope, alien.duty⟩
    | exact spares
    | exact spares.setTimer foreign _
    | exact spares.listen foreign _
    | exact (spares.listen foreign _).setTimer foreign _
    | skip
  · rename_i taken
    exact .inr ⟨spares.take taken, nests, alien.scope, alien.duty⟩
  · exact (spares.listen foreign task.scope).enqueue foreign
  · refine .inr ⟨spares.giveSlot, ?_, alien.scope, alien.duty⟩
    simpa [giveSlot] using nests
  · rcases spares.cancelScope nests heard alien.scope with canceled | spared
    · exact .inl canceled
    · refine .inr ⟨spared, ?_, alien.scope, alien.duty⟩
      rw [scopes_cancelScope]
      exact nests.extends (Scopes.extends_cancel _ _)

theorem resume_spares (spares : before.Spares realm state) (nests : state.scopes.Nests realm)
    {id : TaskId} {task : Task} (foreign : realm.hasTask id = false) (alien : task.Alien realm)
    (action : Action) : (state.resume id task action).Spares before realm := by
  have quiet := spares.unlisten foreign
  cases action <;> simp only [resume, stopWith] <;> (repeat' split)
  all_goals simp only [Advance.Spares]
  all_goals first
    | exact .inr ⟨quiet, nests, alien.scope, alien.duty⟩
    | exact quiet
    | exact spares
    | exact quiet.leave id
    | skip
  · rename_i granted
    exact .inr ⟨quiet.claim granted, nests, alien.scope, alien.duty⟩

theorem perform_spares
    (heard : ∀ listener ∈ before.listeners, realm.hasTask listener.1 = true →
      listener.2 = realm.scope)
    {id : TaskId} {task : Task} (foreign : realm.hasTask id = false) (script : Script)
    (first : state.isCanceled realm.context = true ∨
      before.Spares realm state ∧ state.scopes.Nests realm ∧ task.Alien realm) :
    (state.perform id task script).isCanceled realm.context = true ∨
      before.Spares realm (state.perform id task script) := by
  refine perform_keeps
    (fun state task _ => state.isCanceled realm.context = true ∨
      before.Spares realm state ∧ state.scopes.Nests realm ∧ task.Alien realm)
    (fun after => after.isCanceled realm.context = true ∨ before.Spares realm after)
    ?_ ?_ state task script first
  · intro state task action rest during
    have grows := attempt_extends state id task action
    rcases during with canceled | ⟨spares, nests, alien⟩
    · split <;> rename_i same <;> rw [same] at grows
      · exact .inl (isCanceled_of_extends grows canceled)
      · refine .inl (isCanceled_of_extends ?_ canceled)
        rw [scopes_finish]
        exact grows
      · exact .inl (isCanceled_of_extends grows canceled)
    · have tried := attempt_spares spares nests heard foreign alien action
      split <;> rename_i same <;> rw [same] at tried
      · exact tried
      · exact .inr (tried.finish foreign alien _)
      · exact .inr (tried.setTask foreign _)
  · rintro state task (canceled | ⟨spares, _, alien⟩)
    · left
      simpa [isCanceled] using canceled
    · exact .inr (spares.finish foreign alien _)

theorem runTask_spares (spares : before.Spares realm state) (nests : state.scopes.Nests realm)
    (heard : ∀ listener ∈ before.listeners, realm.hasTask listener.1 = true →
      listener.2 = realm.scope)
    {id : TaskId} (foreign : realm.hasTask id = false)
    (alien : ∀ task, state.tasks[id]? = some task → task.Alien realm) :
    (state.runTask id).isCanceled realm.context = true ∨
      before.Spares realm (state.runTask id) := by
  unfold runTask
  split
  · exact .inr spares
  · rename_i task found
    have other := alien task found
    split
    · split
      · rename_i action rest _ _
        have tried := resume_spares spares nests foreign other action
        split <;> rename_i same <;> rw [same] at tried
        · exact perform_spares heard foreign rest tried
        · exact .inr (tried.finish foreign other _)
        · exact .inr spares
      · exact perform_spares heard foreign _ (.inr ⟨spares, nests, other⟩)
    · exact .inr (spares.drop foreign task)
    · exact .inr spares

theorem runCall_spares (spares : before.Spares realm state) (nests : state.scopes.Nests realm)
    (heard : ∀ listener ∈ before.listeners, realm.hasTask listener.1 = true →
      listener.2 = realm.scope)
    {id : CallId} (other : id ≠ realm.call)
    (alien : ∀ call, state.calls[id]? = some call → call.scope ≠ realm.scope) :
    (state.runCall id).isCanceled realm.context = true ∨
      before.Spares realm (state.runCall id) := by
  rcases runCall_cases state id with same | ⟨call, found, aborted, ended⟩
  · rw [same]
    exact .inr spares
  · rw [runCall_of_going found aborted ended]
    have heeded : (state.hearing call.scope (state.entries call)).isCanceled realm.context = true ∨
        before.Spares realm (state.hearing call.scope (state.entries call)) := by
      unfold hearing
      split
      · exact .inr spares
      · exact spares.cancelScope nests heard (alien call found)
    rcases heeded with canceled | spared
    · exact .inl canceled
    · exact .inr { spared with call := (List.getElem?_set_ne other).trans spares.call }

/-! ## From outside -/

theorem Spares.spawn (spares : before.Spares realm state)
    (bound : realm.first + realm.size ≤ state.tasks.length) (scope : ScopeId)
    (duty : Option Duty) (script : Script) :
    before.Spares realm (state.spawn scope duty script) := by
  have foreign : realm.has (.task state.tasks.length) = false := by
    simp only [Realm.has, Realm.hasTask, Bool.and_eq_false_iff, decide_eq_false_iff_not]
    exact .inr (Nat.not_lt.mpr bound)
  have added : before.Spares realm
      { state with tasks := state.tasks ++ [Task.new scope duty script state.clock] } := by
    refine { spares with tasks := fun task own => ?_ }
    obtain ⟨position, below, rfl⟩ := Realm.hasTask_iff.mp own
    refine (List.getElem?_append_left ?_).trans (spares.tasks _ own)
    exact Nat.lt_of_lt_of_le (Nat.add_lt_add_left below _) bound
  exact added.wake foreign

theorem Spares.spawnSteps (spares : before.Spares realm state)
    (bound : realm.first + realm.size ≤ state.tasks.length) (scope : ScopeId) (id : CallId)
    (position : Nat) (scripts : List Script) :
    before.Spares realm (state.spawnSteps scope id position scripts).1 := by
  induction scripts generalizing state position with
  | nil => exact spares
  | cons script scripts ih =>
      refine ih (spares.spawn bound scope (some ⟨id, position⟩) script) ?_ (position + 1)
      simp only [State.spawn, tasks_wake, List.length_append, List.length_singleton]
      exact Nat.le_succ_of_le bound

theorem Spares.openCall (spares : before.Spares realm state)
    (bound : realm.first + realm.size ≤ state.tasks.length)
    (known : realm.call < state.calls.length) (nests : state.scopes.Nests realm)
    (context : ScopeId) (steps : List (String × Script)) :
    before.Spares realm (state.openCall context steps).1 := by
  obtain ⟨own, placed, _⟩ := nests
  have scope : (state.scopes.derive context none)[realm.scope]? = state.scopes[realm.scope]? := by
    have below := (List.getElem?_eq_some_iff.mp placed).1
    unfold Scopes.derive
    split <;> exact List.getElem?_append_left below
  have derived : before.Spares realm (state.derive context none).1 :=
    { spares with scope := scope.trans spares.scope }
  have spawned := derived.spawnSteps bound state.scopes.length state.calls.length 0
    (steps.map Prod.snd)
  have calls := (spawned_spawnSteps (state.derive context none).1 state.scopes.length
    state.calls.length 0 (steps.map Prod.snd)).calls
  refine { spawned with call := Eq.trans (List.getElem?_append_left ?_) spawned.call }
  exact Nat.lt_of_lt_of_eq known (congrArg List.length calls.symm)

theorem Spares.doom (spares : before.Spares realm state) {id : TaskId}
    (foreign : realm.hasTask id = false) : before.Spares realm (state.doom id) := by
  unfold State.doom
  split
  · exact spares
  · split
    · exact (spares.setTask foreign _).wake foreign
    · exact spares

theorem Spares.foldl_doom (spares : before.Spares realm state) {ids : List TaskId}
    (foreign : ∀ id ∈ ids, realm.hasTask id = false) :
    before.Spares realm (ids.foldl State.doom state) := by
  induction ids generalizing state with
  | nil => exact spares
  | cons id ids ih =>
      exact ih (spares.doom (foreign id (by simp))) fun other member =>
        foreign other (by simp [member])

theorem Spares.release (spares : before.Spares realm state) {id : TaskId}
    (foreign : realm.hasTask id = false) : before.Spares realm (state.release id) := by
  unfold State.release
  split
  · exact spares
  · split
    · exact spares
    · exact (spares.setTask foreign _).giveSlot

theorem Spares.abortCall (spares : before.Spares realm state) {id : CallId}
    (other : id ≠ realm.call)
    (alien : ∀ call, state.calls[id]? = some call → ∀ task ∈ call.tasks,
      realm.hasTask task = false) :
    before.Spares realm (state.abortCall id) := by
  unfold State.abortCall
  split
  · exact spares
  · rename_i call found
    split
    · exact spares
    · have marked : before.Spares realm
          { state with calls := state.calls.set id { call with aborted := true } } :=
        { spares with call := (List.getElem?_set_ne other).trans spares.call }
      exact marked.foldl_doom (alien call found)

theorem Spares.pop (spares : before.Spares realm state) {worker : Worker}
    (foreign : realm.has worker = false) :
    before.Spares realm { state with ready := state.ready.erase worker } := by
  have line : (state.ready.erase worker).filter realm.has = state.ready.filter realm.has := by
    rw [← List.erase_filter]
    exact List.erase_of_not_mem (by simp [foreign])
  exact { spares with line := line.trans spares.line }

end State

def Realm.Permits (realm : Realm) : Move → Prop
  | .cancel target => target ≠ realm.scope
  | .spawn scope _ => scope ≠ realm.scope
  | .abortCall id => id ≠ realm.call
  | _ => True

namespace State

variable {realm : Realm} {state : State}

/-- Whatever happens elsewhere spares the realm, unless it cancels the context. -/
theorem Hosts.spares (hosts : state.Hosts realm) {move : Move} (permitted : realm.Permits move)
    (foreign : ∀ worker, move = .turn worker → realm.has worker = false)
    (still : ∀ time, move ≠ .jump time) :
    (state.apply move).isCanceled realm.context = true ∨
      state.Spares realm (state.apply move) := by
  have spares := Spares.refl hosts.queue
  have loose (id : TaskId) (free : state.isLoose id = true) : realm.hasTask id = false := by
    by_contra own
    simp only [Bool.not_eq_false] at own
    cases found : state.tasks[id]? with
    | none => simp [isLoose, found] at free
    | some task => exact hosts.working id task found own (not_duty_of_isLoose free task found)
  obtain ⟨own, placed, _⟩ := hosts.nests
  have below := (List.getElem?_eq_some_iff.mp placed).1
  cases move with
  | addBackground =>
      exact .inr { spares with scope := List.getElem?_append_left below }
  | derive parent deadline =>
      refine .inr { spares with scope := ?_ }
      simp only [State.derive, Scopes.derive, apply]
      split <;> exact List.getElem?_append_left below
  | cancel target => exact spares.cancelScope hosts.nests hosts.heard permitted
  | openCall context steps =>
      exact .inr (spares.openCall hosts.bound hosts.known hosts.nests context steps)
  | abortCall id =>
      exact .inr (spares.abortCall permitted fun call found =>
        (hosts.calls id call found permitted).2)
  | spawn scope script => exact .inr (spares.spawn hosts.bound scope none script)
  | doom id =>
      simp only [apply]
      split
      · rename_i free
        exact .inr (spares.doom (loose id free))
      · exact .inr spares
  | release id =>
      simp only [apply]
      split
      · rename_i free
        exact .inr (spares.release (loose id free))
      · exact .inr spares
  | turn worker =>
      have other := foreign worker rfl
      have popped := spares.pop other
      simp only [apply]
      split
      · cases worker with
        | task id =>
            exact runTask_spares popped hosts.nests hosts.heard other fun task found =>
              hosts.tasks id task found other
        | call id =>
            have different : id ≠ realm.call := by simpa [Realm.has] using other
            exact runCall_spares popped hosts.nests hosts.heard different fun call found =>
              (hosts.calls id call found different).1
      · exact .inr spares
  | jump time => exact absurd rfl (still time)

end State

end OrderDesk.Schedule
