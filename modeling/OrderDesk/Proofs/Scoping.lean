import OrderDesk.Proofs.Wiring

/-! The table of scopes only grows. A scope keeps its lineage and its deadline, and once canceled
it stays canceled, whatever happens. -/

namespace OrderDesk.Schedule

namespace Scopes

def Extends (before after : Scopes) : Prop :=
  ∀ (id : ScopeId) (scope : Scope), before[id]? = some scope → ∃ later, after[id]? = some later ∧
    later.lineage = scope.lineage ∧ later.deadline = scope.deadline ∧
      (scope.canceled = true → later.canceled = true)

theorem Extends.refl (scopes : Scopes) : scopes.Extends scopes :=
  fun _ scope present => ⟨scope, present, rfl, rfl, fun flag => flag⟩

theorem Extends.trans {first second third : Scopes} (earlier : first.Extends second)
    (later : second.Extends third) : first.Extends third := by
  intro id scope present
  obtain ⟨middle, there, lineage, deadline, canceled⟩ := earlier id scope present
  obtain ⟨last, here, lineage', deadline', canceled'⟩ := later id middle there
  exact ⟨last, here, lineage'.trans lineage, deadline'.trans deadline,
    fun flag => canceled' (canceled flag)⟩

theorem Extends.length_le {before after : Scopes} (grows : before.Extends after) :
    before.length ≤ after.length := by
  refine Nat.le_of_not_lt fun bound => ?_
  obtain ⟨later, placed, _⟩ := grows after.length _ (List.getElem?_eq_getElem bound)
  simp at placed

theorem extends_append (scopes : Scopes) (scope : Scope) : scopes.Extends (scopes ++ [scope]) := by
  intro id old present
  have bound := (List.getElem?_eq_some_iff.mp present).1
  exact ⟨old, by rw [List.getElem?_append_left bound, present], rfl, rfl, fun flag => flag⟩

theorem extends_derive (scopes : Scopes) (parent : ScopeId) (deadline : Option Nat) :
    scopes.Extends (scopes.derive parent deadline) := by
  unfold derive
  split <;> exact extends_append _ _

theorem extends_cancel (scopes : Scopes) (target : ScopeId) :
    scopes.Extends (scopes.cancel target) := by
  intro id scope present
  by_cases within : scope.lineage.contains target = true
  · refine ⟨{ scope with canceled := true }, ?_, rfl, rfl, fun _ => rfl⟩
    simp only [cancel, List.getElem?_map, present, Option.map_some, within, if_true]
  · refine ⟨scope, ?_, rfl, rfl, fun flag => flag⟩
    simp only [cancel, List.getElem?_map, present, Option.map_some, within, if_false,
      Bool.false_eq_true]

end Scopes

namespace State

@[simp] theorem scopes_wake (state : State) (worker : Worker) :
    (state.wake worker).scopes = state.scopes := by
  rw [wake_eq]

@[simp] theorem scopes_wakeAll (state : State) (tasks : List TaskId) :
    (state.wakeAll tasks).scopes = state.scopes := by
  rw [wakeAll_eq]

@[simp] theorem scopes_withLimiter (state : State) (change : Limiter × Option TaskId) :
    (state.withLimiter change).scopes = state.scopes := by
  unfold withLimiter
  cases change.2 <;> simp

@[simp] theorem scopes_giveSlots (state : State) (count : Nat) :
    (state.giveSlots count).scopes = state.scopes := by
  induction count generalizing state with
  | zero => rfl
  | succ count ih => exact (ih state.giveSlot).trans (scopes_withLimiter state _)

@[simp] theorem scopes_giveBack (state : State) (task : Task) :
    (state.giveBack task).scopes = state.scopes := scopes_giveSlots _ _

@[simp] theorem scopes_finish (state : State) (id : TaskId) (task : Task) (ending : Ending) :
    (state.finish id task ending).scopes = state.scopes := by
  unfold finish
  split
  · rfl
  · simp [report, setTask]

@[simp] theorem scopes_drop (state : State) (id : TaskId) (task : Task) :
    (state.drop id task).scopes = state.scopes := by
  unfold drop
  split <;> simp [setTask, unlisten]

@[simp] theorem scopes_doom (state : State) (id : TaskId) :
    (state.doom id).scopes = state.scopes := by
  unfold doom
  split
  · rfl
  · split
    · simp [setTask]
    · rfl

theorem scopes_foldl_doom (state : State) (ids : List TaskId) :
    (ids.foldl doom state).scopes = state.scopes := by
  induction ids generalizing state with
  | nil => rfl
  | cons id ids ih => exact (ih (state.doom id)).trans (scopes_doom state id)

/-! ## Turns -/

def Advance.scopes : Advance → Scopes
  | .proceed state _ => state.scopes
  | .stop state _ => state.scopes
  | .wait state _ => state.scopes

theorem attempt_extends (state : State) (id : TaskId) (task : Task) (action : Action) :
    state.scopes.Extends (state.attempt id task action).scopes := by
  have same := Scopes.Extends.refl state.scopes
  cases action <;> simp only [attempt, stopWith] <;> (repeat' split)
  all_goals first
    | exact same
    | skip
  · simp only [Advance.scopes, giveSlot, scopes_withLimiter]
    exact same
  · simp only [Advance.scopes, scopes_cancelScope]
    exact Scopes.extends_cancel _ _

theorem resume_scopes (state : State) (id : TaskId) (task : Task) (action : Action) :
    (state.resume id task action).scopes = state.scopes := by
  cases action <;> simp only [resume, stopWith] <;> (repeat' split)
  all_goals first
    | rfl
    | exact scopes_withLimiter _ _

theorem perform_extends (state : State) (id : TaskId) (task : Task) (script : Script) :
    state.scopes.Extends (state.perform id task script).scopes := by
  refine perform_keeps (fun now _ _ => state.scopes.Extends now.scopes)
    (fun after => state.scopes.Extends after.scopes) ?_ ?_ state task script (.refl _)
  · intro now task action rest grows
    have tried := grows.trans (attempt_extends now id task action)
    split <;> rename_i same <;> rw [same] at tried
    · exact tried
    · rw [scopes_finish]
      exact tried
    · exact tried
  · intro now task grows
    rw [scopes_finish]
    exact grows

theorem runTask_extends (state : State) (id : TaskId) :
    state.scopes.Extends (state.runTask id).scopes := by
  unfold runTask
  split
  · exact Scopes.Extends.refl _
  · rename_i task found
    split
    · split
      · rename_i action rest waits script
        have looked := resume_scopes state id task action
        split
        · rename_i next advanced same
          rw [same] at looked
          exact looked ▸ perform_extends next id advanced rest
        · rename_i next ending same
          rw [same] at looked
          rw [scopes_finish]
          exact looked ▸ Scopes.Extends.refl _
        · exact Scopes.Extends.refl _
      · exact perform_extends state id task task.script
    · rw [scopes_drop]
      exact Scopes.Extends.refl _
    · exact Scopes.Extends.refl _

theorem runCall_extends (state : State) (id : CallId) :
    state.scopes.Extends (state.runCall id).scopes := by
  rcases runCall_cases state id with same | ⟨call, found, aborted, ended⟩
  · rw [same]
    exact Scopes.Extends.refl _
  · obtain ⟨stop, turned⟩ := joins_runCall found aborted ended
    rw [turned.scopes]
    split
    · exact Scopes.Extends.refl _
    · exact Scopes.extends_cancel _ _

theorem apply_extends (state : State) (move : Move) :
    state.scopes.Extends (state.apply move).scopes := by
  have same := Scopes.Extends.refl state.scopes
  cases move with
  | addBackground => exact Scopes.extends_append _ _
  | derive parent deadline => exact Scopes.extends_derive _ _ _
  | cancel target =>
      simp only [apply, scopes_cancelScope]
      exact Scopes.extends_cancel _ _
  | openCall context steps =>
      have opened := opened_openCall state context steps
      exact opened.scopes ▸ Scopes.extends_derive _ _ _
  | abortCall id =>
      simp only [apply, abortCall]
      split
      · exact same
      · split
        · exact same
        · rw [scopes_foldl_doom]
          exact same
  | spawn scope script =>
      simp only [apply, spawn, scopes_wake]
      exact same
  | doom id =>
      simp only [apply]
      split
      · rw [scopes_doom]
        exact same
      · exact same
  | release id =>
      simp only [apply, release, giveSlot, setTask]
      repeat' split
      all_goals first
        | exact same
        | simp only [scopes_withLimiter]; exact same
  | turn worker =>
      simp only [apply]
      split
      · cases worker with
        | task id => exact runTask_extends { state with ready := state.ready.erase _ } id
        | call id => exact runCall_extends { state with ready := state.ready.erase _ } id
      · exact same
  | jump time =>
      simp only [apply, jump]
      split
      · rw [scopes_wakeAll]
        exact same
      · exact same

theorem play_extends (state : State) (moves : List Move) :
    state.scopes.Extends (state.play moves).scopes := by
  induction moves generalizing state with
  | nil => exact Scopes.Extends.refl _
  | cons move moves ih => exact (apply_extends state move).trans (ih (state.apply move))

end State

end OrderDesk.Schedule
