import Mathlib.Logic.Relation
import OrderDesk.Proofs.Scoping
import OrderDesk.Proofs.Slots

/-! The turn of a task, taken apart. Whatever a body does, its turn is a row of strokes, and there
are few kinds of them: it counts, it deals with the limiter, it begins or ceases to wait, it cancels
the scope that it works in, it leaves a note, it is stored, it tells its call. What every stroke
keeps, the turn keeps. For the table of scopes this says who can cancel what. -/

namespace OrderDesk.Schedule

namespace State

/-- One thing that the task `id`, known as `task` before its turn, does in the turn. -/
inductive Stroke (id : TaskId) (task : Task) (state : State) : State → Prop
  | count (running : Int) : Stroke id task state { state with running := running }
  | note (notes : List Note) : Stroke id task state { state with notes := notes }
  /-- Nobody but the task itself gets into the line, and who is woken was in it. -/
  | limit (change : Limiter × Option TaskId)
      (line : ∀ other ∈ change.1.line, other ∈ state.limiter.line ∨ other = id)
      (woken : ∀ other ∈ change.2, other ∈ state.limiter.line) :
      Stroke id task state (state.withLimiter change)
  | setTimer (due : Nat) : Stroke id task state (state.setTimer id due)
  | listen : Stroke id task state (state.listen id task.scope)
  | unlisten : Stroke id task state (state.unlisten id)
  | cancel (listed : .cancel ∈ task.script) : Stroke id task state (state.cancelScope task.scope)
  | setTask (next : Task) : Stroke id task state (state.setTask id next)
  | report (duty : Duty) (works : task.duty = some duty) :
      Stroke id task state (state.report id (some duty))

abbrev Strokes (id : TaskId) (task : Task) : State → State → Prop :=
  Relation.ReflTransGen (Stroke id task)

variable {id : TaskId} {task current : Task} {before state : State}

theorem stroke_giveSlot (state : State) : state.Stroke id task state.giveSlot :=
  .limit state.limiter.give (fun _ member => .inl (state.limiter.line_give ▸ member))
    fun _ granted => Limiter.mem_line_of_give granted

theorem stroke_leave (state : State) :
    state.Stroke id task (state.withLimiter (state.limiter.leave id)) := by
  refine .limit _ (fun other member => .inl ?_) fun _ granted => Limiter.mem_line_of_leave granted
  rw [Limiter.line_leave] at member
  exact List.mem_of_mem_erase member

theorem stroke_take (state : State) {limiter : Limiter}
    (taken : state.limiter.take? = some limiter) :
    state.Stroke id task { state with limiter := limiter } :=
  .limit (limiter, none) (fun _ member => .inl (Limiter.line_take? taken ▸ member)) (by simp)

theorem stroke_claim (state : State) (granted : state.limiter.granted.contains id = true) :
    state.Stroke id task { state with limiter := state.limiter.claim id } := by
  refine .limit (state.limiter.claim id, none) (fun other member => .inl ?_) (by simp)
  have line := Limiter.line_claim (List.contains_iff_mem.mp granted)
  exact List.mem_of_mem_erase (line ▸ member)

theorem stroke_enqueue (state : State) :
    state.Stroke id task { state with limiter := state.limiter.wait id } := by
  refine .limit (state.limiter.wait id, none) (fun other member => ?_) (by simp)
  have line : (state.limiter.wait id).line = state.limiter.line ++ [id] := by
    simp [Limiter.line, Limiter.wait]
  rcases List.mem_append.mp (line ▸ member) with old | new
  · exact .inl old
  · exact .inr (List.mem_singleton.mp new)

theorem strokes_giveSlots (state : State) (count : Nat) :
    Strokes id task state (state.giveSlots count) := by
  induction count generalizing state with
  | zero => exact .refl
  | succ count ih => exact .head (stroke_giveSlot state) (ih state.giveSlot)

theorem strokes_giveBack (state : State) (current : Task) :
    Strokes id task state (state.giveBack current) :=
  .head (.count (state.running - current.guards)) (strokes_giveSlots _ current.slots)

theorem strokes_finish (done : Strokes id task before state) (works : current.duty = task.duty)
    (ending : Ending) : Strokes id task before (state.finish id current ending) := by
  unfold finish
  split
  · exact done.tail (.setTask _)
  · rename_i duty own
    exact ((done.trans (strokes_giveBack state current)).tail (.setTask _)).tail
      (.report duty (works.symm.trans own))

theorem strokes_drop (state : State) (id : TaskId) (task : Task) :
    Strokes id task state (state.drop id task) := by
  have left : Strokes id task state
      ((state.unlisten id).withLimiter ((state.unlisten id).limiter.leave id)) :=
    (Relation.ReflTransGen.single .unlisten).tail (stroke_leave _)
  unfold drop
  split
  · exact left.tail (.setTask _)
  · exact (left.trans (strokes_giveBack _ task)).tail (.setTask _)

theorem strokes_attempt (done : Strokes id task before state) (scope : current.scope = task.scope)
    {action : Action} (listed : action ∈ task.script) :
    Strokes id task before (state.attempt id current action).reached := by
  have listening : state.Stroke id task (state.listen id current.scope) := scope ▸ .listen
  cases action <;> simp only [attempt, stopWith] <;> (repeat' split)
  all_goals simp only [Advance.reached]
  all_goals first
    | exact done
    | exact done.tail (.count _)
    | exact done.tail (.note _)
    | exact done.tail (.setTimer _)
    | exact done.tail listening
    | exact (done.tail listening).tail (.setTimer _)
    | exact done.tail (stroke_giveSlot state)
    | exact done.tail (stroke_take state ‹_›)
    | exact (done.tail listening).tail (stroke_enqueue _)
    | exact done.tail (scope ▸ .cancel listed)

theorem strokes_resume (state : State) (id : TaskId) (task : Task) (action : Action) :
    Strokes id task state (state.resume id task action).reached := by
  have quiet : Strokes id task state (state.unlisten id) := .single .unlisten
  cases action <;> simp only [resume, stopWith] <;> (repeat' split)
  all_goals simp only [Advance.reached]
  all_goals first
    | exact quiet
    | exact .refl
    | exact quiet.tail (stroke_leave _)
    | exact quiet.tail (stroke_claim (state.unlisten id) ‹_›)

theorem strokes_perform (done : Strokes id task before state) (scope : current.scope = task.scope)
    (works : current.duty = task.duty) {script : Script} (listed : script ⊆ task.script) :
    Strokes id task before (state.perform id current script) := by
  refine perform_keeps
    (fun state current script => Strokes id task before state ∧ current.scope = task.scope ∧
      current.duty = task.duty ∧ script ⊆ task.script)
    (Strokes id task before) ?_ ?_ state current script ⟨done, scope, works, listed⟩
  · rintro state current action rest ⟨done, scope, works, listed⟩
    have moved := attempt_moves state id current action
    have tried := strokes_attempt done scope (listed List.mem_cons_self)
    split <;> rename_i same <;> rw [same] at moved tried
    · exact ⟨tried, moved.2.scope.trans scope, moved.2.duty.trans works,
        fun _ member => listed (List.mem_cons_of_mem _ member)⟩
    · exact strokes_finish tried works _
    · exact tried.tail (.setTask _)
  · rintro state current ⟨done, _, works, _⟩
    exact strokes_finish done works _

/-- The turn of a task is a row of strokes. -/
theorem strokes_runTask (found : state.tasks[id]? = some task) :
    Strokes id task state (state.runTask id) := by
  simp only [runTask, found]
  split
  · split
    · rename_i action rest waits script
      have moved := resume_moves state id task action waits
      have looked := strokes_resume state id task action
      have listed : rest ⊆ task.script := by simp [script]
      split
      · rename_i same
        rw [same] at moved looked
        exact strokes_perform looked moved.2.scope moved.2.duty listed
      · rename_i same
        rw [same] at looked
        exact strokes_finish looked rfl _
      · exact .refl
    · exact strokes_perform .refl rfl rfl (List.Subset.refl _)
  · exact strokes_drop state id task
  · exact .refl

/-! ## Who can cancel what -/

theorem Stroke.scopes_eq {after : State} (stroke : before.Stroke id task after) :
    after.scopes = before.scopes ∨
      .cancel ∈ task.script ∧ after.scopes = before.scopes.cancel task.scope := by
  cases stroke with
  | limit change _ _ => exact .inl (scopes_withLimiter before change)
  | cancel listed => exact .inr ⟨listed, scopes_cancelScope before task.scope⟩
  | report duty _ => exact .inl (scopes_wake _ _)
  | count running => exact .inl rfl
  | note notes => exact .inl rfl
  | setTimer due => exact .inl rfl
  | listen => exact .inl rfl
  | unlisten => exact .inl rfl
  | setTask next => exact .inl rfl

theorem scopes_of_strokes (done : Strokes id task before state) :
    state.scopes = before.scopes ∨
      .cancel ∈ task.script ∧ state.scopes = before.scopes.cancel task.scope := by
  induction done with
  | refl => exact .inl rfl
  | tail _ stroke ih =>
      rcases stroke.scopes_eq with same | ⟨listed, canceled⟩
      · rw [same]
        exact ih
      · refine .inr ⟨listed, ?_⟩
        rcases ih with unmoved | ⟨_, once⟩
        · rw [canceled, unmoved]
        · rw [canceled, once, Scopes.cancel_cancel]

/-- Whether a move may cancel a scope: it says so, or it is the turn of a task that works in the
scope and is going to cancel it, or that of the call of the scope when it joins a failure. -/
def MayCancel (state : State) (target : ScopeId) : Move → Prop
  | .cancel scope => scope = target
  | .turn (.task id) => ∃ task, state.tasks[id]? = some task ∧ task.scope = target ∧
      .cancel ∈ task.script
  | .turn (.call id) => ∃ call, state.calls[id]? = some call ∧ call.scope = target ∧
      failures (state.entries call) ≠ []
  | _ => False

inductive Rescopes (state : State) (move : Move) (after : Scopes) : Prop
  | same (still : after = state.scopes)
  | background (turn : move = .addBackground) (added : after = state.scopes.addBackground)
  | derived (parent : ScopeId) (deadline : Option Nat)
      (turn : move = .derive parent deadline ∨ deadline = none ∧ ∃ steps, move = .openCall parent steps)
      (added : after = state.scopes.derive parent deadline)
  | canceled (target : ScopeId) (may : state.MayCancel target move)
      (marked : after = state.scopes.cancel target)

theorem rescopes_turn (state : State) (worker : Worker) :
    state.Rescopes (.turn worker) (state.apply (.turn worker)).scopes := by
  by_cases inLine : worker ∈ state.ready
  · let popped : State := { state with ready := state.ready.erase worker }
    have unfolded : state.apply (.turn worker) = popped.run worker := if_pos inLine
    rw [unfolded]
    cases worker with
    | task id =>
        cases found : state.tasks[id]? with
        | none => exact .same (by simp only [run, runTask, popped, found])
        | some task =>
            have present : popped.tasks[id]? = some task := found
            rcases scopes_of_strokes (strokes_runTask present) with same | ⟨listed, marked⟩
            · exact .same same
            · exact .canceled task.scope ⟨task, found, rfl, listed⟩ marked
    | call id =>
        rcases runCall_cases popped id with same | ⟨call, found, aborted, ended⟩
        · exact .same (by rw [run, same])
        · obtain ⟨stop, turned⟩ := joins_runCall found aborted ended
          by_cases failed : failures (popped.entries call) = []
          · exact .same (turned.scopes.trans (if_pos failed))
          · exact .canceled call.scope ⟨call, found, rfl, failed⟩ (turned.scopes.trans (if_neg failed))
  · exact .same (congrArg State.scopes (if_neg inLine))

theorem rescopes_apply (state : State) (move : Move) :
    state.Rescopes move (state.apply move).scopes := by
  cases move with
  | addBackground => exact .background rfl rfl
  | derive parent deadline => exact .derived parent deadline (.inl rfl) rfl
  | cancel target => exact .canceled target rfl (scopes_cancelScope state target)
  | openCall context steps =>
      exact .derived context none (.inr ⟨rfl, steps, rfl⟩) (opened_openCall state context steps).scopes
  | abortCall id =>
      refine .same ?_
      simp only [apply, abortCall]
      repeat' split
      · rfl
      · rfl
      · exact scopes_foldl_doom _ _
  | spawn scope script => exact .same (scopes_wake _ _)
  | doom id =>
      refine .same ?_
      simp only [apply]
      split
      · exact scopes_doom state id
      · rfl
  | release id =>
      refine .same ?_
      simp only [apply, release]
      repeat' split
      · rfl
      · rfl
      · exact scopes_withLimiter _ _
      · rfl
  | turn worker => exact rescopes_turn state worker
  | jump time =>
      refine .same ?_
      simp only [apply]
      split
      · exact scopes_jump state time
      · rfl

/-- What survives new scopes, and survives the canceling of what a move may cancel, survives the
move. -/
theorem scopes_apply_keeps (holds : Scopes → Prop) (state : State) (move : Move)
    (first : holds state.scopes) (grow : ∀ scope, holds (state.scopes ++ [scope]))
    (cancel : ∀ target, state.MayCancel target move → holds (state.scopes.cancel target)) :
    holds (state.apply move).scopes := by
  cases rescopes_apply state move with
  | same still => exact still ▸ first
  | background _ added => exact added ▸ grow _
  | derived parent deadline _ added =>
      rw [added, Scopes.derive]
      split <;> exact grow _
  | canceled target may marked => exact marked ▸ cancel target may

end State

end OrderDesk.Schedule
