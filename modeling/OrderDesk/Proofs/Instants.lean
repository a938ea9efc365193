import OrderDesk.Proofs.ContextWaits

/-! When things happen to a task: when its body is entered, and when it gets a slot. A slot counts
from the moment at which it is granted, so a task may get it in the turn of somebody else. -/

namespace OrderDesk.Schedule.State

variable {state : State} {id : TaskId} {task : Task} {total : Nat} {move : Move}

def timesOf (kind : State → Move → Bool) (state : State) : List Move → List Nat
  | [] => []
  | move :: moves =>
      (bif kind state move then [state.clock] else []) ++ timesOf kind (state.apply move) moves

def isEntrance (id : TaskId) (state : State) : Move → Bool
  | .turn (.task other) => other == id && !(state.begun (.turn (.task other))).isEmpty
  | _ => false

/-- The task holds a slot, or has been granted one and has not taken notice. -/
def hasSlot (state : State) (id : TaskId) : Bool :=
  state.limiter.granted.contains id || decide (0 < state.slotsOf id)

def isGrant (id : TaskId) (state : State) (move : Move) : Bool :=
  !state.hasSlot id && (state.apply move).hasSlot id

def Slotless (state : State) (id : TaskId) (moves : List Move) : Prop :=
  ∀ first rest, moves = first ++ rest → (state.play first).hasSlot id = false

theorem play_concat (state : State) (moves : List Move) (move : Move) :
    state.play (moves ++ [move]) = (state.play moves).apply move :=
  play_append state moves [move]

theorem timesOf_concat (kind : State → Move → Bool) (state : State) (moves : List Move)
    (move : Move) :
    state.timesOf kind (moves ++ [move]) = state.timesOf kind moves ++
      bif kind (state.play moves) move then [(state.play moves).clock] else [] := by
  induction moves generalizing state with
  | nil => simp [timesOf]
  | cons first rest ih => simp only [List.cons_append, timesOf, ih, play_cons, List.append_assoc]

theorem eq_turn_of_isEntrance (entered : isEntrance id state move = true) :
    move = .turn (.task id) := by
  unfold isEntrance at entered
  split at entered
  · simp only [Bool.and_eq_true, beq_iff_eq] at entered
    rw [entered.1]
  · cases entered

theorem isEntrance_iff {duty : Duty} (found : state.tasks[id]? = some task)
    (works : task.duty = some duty) :
    isEntrance id state (.turn (.task id)) = true ↔
      .task id ∈ state.ready ∧ task.isFresh = true := by
  by_cases enters : .task id ∈ state.ready ∧ task.isFresh = true
  · simp [isEntrance, begun, found, works, enters.1, enters.2]
  · simp only [isEntrance, begun, found, if_neg enters, beq_self_eq_true, Bool.true_and,
      List.isEmpty_nil, Bool.not_true, Bool.false_eq_true, false_iff]
    exact enters

/-! ## Slots -/

theorem hasSlot_of_unqueued (balanced : state.IsBalanced total)
    (found : state.tasks[id]? = some task) (unqueued : task.isQueued = false) :
    state.hasSlot id = decide (0 < task.slots) := by
  have ungranted : id ∉ state.limiter.granted := by
    intro granted
    obtain ⟨same, there, queued⟩ := Balanced.queued balanced id (List.mem_append_left _ granted)
    obtain rfl := Option.some.inj (found.symm.trans there)
    simp [queued] at unqueued
  simp [hasSlot, ungranted, slotsOf_of_found found]

theorem hasSlot_of_granted (granted : id ∈ state.limiter.granted) : state.hasSlot id = true := by
  simp [hasSlot, granted]

theorem hasSlot_of_nothing (found : state.tasks[id]? = some task) (nothing : task.slots = 0) :
    state.hasSlot id = state.limiter.granted.contains id := by
  simp [hasSlot, slotsOf_of_found found, nothing]

theorem isQueued_of_over (finished : task.life ≠ .live ∧ task.life ≠ .doomed) :
    task.isQueued = false := by
  by_contra queued
  rcases (shape_of_isQueued (Bool.not_eq_false _ ▸ queued)).1 with live | doomed
  · exact finished.1 live
  · exact finished.2 doomed

theorem Slotless.append {first rest : List Move} (before : state.Slotless id first)
    (after : (state.play first).Slotless id rest) : state.Slotless id (first ++ rest) := by
  intro early late split
  rcases List.append_eq_append_iff.mp split with ⟨middle, same, later⟩ | ⟨middle, same, _⟩
  · rw [same, play_append]
    exact after middle late later
  · exact before early middle same

theorem slotless_nil (free : state.hasSlot id = false) : state.Slotless id [] := by
  intro first rest split
  rw [(List.append_eq_nil_iff.mp split.symm).1]
  exact free

theorem Slotless.concat {moves : List Move} (before : state.Slotless id moves)
    (free : (state.play (moves ++ [move])).hasSlot id = false) :
    state.Slotless id (moves ++ [move]) := by
  intro first rest split
  rcases List.eq_nil_or_concat rest with rfl | ⟨rest, last, rfl⟩
  · rw [List.append_nil] at split
    exact split ▸ free
  · rw [List.concat_eq_append, ← List.append_assoc] at split
    exact before first rest (List.append_inj' split rfl).1

theorem slotless_of_over (wired : state.Wired) (balanced : state.IsBalanced total)
    (found : state.tasks[id]? = some task) (finished : task.life ≠ .live ∧ task.life ≠ .doomed)
    (nothing : task.slots = 0) (moves : List Move) : state.Slotless id moves := by
  intro first rest _
  obtain ⟨fewer, outside⟩ := slotsOf_play_le_of_over wired balanced found finished first
  have ungranted : id ∉ (state.play first).limiter.granted :=
    fun granted => outside (List.mem_append_left _ granted)
  have none_held : (state.play first).slotsOf id = 0 := by omega
  simp [hasSlot, ungranted, none_held]

/-- The clock stands still when a slot is granted, and as long as the task has not taken notice. -/
theorem clock_of_granted (tended : state.Tended none)
    (granted : id ∈ (state.apply move).limiter.granted) :
    (state.apply move).clock = state.clock := by
  rcases clock_apply state move with same | ⟨time, rfl, possible, _⟩
  · exact same
  · have before : id ∈ state.limiter.granted := by
      simpa [State.apply, possible, jump] using granted
    have inLine := tended.told id before (by simp)
    rw [apply_jump_of_ready inLine]

theorem found_apply_of_over {duty : Duty} (wired : state.Wired)
    (found : state.tasks[id]? = some task) (works : task.duty = some duty)
    (stopped : task.isOver = true) (move : Move) : (state.apply move).tasks[id]? = some task := by
  by_cases own : move = .turn (.task id)
  · subst own
    simp only [State.apply]
    split
    · let popped : State := { state with ready := state.ready.erase (.task id) }
      have present : popped.tasks[id]? = some task := found
      rw [run, runTask_of_isOver present stopped]
      exact present
    · exact found
  · rcases found_apply_foreign wired found own fun loose => by simp [works] at loose with
      same | ⟨⟨live, _⟩, _⟩
    · exact same
    · simp [Task.isOver, live] at stopped

theorem found_play_of_over {duty : Duty} (wired : state.Wired)
    (found : state.tasks[id]? = some task) (works : task.duty = some duty)
    (stopped : task.isOver = true) (moves : List Move) :
    (state.play moves).tasks[id]? = some task := by
  induction moves generalizing state with
  | nil => exact found
  | cons move moves ih =>
      exact ih (wired.apply move) (found_apply_of_over wired found works stopped move)

end OrderDesk.Schedule.State
