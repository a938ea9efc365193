import OrderDesk.Schedule.Work

/-! The passing of time. As long as a worker is in line the clock stands still and the first in
line runs. Then the clock jumps to the earliest timer, and all timers of that time wake their
tasks in the order in which they were set. Settling repeats this until nothing is left to do, and
it comes to an end: every time either the work falls, or it stays and a timer has fired, or both
stay and the line has become shorter. -/

namespace OrderDesk.Schedule.State

def nextDue (state : State) : Option Nat :=
  state.timers.foldl (fun least timer => earlier least (some timer.due)) none

def jump (state : State) (time : Nat) : State :=
  let due := state.timers.filter fun timer => timer.due ≤ time
  { state with
    clock := max state.clock time
    timers := state.timers.filter fun timer => !(timer.due ≤ time) }.wakeAll (due.map Timer.task)

/-- The next thing that happens up to the time `limit`, or ever if there is no limit. -/
def tick (limit : Option Nat) (state : State) : Option State :=
  match state.ready with
  | worker :: rest => some ({ state with ready := rest }.run worker)
  | [] =>
      match state.nextDue with
      | none => none
      | some due => if limit.all fun limit => due ≤ limit then some (state.jump due) else none

/-! ## Settling ends -/

theorem exists_timer_of_foldl (timers : List Timer) (start : Option Nat) (due : Nat)
    (least : timers.foldl (fun least timer => earlier least (some timer.due)) start = some due) :
    start = some due ∨ ∃ timer ∈ timers, timer.due = due := by
  induction timers generalizing start with
  | nil => exact Or.inl least
  | cons timer timers ih =>
      rcases ih _ least with first | ⟨later, member, same⟩
      · cases start with
        | none =>
            simp only [earlier, Option.some.injEq] at first
            exact Or.inr ⟨timer, by simp, first⟩
        | some time =>
            simp only [earlier, Option.some.injEq] at first
            by_cases before : time ≤ timer.due
            · exact Or.inl (by rw [← first, Nat.min_eq_left before])
            · exact Or.inr ⟨timer, by simp, by omega⟩
      · exact Or.inr ⟨later, List.mem_cons_of_mem _ member, same⟩

theorem exists_timer_of_nextDue (state : State) (due : Nat) (next : state.nextDue = some due) :
    ∃ timer ∈ state.timers, timer.due = due := by
  rcases exists_timer_of_foldl state.timers none due next with absurd | found
  · cases absurd
  · exact found

theorem work_jump (state : State) (time : Nat) : (state.jump time).work = state.work :=
  work_congr (by simp [jump]) (by simp [jump])

theorem length_timers_jump_lt (state : State) (due : Nat) (next : state.nextDue = some due) :
    (state.jump due).timers.length < state.timers.length := by
  obtain ⟨timer, member, same⟩ := exists_timer_of_nextDue state due next
  simp only [jump, timers_wakeAll]
  refine List.length_filter_lt_length_iff_exists.mpr ⟨timer, member, ?_⟩
  simp [same]

/-- What every step of settling makes smaller: the work, then the timers, then the line. -/
def pending (state : State) : Nat × Nat × Nat :=
  (state.work, state.timers.length, state.ready.length)

def Less : Nat × Nat × Nat → Nat × Nat × Nat → Prop :=
  Prod.Lex (· < ·) (Prod.Lex (· < ·) (· < ·))

theorem less_of_proceeds (before after : State) (worker : Worker) (rest : List Worker)
    (line : before.ready = worker :: rest)
    (proceeds : { before with ready := rest }.Proceeds after) :
    Less after.pending before.pending := by
  rcases proceeds with falls | ⟨work, timers, ready⟩
  · exact Prod.Lex.left _ _ falls
  · have same : after.pending = (before.work, before.timers.length, rest.length) := by
      simp only [pending, timers, ready, Prod.mk.injEq, and_true]
      exact work
    rw [same]
    refine Prod.Lex.right _ (Prod.Lex.right _ ?_)
    simp [line]

theorem less_of_tick {limit : Option Nat} {before after : State}
    (ticked : before.tick limit = some after) : Less after.pending before.pending := by
  unfold tick at ticked
  split at ticked
  · rename_i worker rest line
    obtain rfl := Option.some.inj ticked
    exact less_of_proceeds before _ worker rest line (proceeds_run _ worker)
  · split at ticked
    · cases ticked
    · rename_i due next
      split at ticked
      · obtain rfl := Option.some.inj ticked
        have same : (before.jump due).pending =
            (before.work, (before.jump due).timers.length, (before.jump due).ready.length) := by
          simp only [pending, work_jump]
        rw [same]
        exact Prod.Lex.right _ (Prod.Lex.left _ _ (length_timers_jump_lt before due next))
      · cases ticked

/-- Lets everything happen that can happen up to the time `limit`, or ever if there is no
limit. -/
def settle (limit : Option Nat) (state : State) : State :=
  match _ticked : state.tick limit with
  | none => state
  | some next => settle limit next
termination_by state.pending
decreasing_by exact less_of_tick _ticked

theorem settle_of_tick_eq_none {limit : Option Nat} {state : State}
    (still : state.tick limit = none) : state.settle limit = state := by
  rw [settle]
  split
  · rfl
  · rename_i ticked
    rw [still] at ticked
    cases ticked

theorem settle_of_tick_eq_some {limit : Option Nat} {state next : State}
    (ticked : state.tick limit = some next) : state.settle limit = next.settle limit := by
  rw [settle]
  split
  · rename_i still
    rw [ticked] at still
    cases still
  · rename_i other found
    rw [ticked] at found
    rw [Option.some.inj found]

theorem tick_settle (limit : Option Nat) (state : State) :
    (state.settle limit).tick limit = none := by
  fun_induction settle limit state with
  | case1 state still => exact still
  | case2 state next ticked ih => exact ih

theorem settle_keeps (holds : State → Prop) (limit : Option Nat) (state : State)
    (first : holds state)
    (step : ∀ before after, holds before → before.tick limit = some after → holds after) :
    holds (state.settle limit) := by
  fun_induction settle limit state with
  | case1 state still => exact first
  | case2 state next ticked ih => exact ih (step state next first ticked)

/-- Lets everything happen up to a time, and moves the clock there. -/
def advanceTo (time : Nat) (state : State) : State :=
  let state := state.settle (some time)
  { state with clock := max state.clock time }

def settleNow (state : State) : State :=
  state.settle (some state.clock)

end OrderDesk.Schedule.State
