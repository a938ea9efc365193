import OrderDesk.Proofs.IdleDesks

/-! Time that passes in ticks. A state in which nothing is left to do for now gets to a later time by
one tick after another, each followed by whatever is due then. And whatever settles at all has settled
by some time. -/

namespace OrderDesk.Schedule.State

variable {state : State} {time : Nat}

/-- Settling up to a time can be broken off before. -/
theorem settle_settle {limit : Nat} (order : limit ≤ time) (state : State) :
    (state.settle (some limit)).settle (some time) = state.settle (some time) := by
  fun_induction settle (some limit) state with
  | case1 state still => rfl
  | case2 state next ticked ih =>
      have later : state.tick (some time) = some next := by
        unfold tick at ticked ⊢
        split at ticked
        · exact ticked
        · split at ticked
          · cases ticked
          · rename_i due _
            simp only [Option.all_some, decide_eq_true_eq] at ticked ⊢
            split at ticked
            · rename_i within
              rw [if_pos (Nat.le_trans within order)]
              exact ticked
            · cases ticked
      rw [ih, settle_of_tick_eq_some later]

theorem clock_le_settle (limit : Option Nat) (state : State) :
    state.clock ≤ (state.settle limit).clock := by
  refine settle_keeps (fun now => state.clock ≤ now.clock) limit state (Nat.le_refl _) ?_
  intro before after earlier ticked
  refine Nat.le_trans earlier ?_
  rcases move_of_tick ticked with ⟨worker, _, rfl⟩ | ⟨due, _, rfl⟩
  · exact clock_le_apply before _
  · exact clock_le_apply before _

theorem settle_none_eq (past : (state.settle none).clock ≤ time) :
    state.settle none = state.settle (some time) := by
  fun_induction settle none state with
  | case1 state still =>
      refine (settle_of_tick_eq_none ?_).symm
      unfold tick at still ⊢
      split at still
      · cases still
      · split at still
        · rfl
        · simp at still
  | case2 state next ticked ih =>
      have reached := Nat.le_trans (clock_le_settle none next) past
      have later : state.tick (some time) = some next := by
        unfold tick at ticked ⊢
        split at ticked
        · exact ticked
        · split at ticked
          · cases ticked
          · rename_i due _
            simp only [Option.all_none, if_true, Option.some.injEq] at ticked
            subst ticked
            rw [clock_jump] at reached
            have within : due ≤ time := by omega
            simp [within]
      rw [ih past, settle_of_tick_eq_some later]

/-! ## Waiting -/

theorem tick_of_early (quiet : state.ready = []) {limit : Nat}
    (early : ∀ due, state.nextDue = some due → limit < due) : state.tick (some limit) = none := by
  unfold tick
  rw [quiet]
  cases next : state.nextDue with
  | none => rfl
  | some due =>
      simp only [Option.all_some, decide_eq_true_eq]
      rw [if_neg (Nat.not_le.mpr (early due next))]

theorem exists_nextDue {timer : Timer} (member : timer ∈ state.timers) :
    ∃ due, state.nextDue = some due := by
  obtain ⟨first, rest, timers⟩ := List.exists_cons_of_ne_nil (List.ne_nil_of_mem member)
  have found := isSome_foldl_earlier rest first.due
  rw [nextDue, timers]
  exact Option.isSome_iff_exists.mp found

theorem lt_nextDue {limit due : Nat} (later : ∀ timer ∈ state.timers, limit < timer.due)
    (next : state.nextDue = some due) : limit < due := by
  obtain ⟨timer, member, rfl⟩ := exists_timer_of_nextDue state due next
  exact later timer member

theorem tick_of_due (quiet : state.ready = []) {due limit : Nat} (next : state.nextDue = some due)
    (within : due ≤ limit) : state.tick (some limit) = some (state.jump due) := by
  unfold tick
  rw [quiet]
  simp only [next, Option.all_some, decide_eq_true_eq]
  rw [if_pos within]

theorem advanceTo_wait {now : Nat} (quiet : state.ready = [])
    (later : ∀ timer ∈ state.timers, now < timer.due) (before : state.clock ≤ now)
    (order : now ≤ time) :
    { state with clock := now }.advanceTo time = state.advanceTo time := by
  let waited : State := { state with clock := now }
  have nobody : waited.ready = [] := quiet
  simp only [advanceTo]
  by_cases due : ∃ due, state.nextDue = some due ∧ due ≤ time
  · obtain ⟨due, next, within⟩ := due
    have beyond := lt_nextDue later next
    have same : waited.jump due = state.jump due := by
      have clocks : max now due = max state.clock due := by omega
      simp only [jump, waited, clocks]
    have next' : waited.nextDue = some due := next
    rw [settle_of_tick_eq_some (tick_of_due quiet next within), ← same,
      ← settle_of_tick_eq_some (tick_of_due nobody next' within)]
  · have early : ∀ due, state.nextDue = some due → time < due :=
      fun other next => Nat.lt_of_not_le fun within => due ⟨other, next, within⟩
    have early' : ∀ due, waited.nextDue = some due → time < due := early
    have clocks : max now time = max state.clock time := by omega
    rw [settle_of_tick_eq_none (tick_of_early quiet early),
      settle_of_tick_eq_none (tick_of_early nobody early'), ← clocks]

theorem advanceTo_of_le (quiet : state.ready = [])
    (later : ∀ timer ∈ state.timers, state.clock < timer.due) (past : time ≤ state.clock) :
    state.advanceTo time = state := by
  have early : ∀ due, state.nextDue = some due → time < due :=
    fun due next => Nat.lt_of_le_of_lt past (lt_nextDue later next)
  rw [advanceTo, settle_of_tick_eq_none (tick_of_early quiet early), Nat.max_eq_left past]

theorem jump_of_later {now : Nat} (later : ∀ timer ∈ state.timers, now < timer.due)
    (before : state.clock ≤ now) : state.jump now = { state with clock := now } := by
  have none_due : (state.timers.filter fun timer => timer.due ≤ now) = [] := by
    refine List.filter_eq_nil_iff.mpr fun timer member => ?_
    have beyond := later timer member
    simpa using beyond
  have all_stay : (state.timers.filter fun timer => !(timer.due ≤ now)) = state.timers := by
    refine List.filter_eq_self.mpr fun timer member => ?_
    have beyond := later timer member
    simpa using beyond
  simp only [jump, none_due, all_stay, List.map_nil, wakeAll, List.foldl_nil,
    Nat.max_eq_right before]

theorem advanceTo_tick (quiet : state.ready = [])
    (later : ∀ timer ∈ state.timers, state.clock < timer.due) (order : state.clock < time) :
    ((state.jump (state.clock + 1)).settleNow).advanceTo time = state.advanceTo time := by
  have clock : (state.jump (state.clock + 1)).clock = state.clock + 1 := by
    rw [clock_jump]
    omega
  have settled : ((state.jump (state.clock + 1)).settleNow).advanceTo time =
      (state.jump (state.clock + 1)).advanceTo time := by
    simp only [advanceTo, settleNow]
    rw [settle_settle (clock.trans_le order)]
  rw [settled]
  by_cases next : state.nextDue = some (state.clock + 1)
  · simp only [advanceTo]
    rw [settle_of_tick_eq_some (tick_of_due quiet next order)]
  · have far : ∀ timer ∈ state.timers, state.clock + 1 < timer.due := by
      intro timer member
      have first := later timer member
      obtain ⟨due, least⟩ := exists_nextDue member
      have earliest := nextDue_le state due least timer member
      have ahead := lt_nextDue later least
      have apart : due ≠ state.clock + 1 := fun same => next (same ▸ least)
      omega
    rw [jump_of_later far (Nat.le_succ _)]
    exact advanceTo_wait quiet far (Nat.le_succ _) order

theorem calls_advanceTo (past : (state.settle none).clock ≤ time) :
    (state.advanceTo time).calls = (state.settle none).calls := by
  rw [settle_none_eq past]
  rfl

end OrderDesk.Schedule.State
