import OrderDesk.Proofs.Counterparts

/-! Of two desks that are given the same, the one with more couriers stays ahead. After every round each
of its tasks is at least as far as its counterpart, and what is over there was over no later. The
couriers are the point: if one were still in line at the ample desk while its counterpart is busy, then
all who are busy at the ample desk are older and just as busy at the scarce one, which so has one more
busy courier than the ample desk has couriers. -/

namespace OrderDesk

open Schedule

theorem sumOf_le_sumOf {α : Type} (weight : α → Nat) {fewer more : List α}
    (size : fewer.length = more.length)
    (less : ∀ (index : Nat) (item item' : α), fewer[index]? = some item → more[index]? = some item' →
      weight item ≤ weight item') : sumOf weight fewer ≤ sumOf weight more := by
  induction fewer generalizing more with
  | nil => exact Nat.zero_le _
  | cons item fewer ih =>
      cases more with
      | nil => cases size
      | cons item' more =>
          have first := less 0 item item' rfl rfl
          have rest := ih (Nat.succ.inj size) fun index => less (index + 1)
          simp only [sumOf]
          omega

theorem sumOf_lt_sumOf {α : Type} (weight : α → Nat) {fewer more : List α} {place : Nat}
    {least most : α} (size : fewer.length = more.length)
    (less : ∀ (index : Nat) (item item' : α), fewer[index]? = some item → more[index]? = some item' →
      weight item ≤ weight item')
    (here : fewer[place]? = some least) (there : more[place]? = some most)
    (strict : weight least < weight most) : sumOf weight fewer < sumOf weight more := by
  induction fewer generalizing more place with
  | nil => cases here
  | cons item fewer ih =>
      cases more with
      | nil => cases size
      | cons item' more =>
          have first := less 0 item item' rfl rfl
          have later : ∀ (index : Nat) (item item' : α), fewer[index]? = some item →
              more[index]? = some item' → weight item ≤ weight item' :=
            fun index => less (index + 1)
          have size' := Nat.succ.inj size
          simp only [sumOf]
          cases place with
          | zero =>
              obtain rfl := Option.some.inj here
              obtain rfl := Option.some.inj there
              have rest := sumOf_le_sumOf weight size' later
              omega
          | succ place =>
              have rest := ih size' later here there
              omega

namespace Desk

namespace Pair

variable {few many : Lap} {seat : Nat} {next next' : Task} {leg : Leg} {call call' : Call}
  {finish : Finish}

theorem over_of_due (pair : Pair few many seat next next' leg call call') (both : SideBySide few many)
    {due : Nat} (busy : few.before.stageOf (3 * few.base + seat) = .busy due)
    (passed : due ≤ few.after.clock) : ∃ finish, next'.stage = .finished finish := by
  have ahead := both.outpaces.ahead seat
  have leads := pair.passes'.leads
  rw [busy] at ahead
  rcases ahead.busy with ⟨finish, stage⟩ | ⟨due', earlier, stage⟩
  · rw [stage] at leads
    exact ⟨finish, leads⟩
  · rw [stage] at leads
    rcases leads with still | ⟨_, finished⟩ | finished
    · rcases stage_cases both.quiet' pair.found' pair.passes'.works with
        ⟨queued, _⟩ | ⟨due'', busy', later, _⟩ | ⟨finish, finished, _⟩
      · simp [still] at queued
      · obtain rfl := Stage.busy.inj (still.symm.trans busy')
        have clock := both.clock
        exact absurd later (Nat.not_lt.mpr (Nat.le_trans earlier (Nat.le_trans passed clock.ge)))
      · simp [still] at finished
    · exact ⟨_, finished⟩
    · exact ⟨_, finished⟩

theorem over_of_over (pair : Pair few many seat next next' leg call call') (both : SideBySide few many)
    (finished : few.before.stageOf (3 * few.base + seat) = .finished finish) :
    ∃ finish, next'.stage = .finished finish := by
  have ahead := both.outpaces.ahead seat
  have leads := pair.passes'.leads
  rw [finished] at ahead
  obtain ⟨finish, stage⟩ := ahead.finished
  rw [stage] at leads
  exact ⟨finish, leads⟩

theorem over_cases (pair : Pair few many seat next next' leg call call')
    (finished : next.stage = .finished finish) :
    few.before.stageOf (3 * few.base + seat) = .finished finish ∨
      (∃ due, few.before.stageOf (3 * few.base + seat) = .busy due ∧ due ≤ few.after.clock ∧
        ¬ call.started + few.settings.requestTimeout ≤ few.after.clock) ∨
      finish = .stopped :=
  (finished ▸ pair.passes.leads).over_cases

/-- What is over at the scarce desk without having been stopped is over at the ample one. -/
theorem over_of_own (pair : Pair few many seat next next' leg call call') (both : SideBySide few many)
    (finished : next.stage = .finished finish) (own : finish ≠ .stopped) :
    ∃ finish, next'.stage = .finished finish := by
  rcases pair.over_cases finished with before | ⟨due, busy, passed, _⟩ | stopped
  · exact pair.over_of_over both before
  · exact pair.over_of_due both busy passed
  · exact absurd stopped own

theorem over_of_urgent (pair : Pair few many seat next next' leg call call')
    (both : SideBySide few many)
    (urgent : call'.aborted = false → call'.ended.isSome = true) :
    ∃ finish, next'.stage = .finished finish := by
  obtain ⟨order, charge⟩ := exists_charge many.settings _ pair.known'
  refine charge.over_of_done both.quiet' ?_ pair.part'
  cases aborted : call'.aborted with
  | true => exact .inl rfl
  | false => exact .inr (urgent aborted)

theorem over_of_late (pair : Pair few many seat next next' leg call call') (both : SideBySide few many)
    (late : call.started + few.settings.requestTimeout ≤ few.after.clock) :
    ∃ finish, next'.stage = .finished finish := by
  refine pair.over_of_urgent both fun going => ?_
  obtain ⟨order, charge⟩ := exists_charge many.settings _ pair.known'
  refine charge.ended_of_urgent both.quiet' going (charge.urgent_of_late ?_)
  rw [pair.started, both.timeout]
  exact both.clock ▸ late

theorem over_of_failed (pair : Pair few many seat next next' leg call call')
    (both : SideBySide few many) {other : TaskId} {failed : Task}
    (part : IsPart few.after (few.base + seat / 3) other failed)
    (stage : failed.stage = .finished .failed) : ∃ finish, next'.stage = .finished finish := by
  refine pair.over_of_urgent both fun going => ?_
  obtain ⟨seat', failed', leg', _, again, near, pair'⟩ := both.exists_pair_of_part part
  have known' := pair'.known'
  have part' := pair'.part'
  rw [near] at known' part'
  obtain rfl : call' = again := Option.some.inj (pair.known'.symm.trans known')
  obtain ⟨finish, finished⟩ := pair'.over_of_own both stage (by decide)
  have bad : finish ≠ .served := by
    rcases finish_of_over both.quiet pair'.found pair'.passes.works stage with other | own
    · cases other
    · rcases finish_of_over both.quiet' pair'.found' pair'.passes'.works finished with rfl | rfl
      · decide
      · rw [← own]
        decide
  obtain ⟨order, charge⟩ := exists_charge many.settings _ pair.known'
  exact charge.ended_of_bad both.quiet' going part' finished bad

theorem over_of_given (pair : Pair few many seat next next' leg call call')
    (both : SideBySide few many) (given : few.event = .drop (few.base + seat / 3))
    {old : Call} (there : few.before.calls[few.base + seat / 3]? = some old) :
    ∃ finish, next'.stage = .finished finish := by
  have given' := both.same.drop_iff.mp given
  obtain ⟨old', there'⟩ := both.outpaces.exists_call there
  have known' := pair.known'
  rw [Lap.after, given'] at known'
  obtain ⟨order, charge⟩ := exists_charge many.settings _ pair.known'
  exact charge.over_of_done both.quiet' (done_of_drop there' known') pair.part'

theorem finished (pair : Pair few many seat next next' leg call call') (both : SideBySide few many)
    (finished : next.stage = .finished finish) : ∃ finish, next'.stage = .finished finish := by
  by_cases before : ∃ finish, few.before.stageOf (3 * few.base + seat) = .finished finish
  · obtain ⟨finish, before⟩ := before
    exact pair.over_of_over both before
  obtain ⟨order, charge⟩ := exists_charge few.settings _ pair.known
  rcases pair.over_cases finished with already | ⟨due, busy, passed, _⟩ | rfl
  · exact absurd ⟨finish, already⟩ before
  · exact pair.over_of_due both busy passed
  · cases aborted : call.aborted with
    | false =>
        rcases charge.reason_of_bad both.quiet aborted pair.part finished (by decide) with
          late | ⟨other, failed, part, stage⟩
        · exact pair.over_of_late both late
        · exact pair.over_of_failed both part stage
    | true =>
        rcases exists_call_before pair.known with
          ⟨old, there, _, _, given⟩ | ⟨_, going, _⟩
        · rcases given aborted with already | ⟨drop, unended⟩
          · exact absurd (Lap.over_of_done both.outpaces.scarce.quiet there (.inl already)) before
          · exact pair.over_of_given both drop there
        · rw [aborted] at going
          cases going

/-- While somebody is in line at the ample desk whose counterpart is busy, whoever has a courier at the
ample desk has one at the scarce desk. -/
theorem slots_le {other : Nat} {task task' : Task} {leg' : Leg} {record record' : Call}
    (both : SideBySide few many) (pair : Pair few many other task task' leg' record record')
    (held : 0 < few.after.slotsOf (3 * few.base + seat))
    (older : 0 < many.after.slotsOf (3 * many.base + other) → other < seat) :
    task'.slots ≤ task.slots := by
  rcases Nat.eq_zero_or_pos task'.slots with none_held | holds
  · exact none_held ▸ Nat.zero_le _
  · obtain ⟨one, courier, due, busy⟩ := busy_of_slots both.quiet' pair.found' pair.passes'.works holds
    have first : other < seat := older (by rwa [State.slotsOf_of_found pair.found'])
    have courier' : Duty.isCourier ⟨(3 * few.base + other) / 3, (3 * few.base + other) % 3⟩ = true := by
      rw [seat_mod] at courier ⊢
      exact courier
    rcases stage_cases both.quiet pair.found pair.passes.works with
      ⟨queued, _⟩ | ⟨due', busy', _⟩ | ⟨finish, finished, _⟩
    · -- At the scarce desk nobody is in line while somebody younger is busy.
      have ranked := (both.outpaces.scarce.round both.same.isOutside.1 both.quiet).ranked
      have behind : 3 * few.base + seat < 3 * few.base + other :=
        (older_of_queued both.quiet ranked pair.found pair.passes.works queued).2 _ held
      omega
    · rw [one, slots_of_busy pair.found pair.passes.works courier' busy']
    · obtain ⟨finish', finished'⟩ := pair.finished both finished
      rw [busy] at finished'
      cases finished'

/-- Nobody waits for a courier at the ample desk whose counterpart is busy. -/
theorem not_queued (pair : Pair few many seat next next' leg call call') (both : SideBySide few many)
    {due : Nat} (busy : next.stage = .busy due) : next'.stage ≠ .queued := by
  intro queued
  have ranked := (both.outpaces.ample.round both.same.isOutside.2 both.quiet').ranked
  obtain ⟨full, older⟩ := older_of_queued both.quiet' ranked pair.found' pair.passes'.works queued
  have courier : Duty.isCourier ⟨(3 * few.base + seat) / 3, (3 * few.base + seat) % 3⟩ = true := by
    rcases stage_cases both.quiet' pair.found' pair.passes'.works with
      ⟨_, courier⟩ | ⟨due, busy, _⟩ | ⟨finish, finished, _⟩
    · rw [seat_mod] at courier ⊢
      exact courier
    · simp [queued] at busy
    · simp [queued] at finished
  have own : next.slots = 1 := slots_of_busy pair.found pair.passes.works courier busy
  have own' : next'.slots = 0 := by
    by_contra some_slot
    obtain ⟨_, _, due, busy⟩ :=
      busy_of_slots both.quiet' pair.found' pair.passes'.works (Nat.pos_of_ne_zero some_slot)
    simp [queued] at busy
  have held : 0 < few.after.slotsOf (3 * few.base + seat) := by
    rw [State.slotsOf_of_found pair.found, own]
    exact Nat.one_pos
  -- Everybody else with a courier at the ample desk has one at the scarce desk, too.
  have fewer : sumOf Task.slots (many.after.tasks.drop (3 * many.base)) <
      sumOf Task.slots (few.after.tasks.drop (3 * few.base)) := by
    refine sumOf_lt_sumOf Task.slots both.size_eq ?_ (List.getElem?_drop.trans pair.found')
      (List.getElem?_drop.trans pair.found) (by omega)
    intro other task' task found' found
    rw [List.getElem?_drop] at found found'
    have bound := (List.getElem?_eq_some_iff.mp found).1
    rw [few.length_tasks] at bound
    obtain ⟨again, again', _, _, _, others⟩ :=
      both.exists_pair (show other < 3 * (few.orders.length - few.base) by omega)
    obtain rfl := Option.some.inj (found.symm.trans others.found)
    obtain rfl := Option.some.inj (found'.symm.trans others.found')
    refine slots_le both others held fun holds => ?_
    have first : 3 * many.base + other < 3 * many.base + seat := older _ holds
    omega
  have whole (lap : Lap) : sumOf Task.slots lap.after.tasks =
      sumOf Task.slots (lap.after.tasks.take (3 * lap.base)) +
        sumOf Task.slots (lap.after.tasks.drop (3 * lap.base)) := by
    rw [← sumOf_append, List.take_append_drop]
  have enough : few.after.limiter.unheld + sumOf Task.slots few.after.tasks =
      Limiter.clamp few.settings.couriers := Balanced.slots (balanced_run few.settings _)
  have taken : sumOf Task.slots many.after.tasks = Limiter.clamp many.settings.couriers := full
  -- But the ample desk has lent out all its couriers, and the scarce one has no more of them.
  have all := whole few
  have all' := whole many
  have rested := both.sumOf_rested
  have capacity := both.fewer
  omega

theorem due_le (pair : Pair few many seat next next' leg call call') (both : SideBySide few many)
    {due due' : Nat} (busy : next.stage = .busy due) (busy' : next'.stage = .busy due')
    (soon' : due' ≤ many.after.clock + leg.millis) : due' ≤ due := by
  have clock := both.clock
  have ahead := both.outpaces.ahead seat
  have leads := pair.passes.leads
  have leads' := pair.passes'.leads
  rw [busy] at leads
  rw [busy'] at leads'
  rcases leads.busy_cases with before | ⟨begins, _⟩
  · rw [before] at ahead
    rcases leads'.busy_cases with before' | ⟨_, fresh | queued⟩
    · rw [before'] at ahead
      exact ahead
    · rw [fresh] at ahead
      exact ahead.elim
    · rw [queued] at ahead
      exact ahead.elim
  · -- The counterpart begins only now, and nobody begins later than that.
    exact begins ▸ clock ▸ soon'

theorem reaches (pair : Pair few many seat next next' leg call call') (both : SideBySide few many) :
    next'.stage.Reaches next.stage := by
  rcases stage_cases both.quiet' pair.found' pair.passes'.works with
    ⟨queued', _⟩ | ⟨due', busy', later', soon'⟩ | ⟨finish', finished', _⟩
  · rcases stage_cases both.quiet pair.found pair.passes.works with
      ⟨queued, _⟩ | ⟨due, busy, _⟩ | ⟨finish, finished, _⟩
    · rw [queued, queued']
      trivial
    · exact absurd queued' (pair.not_queued both busy)
    · obtain ⟨finish, finished'⟩ := pair.finished both finished
      simp [queued'] at finished'
  · rcases stage_cases both.quiet pair.found pair.passes.works with
      ⟨queued, _⟩ | ⟨due, busy, _⟩ | ⟨finish, finished, _⟩
    · rw [queued, busy']
      trivial
    · rw [busy, busy']
      exact pair.due_le both busy busy' soon'
    · obtain ⟨finish, finished'⟩ := pair.finished both finished
      simp [busy'] at finished'
  · rw [finished']
    trivial

theorem sooner (pair : Pair few many seat next next' leg call call') (both : SideBySide few many)
    {time time' : Nat} {ending ending' : Ending} (life : next.life = .ended time ending)
    (life' : next'.life = .ended time' ending') : time' ≤ time := by
  rcases pair.passes.timed time ending life with ⟨task, present, ended⟩ | now
  · have ahead := both.outpaces.ahead seat
    rw [State.stageOf_of_found present, State.stage_of_ended ended] at ahead
    obtain ⟨finish, stage⟩ := ahead.finished
    obtain ⟨task', present', finished⟩ := State.exists_of_stageOf stage
    obtain ⟨again, there, same⟩ := exists_over many.settings many.event many.workers present'
      (Task.isOver_iff.mpr ⟨finish, finished⟩)
    obtain rfl := Option.some.inj (pair.found'.symm.trans there)
    exact both.outpaces.sooner seat task task' time time' ending ending' present present' ended
      (same.symm.trans life')
  · obtain ⟨order, charge⟩ := exists_charge many.settings _ pair.known'
    have past : time' ≤ many.after.clock := charge.past_of_ended pair.part' life'
    have clock := both.clock
    rw [now]
    exact Nat.le_trans past (Nat.le_of_eq clock)

end Pair

theorem IsSpoilt.after {lap : Lap} {number : Nat} (spoilt : IsSpoilt lap.before lap.base number) :
    IsSpoilt lap.after lap.base number := by
  obtain ⟨seat, finish, own, finished, bad⟩ := spoilt
  obtain ⟨task, present, finished⟩ := State.exists_of_stageOf finished
  have stopped := Task.isOver_iff.mpr ⟨finish, finished⟩
  obtain ⟨next, found, life⟩ := exists_over lap.settings lap.event lap.workers present stopped
  refine ⟨seat, finish, own, ?_, bad⟩
  rw [State.stageOf_of_found found, Task.stage_of_life life stopped, finished]

theorem Poised.isSpoilt {settings : Settings} {base number : Nat} {events : List Event} {call : Call}
    (poised : Poised settings base events)
    (known : (stateAfter settings events).calls[base + number]? = some call)
    (aborted : call.aborted = true) : IsSpoilt (stateAfter settings events) base number := by
  obtain ⟨task, found, part, stopped⟩ :=
    poised.given _ call (Nat.le_add_right _ _) known aborted
  obtain ⟨seat, rfl, own⟩ := exists_seat part
  exact ⟨seat, .stopped, own, (State.stageOf_of_found part.present).trans stopped, by decide⟩

theorem SideBySide.isSpoilt_of_given {few many : Lap} {seat : Nat} (both : SideBySide few many)
    (unended : ∀ finish, few.before.stageOf (3 * few.base + seat) ≠ .finished finish)
    (given : many.event = .drop (many.base + seat / 3)) {old' : Call}
    (there' : many.before.calls[many.base + seat / 3]? = some old') :
    IsSpoilt few.after few.base (seat / 3) := by
  have given' := both.same.drop_iff.mpr given
  obtain ⟨old, there⟩ := both.outpaces.exists_call' there'
  rcases Bool.eq_false_or_eq_true old.aborted with aborted | going
  · exact (both.outpaces.scarce.isSpoilt there aborted).after
  · cases ended : old.ended with
    | some stop =>
        obtain ⟨finish, finished⟩ :=
          Lap.over_of_done both.outpaces.scarce.quiet there (.inr (by simp [ended]))
        exact absurd finished (unended finish)
    | none =>
        have quiet := both.quiet
        rw [Lap.after, given'] at quiet
        obtain ⟨task, found, part, stopped⟩ :=
          exists_stopped both.outpaces.scarce.quiet quiet there going ended
        rw [← given'] at part
        obtain ⟨place, rfl, own⟩ := exists_seat part
        exact ⟨place, .stopped, own, (State.stageOf_of_found part.present).trans stopped, by decide⟩

namespace Pair

variable {few many : Lap} {seat : Nat} {next next' : Task} {leg : Leg} {call call' : Call}

theorem mem_legs (pair : Pair few many seat next next' leg call call') {order : Order}
    (listed : few.orders[few.base + seat / 3]? = some order) : leg ∈ order.legs := by
  obtain ⟨again, listed', legs⟩ := pair.passes.order
  rw [seat_div] at listed'
  obtain rfl : order = again := Option.some.inj (listed.symm.trans listed')
  exact List.mem_of_getElem? legs

theorem isSpoilt_of_late (pair : Pair few many seat next next' leg call call')
    (both : SideBySide few many)
    (unended : ∀ finish, few.before.stageOf (3 * few.base + seat) ≠ .finished finish)
    (late : call.started + few.settings.requestTimeout ≤ few.after.clock) :
    IsSpoilt few.after few.base (seat / 3) := by
  cases aborted : call.aborted with
  | true =>
      have poised := both.outpaces.scarce.round both.same.isOutside.1 both.quiet
      exact poised.isSpoilt pair.known aborted
  | false =>
      obtain ⟨order, charge⟩ := exists_charge few.settings _ pair.known
      have ended := charge.ended_of_urgent both.quiet aborted (charge.urgent_of_late late)
      obtain ⟨finish, finished⟩ := charge.over_of_done both.quiet (.inr ended) pair.part
      rcases pair.over_cases finished with before | ⟨due, _, _, in_time⟩ | rfl
      · exact absurd before (unended finish)
      · exact absurd late in_time
      · exact ⟨seat, .stopped, rfl, (State.stageOf_of_found pair.found).trans finished, by decide⟩

theorem fair (pair : Pair few many seat next next' leg call call') (both : SideBySide few many)
    {order : Order} (listed : few.orders[few.base + seat / 3]? = some order)
    (willing : ∀ leg ∈ order.legs, leg.finish = .served)
    (sound : ¬ IsSpoilt many.before many.base (seat / 3)) {finish : Finish}
    (finished : next'.stage = .finished finish) (bad : finish ≠ .served) :
    IsSpoilt few.after few.base (seat / 3) := by
  have unended' : ∀ finish, many.before.stageOf (3 * many.base + seat) ≠ .finished finish := by
    intro before stage
    have leads := pair.passes'.leads
    rw [stage, finished] at leads
    obtain rfl := Stage.finished.inj leads
    exact sound ⟨seat, finish, rfl, stage, bad⟩
  have unended : ∀ finish, few.before.stageOf (3 * few.base + seat) ≠ .finished finish := by
    intro before stage
    have ahead := both.outpaces.ahead seat
    rw [stage] at ahead
    obtain ⟨finish, stage'⟩ := ahead.finished
    exact unended' finish stage'
  obtain ⟨own, charge⟩ := exists_charge many.settings _ pair.known'
  cases aborted : call'.aborted with
  | true =>
      rcases exists_call_before pair.known' with
        ⟨old, there, _, _, given⟩ | ⟨_, going, _⟩
      · rcases given aborted with already | ⟨drop, _⟩
        · exact absurd (both.outpaces.ample.isSpoilt there already) sound
        · exact both.isSpoilt_of_given unended drop there
      · rw [aborted] at going
        cases going
  | false =>
      rcases charge.reason_of_bad both.quiet' aborted pair.part' finished bad with
        late | ⟨other, failed, part, stage⟩
      · rw [pair.started, both.timeout] at late
        exact pair.isSpoilt_of_late both unended (both.clock ▸ late)
      · -- A step fails of its own only if somebody refuses the order.
        obtain ⟨place, rfl, near⟩ := exists_seat part
        obtain ⟨_, leg', _, _, pair'⟩ := both.exists_pair_of_found' part.present
        rw [← near] at listed
        have refused : Finish.failed = leg'.finish := by
          rcases finish_of_over both.quiet' pair'.found' pair'.passes'.works stage with other | own
          · cases other
          · exact own
        rw [willing leg' (pair'.mem_legs listed)] at refused
        cases refused

end Pair

/-! ## After a round -/

namespace SideBySide

variable {few many : Lap}

theorem fair (both : SideBySide few many) {number : Nat} {order : Order}
    (listed : few.orders[few.base + number]? = some order)
    (willing : ∀ leg ∈ order.legs, leg.finish = .served)
    (spoilt : IsSpoilt many.after many.base number) : IsSpoilt few.after few.base number := by
  by_cases early : IsSpoilt many.before many.base number
  · have listed' : (taken few.events)[few.base + number]? = some order := by
      obtain ⟨seat, finish, rfl, finished, _⟩ := early
      obtain ⟨task, found, _⟩ := State.exists_of_stageOf finished
      have bound : 3 * many.base + seat < many.before.tasks.length :=
        (List.getElem?_eq_some_iff.mp found).1
      rw [length_tasks] at bound
      have since := both.outpaces.since_eq
      have small : few.base + seat / 3 < (taken few.events).length := by omega
      rw [Lap.orders, taken_append, List.getElem?_append_left small] at listed
      exact listed
    exact (both.outpaces.fair number order listed' willing early).after
  · obtain ⟨seat, finish, rfl, finished, bad⟩ := spoilt
    obtain ⟨next', found, stage⟩ := State.exists_of_stageOf finished
    obtain ⟨_, _, _, _, pair⟩ := both.exists_pair_of_found' found
    exact pair.fair both listed willing early stage bad

theorem ahead (both : SideBySide few many) (seat : Nat) :
    (many.after.stageOf (3 * many.base + seat)).Reaches
      (few.after.stageOf (3 * few.base + seat)) := by
  cases found' : many.after.tasks[3 * many.base + seat]? with
  | some next' =>
      obtain ⟨next, _, _, _, pair⟩ := both.exists_pair_of_found' found'
      rw [State.stageOf_of_found found', State.stageOf_of_found pair.found]
      exact pair.reaches both
  | none =>
      have size := both.size_eq
      rw [List.length_drop, List.length_drop] at size
      have outside : many.after.tasks.length ≤ 3 * many.base + seat :=
        List.getElem?_eq_none_iff.mp found'
      have known := both.orders_eq.2.2
      have length := many.length_tasks
      have missing : few.after.tasks[3 * few.base + seat]? = none :=
        List.getElem?_eq_none_iff.mpr (by omega)
      rw [State.stageOf, State.stageOf, found', missing]
      trivial

/-- The ample desk stays ahead. -/
theorem round (both : SideBySide few many) :
    Outpaces few.settings many.settings few.base many.base
      (Desk.round few.events few.event few.workers)
      (Desk.round many.events many.event many.workers) := by
  obtain ⟨outside, outside'⟩ := both.same.isOutside
  obtain ⟨orders, known, known'⟩ := both.orders_eq
  constructor
  case scarce => exact both.outpaces.scarce.round outside both.quiet
  case ample => exact both.outpaces.ample.round outside' both.quiet'
  case clock => exact both.clock
  case known =>
    rw [taken_round]
    exact known
  case known' =>
    rw [taken_round]
    exact known'
  case orders =>
    rw [taken_round, taken_round]
    exact orders
  case started => exact fun number call call' => both.started
  case rested => exact fun id task => both.rested_after
  case ahead => exact both.ahead
  case sooner =>
    intro seat task task' time time' ending ending' found found' life life'
    obtain ⟨next, _, _, _, pair⟩ := both.exists_pair_of_found' found'
    obtain rfl := Option.some.inj (found.symm.trans pair.found)
    exact pair.sooner both life life'
  case fair =>
    intro number order listed
    rw [taken_round] at listed
    exact both.fair listed

end SideBySide

end Desk

end OrderDesk
