import OrderDesk.Proofs.Counterparts

/-! A rush of orders that all come at one time, ask for no failure and take as long as each other. The
couriers set out in batches: as many as there are at once, and as many again whenever they are back. So
for every task there is a time at which it sets to work and one at which it is done, unless the orders
are due before. After every round all tasks are found where this plan has them. A courier cannot be
ahead of it, because then all couriers are out with older orders, and it cannot be behind, because then
one of them would be free. -/

namespace OrderDesk

open Schedule

structure Order.Takes (order : Order) (payment vendor courier : Nat) : Prop where
  some_amount : 0 < order.amount
  willing : ∀ name ∈ orderPipeline.names, order.failStep ≠ some name
  payment : stepLatency order.delays "payment" 150 = payment
  vendor : stepLatency order.delays "vendor" 200 = vendor
  courier : stepLatency order.delays "courier" 100 = courier

/-- A rush at a desk that has had `base` calls before. -/
structure Rush where
  settings : Settings
  base : Nat
  start : Nat
  payment : Nat
  vendor : Nat
  courier : Nat

namespace Rush

variable (rush : Rush)

def couriers : Nat := Limiter.clamp rush.settings.couriers

def due : Nat := rush.settings.requestTimeout

def batch (number : Nat) : Nat := number / rush.couriers

/-- For how long a task is in line. Tasks are numbered in the order of the orders. -/
def lull (seat : Nat) : Nat :=
  if seat % 3 = 2 then rush.batch (seat / 3) * rush.courier else 0

def millis (seat : Nat) : Nat :=
  match seat % 3 with
  | 0 => rush.payment
  | 1 => rush.vendor
  | _ => rush.courier

def span (seat : Nat) : Nat := rush.lull seat + rush.millis seat

def stage (time seat : Nat) : Stage :=
  if rush.due ≤ time ∨ rush.span seat ≤ time then
    .finished (if rush.span seat < rush.due then .served else .stopped)
  else if rush.lull seat ≤ time then .busy (rush.start + rush.span seat)
  else .queued

variable {rush}

theorem couriers_pos : 0 < rush.couriers := (Limiter.clamp_bounds _).1

theorem due_pos : 0 < rush.due := rush.settings.requestTimeout_pos

variable {time seat : Nat}

theorem stage_over (past : rush.due ≤ time ∨ rush.span seat ≤ time) :
    rush.stage time seat =
      .finished (if rush.span seat < rush.due then .served else .stopped) :=
  if_pos past

theorem stage_busy (early : time < rush.due) (begun : rush.lull seat ≤ time)
    (undone : time < rush.span seat) :
    rush.stage time seat = .busy (rush.start + rush.span seat) := by
  rw [stage, if_neg (by omega), if_pos begun]

theorem stage_queued (early : time < rush.due) (waits : time < rush.lull seat) :
    rush.stage time seat = .queued := by
  have undone : time < rush.span seat := Nat.lt_of_lt_of_le waits (Nat.le_add_right _ _)
  rw [stage, if_neg (by omega), if_neg (Nat.not_le.mpr waits)]

theorem stage_cases (rush : Rush) (time seat : Nat) :
    (rush.due ≤ time ∨ rush.span seat ≤ time) ∧ rush.stage time seat =
        .finished (if rush.span seat < rush.due then .served else .stopped) ∨
      (time < rush.due ∧ rush.lull seat ≤ time ∧ time < rush.span seat) ∧
        rush.stage time seat = .busy (rush.start + rush.span seat) ∨
      (time < rush.due ∧ time < rush.lull seat) ∧ rush.stage time seat = .queued := by
  by_cases past : rush.due ≤ time ∨ rush.span seat ≤ time
  · exact .inl ⟨past, stage_over past⟩
  · by_cases begun : rush.lull seat ≤ time
    · have early : time < rush.due ∧ rush.lull seat ≤ time ∧ time < rush.span seat := by omega
      exact .inr (.inl ⟨early, stage_busy early.1 begun early.2.2⟩)
    · have waits : time < rush.due ∧ time < rush.lull seat := by omega
      exact .inr (.inr ⟨waits, stage_queued waits.1 waits.2⟩)

theorem courier_of_lull (waits : 0 < rush.lull seat) : seat % 3 = 2 := by
  by_contra other
  rw [lull, if_neg other] at waits
  exact Nat.lt_irrefl 0 waits

theorem lull_courier (rush : Rush) (number : Nat) :
    rush.lull (3 * number + 2) = rush.batch number * rush.courier := by
  have call : (3 * number + 2) / 3 = number := by omega
  have position : (3 * number + 2) % 3 = 2 := by omega
  rw [lull, if_pos position, call]

theorem span_payment (rush : Rush) (number : Nat) : rush.span (3 * number) = rush.payment := by
  have position : 3 * number % 3 = 0 := by omega
  simp [span, lull, millis, position]

theorem span_vendor (rush : Rush) (number : Nat) : rush.span (3 * number + 1) = rush.vendor := by
  have position : (3 * number + 1) % 3 = 1 := by omega
  simp [span, lull, millis, position]

theorem span_courier (rush : Rush) (number : Nat) :
    rush.span (3 * number + 2) = (rush.batch number + 1) * rush.courier := by
  have position : (3 * number + 2) % 3 = 2 := by omega
  simp only [span, lull_courier, millis, position, Nat.add_mul, Nat.one_mul]

theorem stage_courier (positive : 0 < rush.courier) (early : time < rush.due) (number : Nat) :
    (∃ due, rush.stage time (3 * number + 2) = .busy due) ↔
      rush.batch number = time / rush.courier := by
  have window : rush.batch number = time / rush.courier ↔
      rush.batch number * rush.courier ≤ time ∧
        time < (rush.batch number + 1) * rush.courier := by
    rw [← Nat.le_div_iff_mul_le positive, ← Nat.div_lt_iff_lt_mul positive]
    omega
  rw [window, ← lull_courier, ← span_courier]
  rcases rush.stage_cases time (3 * number + 2) with
    ⟨past, stage⟩ | ⟨out, stage⟩ | ⟨waits, stage⟩
  · rw [stage]
    simp
    omega
  · rw [stage]
    simp
    omega
  · rw [stage]
    simp
    omega

def out (rush : Rush) (time : Nat) : Nat → Nat
  | 0 => 0
  | number + 1 => rush.out time number + if rush.batch number = time / rush.courier then 1 else 0

theorem out_eq (rush : Rush) (time number : Nat) :
    rush.out time number = min number ((time / rush.courier + 1) * rush.couriers) -
      time / rush.courier * rush.couriers := by
  induction number with
  | zero => simp [out]
  | succ number ih =>
      have window : rush.batch number = time / rush.courier ↔
          time / rush.courier * rush.couriers ≤ number ∧
            number < (time / rush.courier + 1) * rush.couriers := by
        rw [← Nat.le_div_iff_mul_le couriers_pos, ← Nat.div_lt_iff_lt_mul couriers_pos, batch]
        omega
      have full : (time / rush.courier + 1) * rush.couriers =
          time / rush.courier * rush.couriers + rush.couriers := Nat.succ_mul _ _
      rw [out, ih, if_congr window rfl rfl]
      split <;> omega

/-- Before the time of a courier has come, all couriers are out with the orders before. -/
theorem out_of_early (positive : 0 < rush.courier) {number : Nat}
    (early : time < rush.lull (3 * number + 2)) : rush.out time number = rush.couriers := by
  rw [lull_courier, ← Nat.div_lt_iff_lt_mul positive] at early
  have before : (time / rush.courier + 1) * rush.couriers ≤ number :=
    (Nat.le_div_iff_mul_le couriers_pos).mp early
  have full : (time / rush.courier + 1) * rush.couriers =
      time / rush.courier * rush.couriers + rush.couriers := Nat.succ_mul _ _
  rw [out_eq]
  omega

/-- When the time of a courier has come, it is not the case that all couriers are out. -/
theorem out_of_begun (positive : 0 < rush.courier) (number : Nat) :
    rush.out (rush.lull (3 * number + 2)) number < rush.couriers := by
  rw [out_eq, lull_courier, Nat.mul_div_cancel _ positive]
  have window : number < (rush.batch number + 1) * rush.couriers :=
    (Nat.div_lt_iff_lt_mul couriers_pos).mp (Nat.lt_succ_self _)
  have full : (rush.batch number + 1) * rush.couriers =
      rush.batch number * rush.couriers + rush.couriers := Nat.succ_mul _ _
  have some_courier := @couriers_pos rush
  omega

end Rush

theorem Order.Takes.leg {order : Order} {rush : Rush}
    (takes : order.Takes rush.payment rush.vendor rush.courier) {seat : Nat} {leg : Leg}
    (legs : order.legs[seat % 3]? = some leg) :
    leg.millis = rush.millis seat ∧ leg.finish = .served := by
  have willing (name : String) (listed : name ∈ orderPipeline.names) : order.failsAt name = false := by
    simpa [Order.failsAt] using takes.willing name listed
  have payment := willing "payment" (by decide)
  have vendor := willing "vendor" (by decide)
  have courier := willing "courier" (by decide)
  have amount : (order.amount == 0) = false := by
    simpa using (UInt64.ne_of_lt takes.some_amount).symm
  simp only [Order.legs, payment, vendor, courier, amount, takes.payment, takes.vendor,
    takes.courier, Bool.or_self, Bool.false_eq_true, if_false] at legs
  unfold Rush.millis
  generalize seat % 3 = position at legs ⊢
  rcases position with _ | _ | _ | position
  · obtain rfl := Option.some.inj legs
    exact ⟨rfl, rfl⟩
  · obtain rfl := Option.some.inj legs
    exact ⟨rfl, rfl⟩
  · obtain rfl := Option.some.inj legs
    exact ⟨rfl, rfl⟩
  · simp at legs

namespace Rush

open Desk

abbrev state (rush : Rush) (events : List Event) : State := stateAfter rush.settings events

def elapsed (rush : Rush) (events : List Event) : Nat := (rush.state events).clock - rush.start

structure Crowd (rush : Rush) (orders : List Order) (events : List Event) : Prop where
  poised : Poised rush.settings rush.base events
  listed : ∃ earlier : List Order, earlier.length = rush.base ∧ taken events = earlier ++ orders
  takes : ∀ order ∈ orders, order.Takes rush.payment rush.vendor rush.courier
  begun : orders = [] ∨ rush.start ≤ (rush.state events).clock
  going : ∀ (number : Nat) (call : Call), (rush.state events).calls[rush.base + number]? = some call →
    call.started = rush.start ∧ call.aborted = false
  /-- All is over that was there before the rush. -/
  rested : ∀ (id : TaskId) (task : Task), id < 3 * rush.base →
    (rush.state events).tasks[id]? = some task → task.isOver = true

/-- The first tasks are where the plan has them. -/
def Agrees (rush : Rush) (events : List Event) (seats : Nat) : Prop :=
  ∀ seat < seats, ∀ task, (rush.state events).tasks[3 * rush.base + seat]? = some task →
    task.stage = rush.stage (rush.elapsed events) seat

structure Steady (rush : Rush) (orders : List Order) (events : List Event) : Prop
    extends Crowd rush orders events where
  agrees : ∀ seats, rush.Agrees events seats
  timed : ∀ (seat : Nat) (task : Task) (time : Nat) (ending : Ending),
    (rush.state events).tasks[3 * rush.base + seat]? = some task → task.life = .ended time ending →
    time = rush.start + min (rush.span seat) rush.due

structure Finds (rush : Rush) (events : List Event) (seat : Nat) (task : Task) (leg : Leg)
    (call : Call) : Prop where
  works : (rush.state events).WorksFor (taken events) (3 * rush.base + seat) task
    ⟨rush.base + seat / 3, seat % 3⟩ leg
  part : IsPart (rush.state events) (rush.base + seat / 3) (3 * rush.base + seat) task
  known : (rush.state events).calls[rush.base + seat / 3]? = some call
  millis : leg.millis = rush.millis seat
  served : leg.finish = .served
  started : call.started = rush.start
  going : call.aborted = false

variable {rush : Rush} {orders : List Order} {events : List Event} {seat number : Nat} {task : Task}
  {leg : Leg} {call : Call}

namespace Crowd

theorem exists_finds (crowd : rush.Crowd orders events)
    (found : (rush.state events).tasks[3 * rush.base + seat]? = some task) :
    ∃ leg call, Finds rush events seat task leg call := by
  obtain ⟨call, known⟩ := exists_call found
  obtain ⟨order, leg, placed, legs, works, part⟩ := exists_leg found
  rw [seat_div] at known placed works part
  rw [seat_mod] at legs works
  obtain ⟨started, going⟩ := crowd.going _ call known
  obtain ⟨earlier, size, listed⟩ := crowd.listed
  rw [listed, ← size, List.getElem?_append_right (Nat.le_add_right _ _),
    Nat.add_sub_cancel_left] at placed
  obtain ⟨millis, served⟩ := (crowd.takes order (List.mem_of_getElem? placed)).leg legs
  exact ⟨leg, call, works, part, known, millis, served, started, going⟩

theorem begun_of_found (crowd : rush.Crowd orders events)
    (found : (rush.state events).tasks[3 * rush.base + seat]? = some task) :
    (rush.state events).clock = rush.start + rush.elapsed events := by
  have begun : rush.start ≤ (rush.state events).clock := by
    rcases crowd.begun with nothing | begun
    · -- Without an order there is no task.
      obtain ⟨earlier, size, listed⟩ := crowd.listed
      have bound := (List.getElem?_eq_some_iff.mp found).1
      rw [length_tasks, listed, nothing, List.append_nil, size] at bound
      exact absurd bound (Nat.not_lt.mpr (Nat.le_add_right _ _))
    · exact begun
  exact (Nat.add_sub_cancel' begun).symm

end Crowd

namespace Finds

theorem courier_pos (finds : Finds rush events seat task leg call) (courier : seat % 3 = 2) :
    0 < rush.courier := by
  have positive := finds.works.positive
  rwa [finds.millis, Rush.millis, courier] at positive

theorem late_of_stopped (finds : Finds rush events seat task leg call)
    (crowd : rush.Crowd orders events) (stopped : task.stage = .finished .stopped) :
    rush.due ≤ rush.elapsed events := by
  obtain ⟨order, charge⟩ := exists_charge rush.settings _ finds.known
  have clock := crowd.begun_of_found finds.part.present
  rcases charge.reason_of_bad crowd.poised.quiet finds.going finds.part stopped (by decide) with
    late | ⟨other, failed, part, stage⟩
  · rw [finds.started, clock] at late
    exact Nat.le_of_add_le_add_left late
  · obtain ⟨seat', rfl, _⟩ := exists_seat part
    obtain ⟨leg', call', finds'⟩ := crowd.exists_finds part.present
    have own := finish_of_over crowd.poised.quiet part.present finds'.works stage
    simp [finds'.served] at own

theorem over_of_late (finds : Finds rush events seat task leg call)
    (crowd : rush.Crowd orders events) (late : rush.due ≤ rush.elapsed events) :
    ∃ finish, task.stage = .finished finish := by
  obtain ⟨order, charge⟩ := exists_charge rush.settings _ finds.known
  have clock := crowd.begun_of_found finds.part.present
  have past : call.started + rush.settings.requestTimeout ≤ (rush.state events).clock := by
    rw [finds.started, clock]
    exact Nat.add_le_add_left late _
  have ended := charge.ended_of_urgent crowd.poised.quiet finds.going (charge.urgent_of_late past)
  exact charge.over_of_done crowd.poised.quiet (.inr ended) finds.part

theorem slots_eq (finds : Finds rush events seat task leg call) (crowd : rush.Crowd orders events)
    (early : rush.elapsed events < rush.due)
    (stage : task.stage = rush.stage (rush.elapsed events) seat) :
    task.slots =
      if seat % 3 = 2 ∧ rush.batch (seat / 3) = rush.elapsed events / rush.courier then 1 else 0 := by
  have present := finds.part.present
  split
  · rename_i out
    obtain ⟨courier, batch⟩ := out
    have place : seat = 3 * (seat / 3) + 2 := by omega
    obtain ⟨due, busy⟩ := (stage_courier (finds.courier_pos courier) early _).mpr batch
    rw [← place, ← stage] at busy
    exact slots_of_busy present finds.works (by rw [courier]; rfl) busy
  · rename_i home
    by_contra some_slot
    obtain ⟨_, needs, due, busy⟩ :=
      busy_of_slots crowd.poised.quiet present finds.works (Nat.pos_of_ne_zero some_slot)
    have courier : seat % 3 = 2 := position_of_isCourier needs
    have place : seat = 3 * (seat / 3) + 2 := by omega
    rw [stage, place] at busy
    exact home ⟨courier, (stage_courier (finds.courier_pos courier) early _).mp ⟨due, busy⟩⟩

end Finds

/-! ## Couriers -/

theorem Crowd.sumOf_slots_take (crowd : rush.Crowd orders events)
    (early : rush.elapsed events < rush.due)
    (known : 3 * (rush.base + number) ≤ (rush.state events).tasks.length)
    (agrees : rush.Agrees events (3 * number)) :
    sumOf Task.slots ((rush.state events).tasks.take (3 * (rush.base + number))) =
      rush.out (rush.elapsed events) number := by
  induction number with
  | zero => exact sumOf_slots_rested crowd.rested
  | succ number ih =>
      have before := ih (by omega) fun seat small => agrees seat (by omega)
      have slots (position : Nat) (small : position < 3) :
          sumOf Task.slots ((rush.state events).tasks[3 * (rush.base + number) + position]?).toList =
            if position = 2 ∧ rush.batch number = rush.elapsed events / rush.courier then 1 else 0 := by
        have bound : 3 * rush.base + (3 * number + position) < (rush.state events).tasks.length := by
          omega
        have found := List.getElem?_eq_getElem bound
        obtain ⟨leg, call, finds⟩ := crowd.exists_finds found
        have slots := finds.slots_eq crowd early (agrees _ (by omega) _ found)
        have place : (3 * number + position) % 3 = position ∧ (3 * number + position) / 3 = number := by
          omega
        rw [place.1, place.2] at slots
        rw [Nat.mul_add, Nat.add_assoc, found, Option.toList_some, sumOf, sumOf, Nat.add_zero, slots]
      have payment := slots 0 (by omega)
      have vendor := slots 1 (by omega)
      have courier := slots 2 (by omega)
      simp only [Nat.add_zero, Nat.reduceEqDiff, false_and, if_false, true_and]
        at payment vendor courier
      have next : 3 * (rush.base + (number + 1)) = 3 * (rush.base + number) + 1 + 1 + 1 := by omega
      rw [next, List.take_add_one, List.take_add_one, List.take_add_one, sumOf_append, sumOf_append,
        sumOf_append, before, payment, vendor, courier]
      rfl

theorem Crowd.sumOf_slots (crowd : rush.Crowd orders events)
    (early : rush.elapsed events < rush.due)
    (known : 3 * (rush.base + number) ≤ (rush.state events).tasks.length)
    (agrees : rush.Agrees events (3 * number)) :
    sumOf Task.slots (rush.state events).tasks = rush.out (rush.elapsed events) number +
      sumOf Task.slots ((rush.state events).tasks.drop (3 * (rush.base + number))) := by
  have whole := congrArg (sumOf Task.slots) (List.take_append_drop (3 * (rush.base + number))
    (rush.state events).tasks)
  rw [sumOf_append, crowd.sumOf_slots_take early known agrees] at whole
  exact whole.symm

namespace Finds

/-- Nobody has a courier before its time: all couriers are out with older orders. -/
theorem not_ahead (finds : Finds rush events seat task leg call) (crowd : rush.Crowd orders events)
    (early : rush.elapsed events < rush.due) (agrees : rush.Agrees events seat)
    (ahead : rush.elapsed events < rush.lull seat) {due : Nat} : task.stage ≠ .busy due := by
  intro busy
  have courier := courier_of_lull (Nat.lt_of_le_of_lt (Nat.zero_le _) ahead)
  obtain ⟨number, rfl⟩ : ∃ number, seat = 3 * number + 2 := ⟨seat / 3, by omega⟩
  have held : task.slots = 1 :=
    slots_of_busy finds.part.present finds.works (by rw [courier]; rfl) busy
  have bound := (List.getElem?_eq_some_iff.mp finds.part.present).1
  have whole := @Crowd.sumOf_slots _ _ _ number crowd early (by omega)
    fun other small => agrees other (by omega)
  rw [out_of_early (finds.courier_pos courier) ahead] at whole
  have own : ((rush.state events).tasks.drop (3 * (rush.base + number)))[2]? = some task := by
    rw [List.getElem?_drop, ← finds.part.present, Nat.mul_add, Nat.add_assoc]
  have part := sumOf_eraseIdx Task.slots _ _ _ own
  have enough : (rush.state events).limiter.unheld + sumOf Task.slots (rush.state events).tasks =
      rush.couriers := Balanced.slots (balanced_run rush.settings events)
  omega

/-- Nobody waits for a courier when its time has come: one of them is free. -/
theorem not_behind (finds : Finds rush events seat task leg call) (crowd : rush.Crowd orders events)
    (early : rush.elapsed events < rush.due) (agrees : rush.Agrees events seat)
    (courier : seat % 3 = 2) (begun : rush.elapsed events = rush.lull seat) :
    task.stage ≠ .queued := by
  intro queued
  obtain ⟨number, rfl⟩ : ∃ number, seat = 3 * number + 2 := ⟨seat / 3, by omega⟩
  obtain ⟨full, older⟩ := older_of_queued crowd.poised.quiet crowd.poised.ranked finds.part.present
    finds.works queued
  have bound := (List.getElem?_eq_some_iff.mp finds.part.present).1
  have whole := @Crowd.sumOf_slots _ _ _ number crowd early (by omega)
    fun other small => agrees other (by omega)
  have out := out_of_begun (finds.courier_pos courier) number
  have younger : sumOf Task.slots ((rush.state events).tasks.drop (3 * (rush.base + number))) = 0 := by
    refine sumOf_eq_zero _ fun other member => ?_
    obtain ⟨index, found⟩ := List.getElem?_of_mem member
    rw [List.getElem?_drop] at found
    by_contra some_slot
    have slots := State.slotsOf_of_found found
    have before : 3 * (rush.base + number) + index < 3 * rush.base + (3 * number + 2) :=
      older _ (slots ▸ Nat.pos_of_ne_zero some_slot)
    -- Only the other tasks of the same order come before, and they want no courier.
    rw [Nat.mul_add, Nat.add_assoc] at found
    have first : 3 * number + index < 3 * number + 2 := by omega
    obtain ⟨leg', call', finds'⟩ := crowd.exists_finds found
    have slots' := finds'.slots_eq crowd early (agrees _ first _ found)
    rw [if_neg (by omega)] at slots'
    exact some_slot slots'
  have full : sumOf Task.slots (rush.state events).tasks = rush.couriers := full
  rw [begun, younger] at whole
  omega

theorem early_of_going (finds : Finds rush events seat task leg call)
    (crowd : rush.Crowd orders events) (going : ∀ finish, task.stage ≠ .finished finish) :
    rush.elapsed events < rush.due := by
  by_contra late
  obtain ⟨finish, finished⟩ := finds.over_of_late crowd (Nat.not_lt.mp late)
  exact going finish finished

theorem undone_of_busy (finds : Finds rush events seat task leg call)
    (crowd : rush.Crowd orders events) {due : Nat} (busy : task.stage = .busy due) :
    (rush.state events).clock < due := by
  rcases Desk.stage_cases crowd.poised.quiet finds.part.present finds.works with
    ⟨queued, _⟩ | ⟨due', busy', later, _⟩ | ⟨finish, finished, _⟩
  · simp [busy] at queued
  · obtain rfl := Stage.busy.inj (busy.symm.trans busy')
    exact later
  · simp [busy] at finished

theorem stage_of_queued (finds : Finds rush events seat task leg call)
    (crowd : rush.Crowd orders events) (agrees : rush.Agrees events seat)
    (soon : rush.elapsed events ≤ rush.lull seat) (queued : task.stage = .queued) :
    task.stage = rush.stage (rush.elapsed events) seat := by
  have early := finds.early_of_going crowd (by simp [queued])
  have courier : seat % 3 = 2 := by
    rcases Desk.stage_cases crowd.poised.quiet finds.part.present finds.works with
      ⟨_, needs⟩ | ⟨due, busy, _⟩ | ⟨finish, finished, _⟩
    · exact position_of_isCourier needs
    · simp [queued] at busy
    · simp [queued] at finished
  rcases Nat.lt_or_eq_of_le soon with waits | begun
  · rw [queued, stage_queued early waits]
  · exact absurd queued (finds.not_behind crowd early agrees courier begun)

theorem stage_of_begun (finds : Finds rush events seat task leg call)
    (crowd : rush.Crowd orders events) (agrees : rush.Agrees events seat)
    (soon : rush.elapsed events ≤ rush.lull seat)
    (busy : task.stage = .busy ((rush.state events).clock + leg.millis)) :
    task.stage = rush.stage (rush.elapsed events) seat := by
  have early := finds.early_of_going crowd (by simp [busy])
  rcases Nat.lt_or_eq_of_le soon with ahead | begun
  · exact absurd busy (finds.not_ahead crowd early agrees ahead)
  · have positive := finds.works.positive
    rw [finds.millis] at positive
    have undone : rush.elapsed events < rush.span seat := by
      rw [begun]
      exact Nat.lt_add_of_pos_right positive
    have clock := crowd.begun_of_found finds.part.present
    rw [busy, stage_busy early (Nat.le_of_eq begun.symm) undone, clock, finds.millis, begun,
      Nat.add_assoc]
    rfl

theorem stage_of_busy (finds : Finds rush events seat task leg call)
    (crowd : rush.Crowd orders events) (begun : rush.lull seat ≤ rush.elapsed events)
    (busy : task.stage = .busy (rush.start + rush.span seat)) :
    task.stage = rush.stage (rush.elapsed events) seat := by
  have early := finds.early_of_going crowd (by simp [busy])
  have undone := finds.undone_of_busy crowd busy
  rw [crowd.begun_of_found finds.part.present] at undone
  rw [busy, stage_busy early begun (Nat.lt_of_add_lt_add_left undone)]

theorem stage_of_done (finds : Finds rush events seat task leg call)
    (crowd : rush.Crowd orders events)
    (done : rush.start + rush.span seat ≤ (rush.state events).clock)
    (in_time : ¬ call.started + rush.settings.requestTimeout ≤ (rush.state events).clock)
    (finished : task.stage = .finished leg.finish) :
    task.stage = rush.stage (rush.elapsed events) seat := by
  have clock := crowd.begun_of_found finds.part.present
  rw [clock] at done
  rw [clock, finds.started] at in_time
  have past : rush.span seat ≤ rush.elapsed events := Nat.le_of_add_le_add_left done
  have early : rush.elapsed events < rush.due := Nat.lt_of_add_lt_add_left (Nat.lt_of_not_le in_time)
  rw [finished, finds.served, stage_over (.inr past), if_pos (Nat.lt_of_le_of_lt past early)]

theorem stage_of_stopped (finds : Finds rush events seat task leg call)
    (crowd : rush.Crowd orders events) (soon : rush.elapsed events ≤ rush.span seat)
    (stopped : task.stage = .finished .stopped) :
    task.stage = rush.stage (rush.elapsed events) seat := by
  have late := finds.late_of_stopped crowd stopped
  rw [stopped, stage_over (.inl late), if_neg (Nat.not_lt.mpr (Nat.le_trans late soon))]

theorem stage_of_led (finds : Finds rush events seat task leg call)
    (crowd : rush.Crowd orders events) (agrees : rush.Agrees events seat)
    (soon : rush.elapsed events ≤ rush.lull seat)
    (led : task.stage = .queued ∨ task.stage = .busy ((rush.state events).clock + leg.millis) ∨
      task.stage = .finished .stopped) :
    task.stage = rush.stage (rush.elapsed events) seat := by
  rcases led with queued | busy | stopped
  · exact finds.stage_of_queued crowd agrees soon queued
  · exact finds.stage_of_begun crowd agrees soon busy
  · exact finds.stage_of_stopped crowd (Nat.le_trans soon (Nat.le_add_right _ _)) stopped

end Finds

structure Lap (rush : Rush) (orders more : List Order) (events : List Event) (event : Event)
    (workers : List Worker) : Prop where
  steady : rush.Steady orders events
  outside : event.IsOutside
  kept : ∀ call, event ≠ .drop call
  quiet : (rush.state (round events event workers)).ready = []
  taken : Desk.taken [event] = more
  takes : ∀ order ∈ more, order.Takes rush.payment rush.vendor rush.courier
  later : (rush.state events).clock ≤ (rush.state (round events event workers)).clock
  soon : (rush.state (round events event workers)).clock ≤ (rush.state events).clock + 1
  fresh : more = [] ∨ (rush.state events).clock = rush.start ∧
    (rush.state (round events event workers)).clock = rush.start

namespace Lap

variable {more : List Order} {event : Event} {workers : List Worker} {next : Task}

theorem going (lap : rush.Lap orders more events event workers)
    (known : (rush.state (round events event workers)).calls[rush.base + number]? = some call) :
    call.started = rush.start ∧ call.aborted = false := by
  rcases exists_call_before known with ⟨old, there, continues, _, given⟩ | ⟨last, going, started⟩
  · obtain ⟨started, going⟩ := lap.steady.going number old there
    refine ⟨continues.started.trans started, ?_⟩
    by_contra aborted
    rcases given (by simpa using aborted) with already | ⟨dropped, _⟩
    · rw [going] at already
      cases already
    · exact lap.kept _ dropped
  · refine ⟨?_, going⟩
    rcases lap.fresh with none_new | ⟨now, _⟩
    · -- Without a new order there is no new call.
      have bound := (List.getElem?_eq_some_iff.mp known).1
      rw [last, length_calls, length_calls, taken_round, taken_append, lap.taken, none_new,
        List.append_nil] at bound
      exact absurd bound (Nat.lt_irrefl _)
    · exact started.trans now

theorem rested (lap : rush.Lap orders more events event workers) {id : TaskId}
    (old : id < 3 * rush.base)
    (found : (rush.state (round events event workers)).tasks[id]? = some next) :
    next.isOver = true := by
  obtain ⟨earlier, size, listed⟩ := lap.steady.listed
  have small : id < (rush.state events).tasks.length := by
    rw [length_tasks, listed, List.length_append, size]
    exact Nat.lt_of_lt_of_le old (Nat.mul_le_mul_left 3 (Nat.le_add_right _ _))
  exact isOver_round small (fun task => lap.steady.rested id task old) found

theorem crowd (lap : rush.Lap orders more events event workers) :
    rush.Crowd (orders ++ more) (round events event workers) := by
  refine ⟨lap.steady.poised.round lap.outside lap.quiet, ?_, ?_, ?_, fun _ _ => lap.going,
    fun _ _ => lap.rested⟩
  · obtain ⟨earlier, size, listed⟩ := lap.steady.listed
    refine ⟨earlier, size, ?_⟩
    rw [taken_round, taken_append, listed, lap.taken, List.append_assoc]
  · intro order member
    rcases List.mem_append.mp member with old | new
    · exact lap.steady.takes order old
    · exact lap.takes order new
  · rcases lap.fresh with none_new | ⟨_, now⟩
    · rw [none_new, List.append_nil]
      exact lap.steady.begun.imp_right fun begun => Nat.le_trans begun lap.later
    · exact .inr (Nat.le_of_eq now.symm)

theorem exists_passes (lap : rush.Lap orders more events event workers)
    (found : (rush.state (round events event workers)).tasks[3 * rush.base + seat]? = some next) :
    ∃ leg call, Finds rush (round events event workers) seat next leg call ∧
      Passes rush.settings events event workers (3 * rush.base + seat) next leg call := by
  obtain ⟨leg, call, finds⟩ := lap.crowd.exists_finds found
  have known := finds.known
  rw [← seat_div] at known
  obtain ⟨leg', passes⟩ := Desk.exists_passes lap.outside lap.quiet found known
  obtain ⟨order, placed, legs⟩ := finds.works.order
  obtain ⟨order', placed', legs'⟩ := passes.order
  rw [taken_round] at placed
  rw [seat_div] at placed'
  rw [seat_mod] at legs'
  obtain rfl : order = order' := Option.some.inj (placed.symm.trans placed')
  obtain rfl : leg = leg' := Option.some.inj (legs.symm.trans legs')
  exact ⟨leg, call, finds, passes⟩

theorem origin (lap : rush.Lap orders more events event workers)
    (found : (rush.state (round events event workers)).tasks[3 * rush.base + seat]? = some next) :
    (rush.state events).stageOf (3 * rush.base + seat) = .fresh ∧
        rush.elapsed (round events event workers) = 0 ∨
      (rush.state events).stageOf (3 * rush.base + seat) = rush.stage (rush.elapsed events) seat := by
  cases present : (rush.state events).tasks[3 * rush.base + seat]? with
  | some task =>
      have agrees := lap.steady.agrees _ seat (Nat.lt_succ_self seat) task present
      exact .inr ((State.stageOf_of_found present).trans agrees)
  | none =>
      refine .inl ⟨by simp [State.stageOf, present], ?_⟩
      rcases lap.fresh with none_new | ⟨_, now⟩
      · have bound := (List.getElem?_eq_some_iff.mp found).1
        have outside := List.getElem?_eq_none_iff.mp present
        rw [length_tasks, taken_round, taken_append, lap.taken, none_new, List.append_nil] at bound
        rw [length_tasks] at outside
        exact absurd bound (Nat.not_lt.mpr outside)
      · simp [elapsed, now]

theorem elapsed_le (lap : rush.Lap orders more events event workers) :
    rush.elapsed events ≤ rush.elapsed (round events event workers) ∧
      rush.elapsed (round events event workers) ≤ rush.elapsed events + 1 := by
  have later := lap.later
  have soon := lap.soon
  simp only [elapsed]
  omega

/-- A task is where the plan has it, if those before it are. -/
theorem stage_eq (lap : rush.Lap orders more events event workers)
    (agrees : rush.Agrees (round events event workers) seat)
    (found : (rush.state (round events event workers)).tasks[3 * rush.base + seat]? = some next) :
    next.stage = rush.stage (rush.elapsed (round events event workers)) seat := by
  obtain ⟨leg, call, finds, passes⟩ := lap.exists_passes found
  have crowd := lap.crowd
  obtain ⟨later, soon⟩ := lap.elapsed_le
  have leads := passes.leads
  -- Where the task was before the round leaves few places for it after.
  rcases lap.origin found with ⟨fresh, now⟩ | planned
  · rw [fresh] at leads
    rcases leads with idle | led
    · rcases Desk.stage_cases crowd.poised.quiet found finds.works with
        ⟨queued, _⟩ | ⟨due, busy, _⟩ | ⟨finish, finished, _⟩
      · simp [idle] at queued
      · simp [idle] at busy
      · simp [idle] at finished
    · exact finds.stage_of_led crowd agrees (now ▸ Nat.zero_le _) led
  · rw [planned] at leads
    rcases rush.stage_cases (rush.elapsed events) seat with
      ⟨past, stage⟩ | ⟨⟨early, begun, undone⟩, stage⟩ | ⟨⟨early, waits⟩, stage⟩
    all_goals rw [stage] at leads
    · rw [leads, stage_over (by omega)]
    · rcases leads with busy | ⟨⟨done, in_time⟩, finished⟩ | stopped
      · exact finds.stage_of_busy crowd (Nat.le_trans begun later) busy
      · exact finds.stage_of_done crowd done in_time finished
      · exact finds.stage_of_stopped crowd (Nat.le_trans soon undone) stopped
    · exact finds.stage_of_led crowd agrees (Nat.le_trans soon waits) leads

theorem agrees (lap : rush.Lap orders more events event workers) (seats : Nat) :
    rush.Agrees (round events event workers) seats := by
  -- Seat by seat, since where a courier is depends on those before it.
  induction seats with
  | zero => exact fun seat none_before => absurd none_before (Nat.not_lt_zero seat)
  | succ seats ih =>
      intro seat small task found
      rcases Nat.lt_succ_iff_lt_or_eq.mp small with before | rfl
      · exact ih seat before task found
      · exact lap.stage_eq ih found

theorem timed (lap : rush.Lap orders more events event workers) {time : Nat} {ending : Ending}
    (found : (rush.state (round events event workers)).tasks[3 * rush.base + seat]? = some next)
    (life : next.life = .ended time ending) : time = rush.start + min (rush.span seat) rush.due := by
  obtain ⟨leg, call, finds, passes⟩ := lap.exists_passes found
  have clock := lap.crowd.begun_of_found found
  obtain ⟨later, soon⟩ := lap.elapsed_le
  by_cases already : ∃ finish, (rush.state events).stageOf (3 * rush.base + seat) = .finished finish
  · obtain ⟨finish, finished⟩ := already
    obtain ⟨task, present, stage⟩ := State.exists_of_stageOf finished
    obtain ⟨again, there, same⟩ := exists_over rush.settings event workers present
      (Task.isOver_iff.mpr ⟨finish, stage⟩)
    obtain rfl := Option.some.inj (found.symm.trans there)
    exact lap.steady.timed seat task time ending present (same.symm.trans life)
  · have past : rush.due ≤ rush.elapsed (round events event workers) ∨
        rush.span seat ≤ rush.elapsed (round events event workers) := by
      have stage := lap.stage_eq (lap.agrees seat) found
      rw [State.stage_of_ended life] at stage
      rcases rush.stage_cases (rush.elapsed (round events event workers)) seat with
        ⟨past, _⟩ | ⟨_, busy⟩ | ⟨_, queued⟩
      · exact past
      · simp [busy] at stage
      · simp [queued] at stage
    have going : rush.elapsed events < rush.due ∧ rush.elapsed events < rush.span seat := by
      have span : rush.span seat = rush.lull seat + rush.millis seat := rfl
      rcases lap.origin found with ⟨_, now⟩ | planned
      · have some_time := @due_pos rush
        have positive := finds.works.positive
        rw [finds.millis] at positive
        omega
      · rcases rush.stage_cases (rush.elapsed events) seat with
          ⟨_, stage⟩ | ⟨⟨early, _, undone⟩, _⟩ | ⟨⟨early, waits⟩, _⟩
        · exact absurd ⟨_, planned.trans stage⟩ already
        · exact ⟨early, undone⟩
        · exact ⟨early, span ▸ Nat.lt_add_right _ waits⟩
    have now : time = (rush.state (round events event workers)).clock := by
      refine (passes.timed time ending life).resolve_left ?_
      rintro ⟨task, present, before⟩
      exact already ⟨_, (State.stageOf_of_found present).trans (State.stage_of_ended before)⟩
    omega

theorem steady_round (lap : rush.Lap orders more events event workers) :
    rush.Steady (orders ++ more) (round events event workers) :=
  ⟨lap.crowd, lap.agrees, fun _ _ _ _ => lap.timed⟩

end Lap

end Rush

end OrderDesk
