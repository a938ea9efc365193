import OrderDesk.Proofs.Capacities
import OrderDesk.Proofs.SimultaneousOrders

/-! Orders that all come to an idle desk at one time, when nothing goes wrong and all take as long as
each other. Every order is told what the plan of the rush foresees: its courier is back after as many
rounds of the couriers as there are batches up to its own, and what would take longer than an order may
take is canceled when the order is due. -/

namespace OrderDesk

open Schedule

/-- The report of a step that takes some time, unless the order is due before. -/
def StepReport.timely (due : Nat) (name : String) (millis : Nat) : StepReport :=
  if millis < due then
    { name := name, status := .ok, duration := .ofMillis millis, detail := "" }
  else { name := name, status := .canceled, duration := .ofMillis due, detail := "" }

/-- The answer to an order whose steps take some time, unless the order is due before. -/
def Answer.timely (due : Nat) (orderId : String) (payment vendor courier : Nat) : Answer :=
  let reports := [StepReport.timely due "payment" payment, StepReport.timely due "vendor" vendor,
    StepReport.timely due "courier" courier]
  if max (max payment vendor) courier < due then { status := 200, reply := .ok orderId reports }
  else { status := 504, reply := .failed orderId reports "timeout" "order failed" }

theorem classify_timely {due span : Nat} {ending : Ending}
    (finish : ending.finish = if span < due then .served else .stopped) (name : String) :
    classify name (min span due) ending.outcome = .timely due name span := by
  unfold StepReport.timely
  split at finish
  · rename_i early
    rw [if_pos early, Ending.finish_eq_served.mp finish, Nat.min_eq_left (Nat.le_of_lt early)]
    rfl
  · rename_i late
    rw [if_neg late, Nat.min_eq_right (Nat.le_of_not_lt late)]
    match ending, finish with
    | .returned millis (some failure), finish =>
        have canceled : failure.isCancellation = true := by
          by_contra own
          simp [Ending.finish, own] at finish
        simp [Ending.outcome, classify, canceled]
    | .returned millis none, finish => cases finish
    | .crashed message, finish => cases finish

theorem status_timely (due : Nat) (name : String) (millis : Nat) :
    (StepReport.timely due name millis).status = if millis < due then .ok else .canceled := by
  unfold StepReport.timely
  split <;> rfl

theorem ofReport_timely {due payment vendor courier : Nat} {orderId : String} {report : Report}
    (stands : (Answer.ofReport orderId report).Stands)
    (steps : report.steps = [.timely due "payment" payment, .timely due "vendor" vendor,
      .timely due "courier" courier]) :
    Answer.ofReport orderId report = .timely due orderId payment vendor courier := by
  have told : (Answer.ofReport orderId report).reply.steps = report.steps :=
    Desk.steps_ofReport orderId report
  rw [steps] at told
  have fates : ∀ step ∈ (Answer.ofReport orderId report).reply.steps,
      step.status = .ok ∨ step.status = .canceled := by
    intro step member
    simp only [told, List.mem_cons, List.not_mem_nil, or_false] at member
    rcases member with rfl | rfl | rfl <;> rw [status_timely] <;> split <;> simp
  cases stands with
  | served status _ _ fine =>
      have early : max (max payment vendor) courier < due := by
        simp only [told, List.forall_mem_cons, status_timely, ite_eq_left_iff, reduceCtorEq, imp_false,
          Nat.not_lt, Nat.not_le] at fine
        omega
      have error := Desk.status_ofReport.mp status
      rw [Answer.timely, if_pos early, Answer.ofReport, error, steps]
      rfl
  | timedOut status _ error _ canceled =>
      have late : ¬ max (max payment vendor) courier < due := by
        obtain ⟨step, member, stopped⟩ := canceled
        simp only [told, List.mem_cons, List.not_mem_nil, or_false] at member
        rcases member with rfl | rfl | rfl <;> simp [status_timely] at stopped <;> omega
      rw [Answer.timely, if_neg late]
      cases failed : report.error with
      | none => simp [Answer.ofReport, failed, Reply.ok] at error
      | some failure =>
          simp only [Answer.ofReport, failed, Reply.failed, Option.some.injEq, Refusal.mk.injEq,
            and_true] at status error
          simp only [Answer.ofReport, failed, status, error, steps]
  | refused problem _ _ _ source =>
      obtain ⟨step, member, failed, _⟩ := source
      rcases fates step member with fine | stopped
      · simp [failed] at fine
      · simp [failed] at stopped

namespace Desk

variable {settings : Settings} {events : List Event}

theorem stands_of_ended {id : CallId} {call : Call} {order : Order}
    (found : (stateAfter settings events).calls[id]? = some call)
    (listed : (taken events)[id]? = some order) (ended : call.ended.isSome = true) :
    (Answer.ofReport order.id call.tally.report).Stands := by
  have known := (List.getElem?_eq_some_iff.mp found).1
  rcases exists_handle rfl events known with none_before | ⟨before, order', after, rfl, named, count⟩
  · simp [ofSettings, new, State.start] at none_before
  · have own : (occasion settings before order' after).id = id := by
      rw [← count, Occasion.id, state_opening]
      rfl
    have called : (occasion settings before order' after).call? (orderPipeline.scripts order') =
        some call := by
      rw [Occasion.call?, state_history named, own]
      exact found
    have size := (manned_of_run settings before).size
    rw [taken_append, taken_handle named, ← count, size, List.getElem?_append_right (Nat.le_refl _),
      Nat.sub_self] at listed
    obtain rfl := Option.some.inj listed
    exact stands_ofReport named called ended

def started (orders : List Order) : List Order :=
  orders.filter fun order => !order.id.isEmpty

theorem taken_single (order : Order) : taken [.handle order] = started [order] := by
  cases unnamed : order.id.isEmpty <;> simp [taken, started, Event.taken?, unnamed]

theorem getElem?_started {orders : List Order} {index : Nat} {order : Order}
    (listed : orders[index]? = some order) (named : order.id ≠ "") :
    (started orders)[(started (orders.take index)).length]? = some order := by
  obtain ⟨bound, rfl⟩ := List.getElem?_eq_some_iff.mp listed
  have own : started [orders[index]] = [orders[index]] := by simp [started, named]
  have split : started orders =
      started (orders.take index) ++
        (started [orders[index]] ++ started (orders.drop (index + 1))) := by
    simp only [started, ← List.filter_append, List.singleton_append, List.getElem_cons_drop,
      List.take_append_drop]
  rw [split, own, List.getElem?_append_right (Nat.le_refl _), Nat.sub_self]
  rfl

end Desk

namespace Rush.Steady

open Desk

variable {rush : Rush} {orders : List Order} {events : List Event} {number : Nat} {order : Order}

theorem exists_call (steady : rush.Steady orders events) (listed : orders[number]? = some order) :
    ∃ call, (rush.state events).calls[rush.base + number]? = some call ∧
      (taken events)[rush.base + number]? = some order := by
  obtain ⟨earlier, size, all⟩ := steady.listed
  have placed : (taken events)[rush.base + number]? = some order := by
    rw [all, ← size, List.getElem?_append_right (Nat.le_add_right _ _), Nat.add_sub_cancel_left]
    exact listed
  have bound := (List.getElem?_eq_some_iff.mp placed).1
  rw [← length_calls rush.settings] at bound
  exact ⟨_, List.getElem?_eq_getElem bound, placed⟩

theorem stage_of_late (steady : rush.Steady orders events) (late : rush.due ≤ rush.elapsed events)
    {seat : Nat} {task : Task}
    (found : (rush.state events).tasks[3 * rush.base + seat]? = some task) :
    task.stage = .finished (if rush.span seat < rush.due then .served else .stopped) :=
  (steady.agrees _ seat (Nat.lt_succ_self seat) task found).trans (stage_over (.inl late))

/-- Once the orders of a rush are due, each has its answer. -/
theorem exists_answer (steady : rush.Steady orders events) (late : rush.due ≤ rush.elapsed events)
    (listed : orders[number]? = some order) :
    ∃ stop, (Handler.Progress.processing order.id (rush.base + number)).answer? (rush.state events) =
      some (.timely rush.due order.id rush.payment rush.vendor
        ((number / Limiter.clamp rush.settings.couriers + 1) * rush.courier), stop) := by
  obtain ⟨call, known, placed⟩ := steady.exists_call listed
  obtain ⟨started, going⟩ := steady.going number call known
  obtain ⟨order', charge⟩ := exists_charge rush.settings events known
  have ended := charge.ended_of_over steady.poised.quiet going (fun task found part => by
    obtain ⟨seat, rfl, _⟩ := exists_seat part
    exact ⟨_, steady.stage_of_late late part.present⟩)
  have report {position : Nat} {step : String × Script}
      (named : (orderPipeline.scripts order')[position]? = some step) :
      call.tally.report.steps[position]? =
        some (.timely rush.due step.1 (rush.span (3 * number + position))) := by
    obtain ⟨task, found, time, ending, _, part, duty, life, report⟩ := charge.exists_report ended named
    obtain rfl := seat_of_duty part duty
    have stage := steady.stage_of_late late part.present
    rw [State.stage_of_ended life] at stage
    rw [report, started, steady.timed _ found time ending part.present life, Nat.add_sub_cancel_left,
      classify_timely (Stage.finished.inj stage)]
  have size : call.tally.report.steps.length = 3 := by
    obtain ⟨history, _, attentive⟩ := charge.attentive
    exact attentive.tracks.length_report
  have steps : call.tally.report.steps = [.timely rush.due "payment" rush.payment,
      .timely rush.due "vendor" rush.vendor, .timely rush.due "courier"
        ((number / Limiter.clamp rush.settings.couriers + 1) * rush.courier)] := by
    have payment := @report 0 _ rfl
    have vendor := @report 1 _ rfl
    have courier := @report 2 _ rfl
    rw [Nat.add_zero, span_payment] at payment
    rw [span_vendor] at vendor
    rw [span_courier] at courier
    match call.tally.report.steps, size, payment, vendor, courier with
    | [first, second, third], _, payment, vendor, courier =>
        obtain rfl := Option.some.inj payment
        obtain rfl := Option.some.inj vendor
        obtain rfl := Option.some.inj courier
        rfl
  obtain ⟨⟨stop, cause⟩, same⟩ := Option.isSome_iff_exists.mp ended
  refine ⟨stop, answer_processing.mpr ⟨call, cause, known, same, ?_⟩⟩
  exact (ofReport_timely (stands_of_ended known placed ended) steps).symm

/-! ## The orders come -/

theorem of_slumbers {desk : Desk} (slumbers : Slumbers rush.settings desk events)
    (base : rush.base = desk.state.calls.length) : rush.Steady [] events := by
  obtain ⟨rfl, _, poised, stopped⟩ := slumbers
  have calls : rush.base = (taken events).length := base.trans (length_calls _ _)
  have none_new (seat : Nat) (task : Task) :
      (rush.state events).tasks[3 * rush.base + seat]? ≠ some task := by
    intro found
    have bound := (List.getElem?_eq_some_iff.mp found).1
    rw [length_tasks, ← calls] at bound
    exact absurd bound (Nat.not_lt.mpr (Nat.le_add_right _ _))
  refine ⟨?_, fun seats seat _ task found => absurd found (none_new seat task),
    fun seat task time ending found => absurd found (none_new seat task)⟩
  constructor
  case poised => exact base ▸ poised
  case listed => exact ⟨taken events, calls.symm, (List.append_nil _).symm⟩
  case takes => exact fun order member => by cases member
  case begun => exact .inl rfl
  case going =>
    intro number call known
    have bound := (List.getElem?_eq_some_iff.mp known).1
    rw [length_calls, ← calls] at bound
    exact absurd bound (Nat.not_lt.mpr (Nat.le_add_right _ _))
  case rested => exact fun id task _ found => stopped task (List.mem_of_getElem? found)

theorem exists_tick (steady : rush.Steady orders events) :
    ∃ later, rush.state later =
        ((rush.state events).jump ((rush.state events).clock + 1)).settleNow ∧
      (rush.state later).clock = (rush.state events).clock + 1 ∧ rush.Steady orders later := by
  let event : Event := .jump ((rush.state events).clock + 1)
  obtain ⟨workers, reached, quiet⟩ := exists_round rush.settings events event
  have tick := opening_tick steady.poised
  have clock : (rush.state (round events event workers)).clock = (rush.state events).clock + 1 := by
    rw [clock_round, tick, State.clock_jump]
    exact Nat.max_eq_right (Nat.le_succ _)
  have lap : rush.Lap orders [] events event workers := by
    refine ⟨steady, trivial, by simp [event], quiet, rfl, by simp, ?_, Nat.le_of_eq clock, .inl rfl⟩
    exact clock ▸ Nat.le_succ _
  refine ⟨_, reached.trans (congrArg State.settleNow tick), clock, ?_⟩
  simpa using lap.steady_round

theorem exists_advance (steady : rush.Steady orders events) (time : Nat) :
    ∃ later, rush.state later = (rush.state events).advanceTo time ∧
      (rush.state later).clock = max (rush.state events).clock time ∧ rush.Steady orders later := by
  generalize left : time - (rush.state events).clock = span
  induction span generalizing events with
  | zero =>
      have past : time ≤ (rush.state events).clock := Nat.le_of_sub_eq_zero left
      have early := punctual_run rush.settings events
      exact ⟨events, (State.advanceTo_of_le steady.poised.quiet early past).symm,
        (Nat.max_eq_left past).symm, steady⟩
  | succ span ih =>
      have early := punctual_run rush.settings events
      have ahead : (rush.state events).clock < time := by omega
      obtain ⟨middle, reached, clock, still⟩ := steady.exists_tick
      obtain ⟨later, last, final, kept⟩ := ih still (by omega)
      refine ⟨later, ?_, by omega, kept⟩
      rw [last, reached, State.advanceTo_tick steady.poised.quiet early ahead]

theorem exists_handle (steady : rush.Steady orders events)
    (takes : order.Takes rush.payment rush.vendor rush.courier)
    (now : (rush.state events).clock = rush.start) :
    ∃ later, rush.state later = (opening rush.settings events (.handle order)).settleNow ∧
      (rush.state later).clock = rush.start ∧ rush.Steady (orders ++ started [order]) later := by
  obtain ⟨workers, reached, quiet⟩ := exists_round rush.settings events (.handle order)
  have clock : (rush.state (round events (.handle order) workers)).clock = rush.start := by
    rw [clock_round, clock_opening (by simp), now]
  refine ⟨_, reached, clock, Lap.steady_round ⟨steady, trivial, by simp, quiet, taken_single order, ?_,
    Nat.le_of_eq (now.trans clock.symm), ?_, .inr ⟨now, clock⟩⟩⟩
  · intro other member
    obtain rfl := List.mem_singleton.mp (List.mem_of_mem_filter member)
    exact takes
  · rw [clock, now]
    exact Nat.le_succ _

end Rush.Steady

namespace Desk

variable {settings : Settings} {desk : Desk}

def rushAt (time : Nat) (orders : List Order) : Shift Visit :=
  { arrivals := orders.map fun order => (time, .order order), probes := [] }

theorem events_rushAt (time : Nat) (orders : List Order) :
    (rushAt time orders).events =
      orders.mapIdx fun number order => (time, .arrival number (.order order)) := by
  have arrivals : ((rushAt time orders).arrivals.mapIdx fun number arrival =>
      (arrival.1, Shift.Event.arrival number arrival.2)) =
        orders.mapIdx fun number order => (time, .arrival number (.order order)) := by
    refine List.ext_getElem? fun index => ?_
    simp [rushAt, List.getElem?_mapIdx, Function.comp_def]
  have probes : (rushAt time orders).probes = [] := rfl
  rw [Shift.events, arrivals, probes, List.map_nil, List.append_nil]
  refine List.mergeSort_of_pairwise (List.pairwise_of_forall_mem_list ?_)
  intro first member second member'
  obtain ⟨_, _, rfl⟩ := List.mem_mapIdx.mp member
  obtain ⟨_, _, rfl⟩ := List.mem_mapIdx.mp member'
  exact decide_eq_true (Nat.le_refl time)

structure Receives (rush : Rush) (time : Nat) (orders : List Order)
    (record : Shift.Record (Option Handler.Progress)) : Prop where
  steady : ∃ events, rush.state events = record.state ∧ rush.Steady (started orders) events
  clock : max record.state.clock time = rush.start
  size : record.taken.length = orders.length
  taken : ∀ (index : Nat) (order : Order), orders[index]? = some order → order.id ≠ "" →
    record.taken[index]? = some ⟨index,
      some (.processing order.id (rush.base + (started (orders.take index)).length))⟩

theorem Receives.play {rush : Rush} {time : Nat} {orders : List Order} {order : Order}
    {record : Shift.Record (Option Handler.Progress)} (receives : Receives rush time orders record)
    (handler : desk.handler = (ofSettings rush.settings).handler)
    (takes : order.Takes rush.payment rush.vendor rush.courier) :
    Receives rush time (orders ++ [order])
      (Shift.play desk.receive record (time, .arrival orders.length (.order order))) := by
  obtain ⟨events, reached, steady⟩ := receives.steady
  obtain ⟨middle, waited, clock, still⟩ := steady.exists_advance time
  rw [reached] at waited clock
  rw [receives.clock] at clock
  obtain ⟨later, next, now, kept⟩ := still.exists_handle takes clock
  have accepted : desk.handler.accept (rush.state middle) order =
      desk.handler.accept (record.state.advanceTo time) order :=
    congrArg (desk.handler.accept · order) waited
  have played : rush.state later = (Shift.play desk.receive record
      (time, .arrival orders.length (.order order))).state :=
    next.trans ((congrArg State.settleNow (opening_handle handler middle order)).trans
      (congrArg (fun taken => taken.1.settleNow) accepted))
  have entry : (Shift.play desk.receive record (time, .arrival orders.length (.order order))).taken =
      record.taken ++ [⟨orders.length, some (desk.handler.accept (rush.state middle) order).2⟩] := by
    rw [accepted]
    rfl
  have number : (rush.state middle).calls.length = rush.base + (started orders).length := by
    obtain ⟨earlier, size, listed⟩ := still.listed
    rw [length_calls, listed, List.length_append, size]
  constructor
  case steady =>
    refine ⟨later, played, ?_⟩
    rwa [started, List.filter_append]
  case clock =>
    rw [← played, now]
    exact Nat.max_eq_left (receives.clock ▸ Nat.le_max_right _ _)
  case size => rw [entry, List.length_append, List.length_append, receives.size]; rfl
  case taken =>
    intro index other listed named
    rw [entry]
    rcases Nat.lt_or_ge index orders.length with before | last
    · rw [List.getElem?_append_left before] at listed
      rw [List.getElem?_append_left (receives.size ▸ before),
        List.take_append_of_le_length (Nat.le_of_lt before)]
      exact receives.taken index other listed named
    · have bound := (List.getElem?_eq_some_iff.mp listed).1
      obtain rfl : index = orders.length := by
        rw [List.length_append, List.length_singleton] at bound
        omega
      rw [List.getElem?_concat_length] at listed
      obtain rfl := Option.some.inj listed
      rw [← receives.size, List.getElem?_concat_length, receives.size, List.take_left, progress_accept,
        if_neg (by simpa using named), number]

theorem exists_steady_serve {rush : Rush} {events : List Event}
    (slumbers : Slumbers rush.settings desk events) (base : rush.base = desk.state.calls.length)
    {time : Nat} (start : rush.start = max desk.state.clock time) {orders : List Order}
    (takes : ∀ order ∈ orders, order.Takes rush.payment rush.vendor rush.courier) :
    ∃ later, (rush.state later).calls = (desk.serve (rushAt time orders)).state.calls ∧
      rush.Steady (started orders) later ∧ rush.due ≤ rush.elapsed later ∧
      ∀ (index : Nat) (order : Order), orders[index]? = some order → order.id ≠ "" →
        (desk.serve (rushAt time orders)).taken[index]? = some ⟨index,
          some (.processing order.id (rush.base + (started (orders.take index)).length))⟩ := by
  have receives : Receives rush time orders ((rushAt time orders).events.foldl
      (Shift.play desk.receive) { state := desk.state, taken := [], probes := [] }) := by
    rw [events_rushAt]
    induction orders using List.reverseRecOn with
    | nil =>
        refine ⟨⟨events, ?_, Rush.Steady.of_slumbers slumbers base⟩, start.symm, rfl, ?_⟩
        · exact congrArg Desk.state slumbers.same
        · exact fun index order listed => by cases listed
    | append_singleton orders order ih =>
        rw [List.mapIdx_concat, List.foldl_append]
        refine (ih fun other member => takes other (List.mem_append_left _ member)).play
          slumbers.handler (takes order (List.mem_append_right _ List.mem_cons_self))
  obtain ⟨before, reached, steady⟩ := receives.steady
  let final := (desk.serve (rushAt time orders)).state.clock
  obtain ⟨later, last, clock, kept⟩ := steady.exists_advance (max final (rush.start + rush.due))
  refine ⟨later, ?_, kept, ?_, receives.taken⟩
  · rw [last, reached]
    exact State.calls_advanceTo (Nat.le_max_left final _)
  · rw [Rush.elapsed, clock]
    omega

/-- Orders that all come to an idle desk at one time, ask for no failure and whose steps take as long as
each other. The courier of an order is back after as many times its own time as there are batches up to
that of the order, and whatever takes as long as an order may take is canceled when that time is up. -/
theorem served_in_batches (idles : Idles settings desk) (time payment vendor courier : Nat)
    (orders : List Order) (takes : ∀ order ∈ orders, order.Takes payment vendor courier) :
    let couriers := Limiter.clamp settings.couriers
    let record := desk.serve (rushAt time orders)
    ∀ (index : Nat) (order : Order), orders[index]? = some order → order.id ≠ "" →
      let number := (started (orders.take index)).length
      ∃ progress stop, record.taken[index]? = some ⟨index, some progress⟩ ∧
        progress.answer? record.state = some (.timely settings.requestTimeout order.id payment vendor
          ((number / couriers + 1) * courier), stop) := by
  intro couriers record index order listed named number
  obtain ⟨events, slumbers⟩ := exists_slumbers idles
  let rush : Rush := {
    settings := settings
    base := desk.state.calls.length
    start := max desk.state.clock time
    payment := payment
    vendor := vendor
    courier := courier }
  obtain ⟨later, calls, steady, late, taken⟩ :=
    @exists_steady_serve desk rush events slumbers rfl time rfl orders takes
  have place : (started orders)[number]? = some order := getElem?_started listed named
  obtain ⟨stop, answered⟩ := steady.exists_answer late place
  rw [answer_congr calls] at answered
  exact ⟨_, stop, taken index order listed named, answered⟩

/-- With two couriers, the third batch would be back just when its order is due. -/
theorem served_in_batches_due :
    let settings : Settings := { couriers := 2, timeoutMillis := 300, logFormat := .pretty }
    let orders : List Order :=
      [.new "first" 5, .new "second" 5, .new "third" 5, .new "fourth" 5, .new "fifth" 5]
    let record := (ofSettings settings).serve (rushAt 40 orders)
    ∃ progress stop, record.taken[4]? = some ⟨4, some progress⟩ ∧
      progress.answer? record.state = some ({
        status := 504
        reply := .failed "fifth"
          [⟨"payment", .ok, .ofMillis 150, ""⟩, ⟨"vendor", .ok, .ofMillis 200, ""⟩,
            ⟨"courier", .canceled, .ofMillis 300, ""⟩] "timeout" "order failed" }, stop) := by
  intro settings orders record
  have takes : ∀ order ∈ orders, order.Takes 150 200 100 := by
    intro order member
    simp only [orders, List.mem_cons, List.not_mem_nil, or_false] at member
    rcases member with rfl | rfl | rfl | rfl | rfl <;>
      exact ⟨by decide, by decide, rfl, rfl, rfl⟩
  obtain ⟨progress, stop, listed, answered⟩ :=
    served_in_batches (.fresh : Idles settings _) 40 150 200 100 orders takes 4 _ rfl (by decide)
  exact ⟨progress, stop, listed,
    answered.trans (congrArg (fun answer => some (answer, stop)) (by decide))⟩

end Desk

end OrderDesk
