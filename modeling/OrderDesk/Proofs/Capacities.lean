import Mathlib
import OrderDesk.Proofs.Comparisons
import OrderDesk.Proofs.Ticks
import OrderDesk.Shift

/-! More couriers never hurt. Two idle desks that differ only in the number of their couriers are given
the same shift: orders that come at the same times, some of which are given up later. Whatever is
served with fewer couriers is served with more, and its courier takes no longer. -/

namespace OrderDesk

open Schedule

/-- What comes to a desk: an order, or word that one is given up. The orders that are taken on count
from when the desk was idle. -/
inductive Visit where
  | order (order : Order)
  | drop (number : Nat)

def Reply.courier? (reply : Reply) : Option StepReport :=
  reply.steps.find? fun report => report.name == "courier"

namespace Desk

variable {settings : Settings} {desk : Desk}

/-- What a desk that was idle does with a visit, in a state that it has come to since. -/
def receive (desk : Desk) (state : State) : Visit → State × Option Handler.Progress
  | .order order =>
      let (state, progress) := desk.handler.accept state order
      (state, some progress)
  | .drop number => (state.abortCall (desk.state.calls.length + number), none)

def serve (desk : Desk) (shift : Shift Visit) : Shift.Record (Option Handler.Progress) :=
  shift.run desk.receive desk.state

theorem run_jump (settings : Settings) (time : Nat) :
    (ofSettings settings).run [.jump time] =
      { handler := (ofSettings settings).handler
        state := { State.start (.new settings.couriers) with clock := time } } := by
  simp [run, apply, ofSettings, new, State.apply, State.canJump, State.start, State.jump,
    State.wakeAll]

theorem limiter_of_idle {limiter : Limiter} {requested : Int}
    (capacity : limiter.capacity = Limiter.clamp requested)
    (free : limiter.free = Limiter.clamp requested) (nobody : limiter.line = []) :
    limiter = .new requested := by
  obtain ⟨total, unheld, waiting, granted⟩ := limiter
  obtain ⟨rfl, rfl⟩ := List.append_eq_nil_iff.mp nobody
  simp only at capacity free
  rw [capacity, free]
  rfl

theorem exists_run_of_idles (idles : Idles settings desk) :
    ∃ events, (ofSettings settings).run events = desk := by
  induction idles with
  | fresh => exact ⟨[], rfl⟩
  | rested desk events _ _ _ ih =>
      obtain ⟨before, rfl⟩ := ih
      exact ⟨before ++ events, run_append _ _ _⟩
  | handled desk order idles _ =>
      obtain ⟨history, rests⟩ := rests_of_idles (.handled desk order idles)
      -- All that is left of a desk that forgets its orders is the time.
      let idle := (desk.handle? order).1
      have limiter : idle.state.limiter = .new settings.couriers := by
        exact limiter_of_idle rests.capacity rests.free.2 rests.nobody
      have empty : idle.state =
          { State.start (.new settings.couriers) with clock := idle.state.clock } := by
        have restarted : idle.state = idle.state.restart := rfl
        rw [restarted, State.restart, limiter, rests.free.1]
        rfl
      refine ⟨[.jump idle.state.clock], ?_⟩
      rw [run_jump, ← empty, ← rests.handler]

theorem stageOf_of_le (settings : Settings) (events : List Event) (seat : Nat) :
    (stateAfter settings events).stageOf (3 * (stateAfter settings events).calls.length + seat) =
      .fresh := by
  have outside : (stateAfter settings events).tasks.length ≤
      3 * (stateAfter settings events).calls.length + seat := by
    rw [length_tasks, length_calls]
    exact Nat.le_add_right _ _
  rw [State.stageOf, List.getElem?_eq_none_iff.mpr outside]
  rfl

/-- An idle desk is one to which something has happened, and at which all is over. -/
structure Slumbers (settings : Settings) (desk : Desk) (events : List Event) : Prop where
  same : (ofSettings settings).run events = desk
  handler : desk.handler = (ofSettings settings).handler
  poised : Poised settings desk.state.calls.length events
  stopped : ∀ task ∈ desk.state.tasks, task.isOver = true

theorem exists_slumbers (idles : Idles settings desk) : ∃ events, Slumbers settings desk events := by
  obtain ⟨history, rests⟩ := rests_of_idles idles
  obtain ⟨events, rfl⟩ := exists_run_of_idles idles
  refine ⟨events, rfl, rests.handler, ⟨rests.quiet, ?_, ?_⟩, rests.stopped⟩
  · intro id waits
    have line := rests.nobody
    have member : id ∈ ((ofSettings settings).run events).state.limiter.line :=
      List.mem_append_right _ waits
    rw [line] at member
    cases member
  · intro id call new known
    exact absurd (List.getElem?_eq_some_iff.mp known).1 (Nat.not_lt.mpr new)

section

variable {few many : Settings} {scarce ample : Desk} {events events' : List Event}

theorem Slumbers.outpaces (slumbers : Slumbers few scarce events)
    (slumbers' : Slumbers many ample events') (clock : ample.state.clock = scarce.state.clock) :
    Outpaces few many scarce.state.calls.length ample.state.calls.length events events' := by
  obtain ⟨rfl, _, poised, _⟩ := slumbers
  obtain ⟨rfl, _, poised', stopped'⟩ := slumbers'
  have size := length_calls few events
  have size' := length_calls many events'
  constructor
  case scarce => exact poised
  case ample => exact poised'
  case clock => exact clock
  case known => exact Nat.le_of_eq size
  case known' => exact Nat.le_of_eq size'
  case orders => rw [size, size', List.drop_length, List.drop_length]
  case started =>
    intro number call call' known
    exact absurd (List.getElem?_eq_some_iff.mp known).1 (Nat.not_lt.mpr (Nat.le_add_right _ _))
  case rested => exact fun id task _ found => stopped' task (List.mem_of_getElem? found)
  case ahead =>
    intro seat
    rw [stageOf_of_le few events seat, stageOf_of_le many events' seat]
    trivial
  case sooner =>
    intro seat task task' time time' ending ending' found
    have bound := (List.getElem?_eq_some_iff.mp found).1
    rw [length_tasks, ← size] at bound
    exact absurd bound (Nat.not_lt.mpr (Nat.le_add_right _ _))
  case fair =>
    intro number order listed
    have bound := (List.getElem?_eq_some_iff.mp listed).1
    rw [← size] at bound
    exact absurd bound (Nat.not_lt.mpr (Nat.le_add_right _ _))

theorem clock_opening {event : Event} (timeless : ∀ time, event ≠ .jump time) (settings : Settings)
    (events : List Event) :
    (opening settings events event).clock = (stateAfter settings events).clock := by
  obtain ⟨after, same, effect⟩ := exists_effect_opening settings events event
  rw [same]
  cases effect with
  | refused unnamed => rfl
  | opened named state context _ _ _ clock => exact (State.opened_openCall _ _ _).clock.trans clock
  | @moved _ move kind =>
      rcases State.clock_apply (stateAfter settings events) move with same | ⟨time, rfl, _⟩
      · exact same
      · cases event with
        | jump time => exact absurd rfl (timeless time)
        | handle order => cases kind
        | drop call => cases kind
        | turn worker => cases kind

variable {base base' : Nat}

theorem Outpaces.exists_round (outpaces : Outpaces few many base base' events events')
    (timeout : many.requestTimeout = few.requestTimeout)
    (fewer : Limiter.clamp few.couriers ≤ Limiter.clamp many.couriers) {event event' : Event}
    (same : event.Matches base base' event')
    (clock : (opening many events' event').clock = (opening few events event).clock) :
    ∃ later later', stateAfter few later = (opening few events event).settleNow ∧
      stateAfter many later' = (opening many events' event').settleNow ∧
      Outpaces few many base base' later later' := by
  obtain ⟨workers, reached, quiet⟩ := Desk.exists_round few events event
  obtain ⟨workers', reached', quiet'⟩ := Desk.exists_round many events' event'
  have both : SideBySide ⟨few, base, events, event, workers⟩
      ⟨many, base', events', event', workers'⟩ := by
    refine ⟨outpaces, same, ?_, quiet, quiet', timeout, fewer⟩
    exact (clock_round many events' event' workers').trans
      (clock.trans (clock_round few events event workers).symm)
  exact ⟨_, _, reached, reached', both.round⟩

theorem opening_tick (poised : Poised few base events) :
    opening few events (.jump ((stateAfter few events).clock + 1)) =
      (stateAfter few events).jump ((stateAfter few events).clock + 1) := by
  have possible : (stateAfter few events).canJump ((stateAfter few events).clock + 1) = true := by
    have early := punctual_run few events
    simpa [State.canJump, poised.quiet, Nat.succ_le_iff, State.Punctual] using early
  exact if_pos possible

theorem Outpaces.exists_advance (outpaces : Outpaces few many base base' events events')
    (timeout : many.requestTimeout = few.requestTimeout)
    (fewer : Limiter.clamp few.couriers ≤ Limiter.clamp many.couriers) (time : Nat) :
    ∃ later later', stateAfter few later = (stateAfter few events).advanceTo time ∧
      stateAfter many later' = (stateAfter many events').advanceTo time ∧
      Outpaces few many base base' later later' := by
  generalize left : time - (stateAfter few events).clock = span
  induction span using Nat.strongRecOn generalizing events events' with
  | ind span ih =>
      have early := punctual_run few events
      have early' := punctual_run many events'
      have same := outpaces.clock
      rcases Nat.lt_or_ge (stateAfter few events).clock time with ahead | past
      · have ahead' : (stateAfter many events').clock < time := same.trans_lt ahead
        have tick := opening_tick outpaces.scarce
        have tick' := opening_tick outpaces.ample
        have on := State.advanceTo_tick outpaces.scarce.quiet early ahead
        have on' := State.advanceTo_tick outpaces.ample.quiet early' ahead'
        rw [← tick] at on
        rw [← tick', same] at on'
        rw [same] at tick'
        obtain ⟨middle, middle', reached, reached', still⟩ := outpaces.exists_round timeout fewer
          (.jump ((stateAfter few events).clock + 1)) (by
            rw [tick, tick', State.clock_jump, State.clock_jump, same])
        rw [← reached] at on
        rw [← reached'] at on'
        have later : (stateAfter few events).clock < (stateAfter few middle).clock := by
          rw [reached, tick]
          refine Nat.lt_of_lt_of_le ?_ (State.clock_le_settle _ _)
          rw [State.clock_jump]
          omega
        rw [← on, ← on']
        exact ih _ (by omega) still rfl
      · refine ⟨events, events', ?_, ?_, outpaces⟩
        · rw [State.advanceTo_of_le outpaces.scarce.quiet early past]
        · rw [State.advanceTo_of_le outpaces.ample.quiet early' (same ▸ past)]

inductive Twins (base base' : Nat) :
    Shift.Taken (Option Handler.Progress) → Shift.Taken (Option Handler.Progress) → Prop
  | dropped (place : Nat) : Twins base base' ⟨place, none⟩ ⟨place, none⟩
  | refused (place time : Nat) : Twins base base' ⟨place, some (.answered .missingOrderId time)⟩
      ⟨place, some (.answered .missingOrderId time)⟩
  | processing (place : Nat) (orderId : String) (number : Nat) :
      Twins base base' ⟨place, some (.processing orderId (base + number))⟩
        ⟨place, some (.processing orderId (base' + number))⟩

structure Alike (few many : Settings) (base base' : Nat)
    (record record' : Shift.Record (Option Handler.Progress)) : Prop where
  outpaces : ∃ events events', stateAfter few events = record.state ∧
    stateAfter many events' = record'.state ∧ Outpaces few many base base' events events'
  taken : List.Forall₂ (Twins base base') record.taken record'.taken

theorem progress_accept (handler : Handler) (state : State) (order : Order) :
    (handler.accept state order).2 =
      if order.id.isEmpty then .answered .missingOrderId state.clock
      else .processing order.id state.calls.length := by
  unfold Handler.accept
  split <;> rfl

theorem Outpaces.twins (outpaces : Outpaces few many base base' events events') (place : Nat)
    (handler handler' : Handler) (order : Order) :
    Twins base base' ⟨place, some (handler.accept (stateAfter few events) order).2⟩
      ⟨place, some (handler'.accept (stateAfter many events') order).2⟩ := by
  rw [progress_accept, progress_accept]
  split
  · rw [outpaces.clock]
    exact .refused place _
  · have same := congrArg List.length outpaces.orders
    rw [List.length_drop, List.length_drop] at same
    obtain ⟨number, size⟩ := Nat.exists_eq_add_of_le outpaces.known
    have size' : (taken events').length = base' + number := by
      have known' := outpaces.known'
      omega
    rw [length_calls, length_calls, size, size']
    exact .processing place order.id number

theorem settleNow_eq (poised : Poised few base events) :
    (stateAfter few events).settleNow = stateAfter few events :=
  State.settle_of_tick_eq_none (State.tick_of_early poised.quiet fun _ next =>
    State.lt_nextDue (punctual_run few events) next)

theorem opening_handle (handler : scarce.handler = (ofSettings few).handler) (events : List Event)
    (order : Order) : opening few events (.handle order) =
      (scarce.handler.accept (stateAfter few events) order).1 := by
  rw [handler, ← handler_run (ofSettings few) events]
  rfl

theorem Alike.play {record record' : Shift.Record (Option Handler.Progress)}
    (alike : Alike few many scarce.state.calls.length ample.state.calls.length record record')
    (timeout : many.requestTimeout = few.requestTimeout)
    (fewer : Limiter.clamp few.couriers ≤ Limiter.clamp many.couriers)
    (handler : scarce.handler = (ofSettings few).handler)
    (handler' : ample.handler = (ofSettings many).handler) (event : Nat × Shift.Event Visit) :
    Alike few many scarce.state.calls.length ample.state.calls.length
      (Shift.play scarce.receive record event) (Shift.play ample.receive record' event) := by
  obtain ⟨before, before', reached, reached', outpaces⟩ := alike.outpaces
  obtain ⟨time, event⟩ := event
  obtain ⟨events, events', now, now', ahead⟩ := outpaces.exists_advance timeout fewer time
  rw [reached] at now
  rw [reached'] at now'
  simp only [Shift.play]
  rw [← now, ← now']
  cases event with
  | probe =>
      refine ⟨⟨events, events', ?_, ?_, ahead⟩, alike.taken⟩
      · exact (settleNow_eq ahead.scarce).symm
      · exact (settleNow_eq ahead.ample).symm
  | arrival place visit =>
      cases visit with
      | order order =>
          have clock : (opening many events' (.handle order)).clock =
              (opening few events (.handle order)).clock := by
            rw [clock_opening (by simp), clock_opening (by simp), ahead.clock]
          obtain ⟨later, later', next, next', still⟩ :=
            ahead.exists_round timeout fewer (.handle order) clock
          rw [opening_handle handler] at next
          rw [opening_handle handler'] at next'
          refine ⟨⟨later, later', next, next', still⟩, ?_⟩
          refine List.rel_append alike.taken (.cons ?_ .nil)
          exact ahead.twins place scarce.handler ample.handler order
      | drop number =>
          have clock : (opening many events' (.drop (ample.state.calls.length + number))).clock =
              (opening few events (.drop (scarce.state.calls.length + number))).clock := by
            rw [clock_opening (by simp), clock_opening (by simp), ahead.clock]
          obtain ⟨later, later', next, next', still⟩ :=
            ahead.exists_round timeout fewer (.drop number) clock
          refine ⟨⟨later, later', next, next', still⟩, ?_⟩
          exact List.rel_append alike.taken (.cons (.dropped place) .nil)

theorem exists_outpaces_serve (slumbers : Slumbers few scarce events)
    (slumbers' : Slumbers many ample events') (clock : ample.state.clock = scarce.state.clock)
    (timeout : many.requestTimeout = few.requestTimeout)
    (fewer : Limiter.clamp few.couriers ≤ Limiter.clamp many.couriers) (shift : Shift Visit) :
    ∃ later later', (stateAfter few later).calls = (scarce.serve shift).state.calls ∧
      (stateAfter many later').calls = (ample.serve shift).state.calls ∧
      Outpaces few many scarce.state.calls.length ample.state.calls.length later later' ∧
      List.Forall₂ (Twins scarce.state.calls.length ample.state.calls.length)
        (scarce.serve shift).taken (ample.serve shift).taken := by
  have alike (visits : List (Nat × Shift.Event Visit)) :
      ∀ record record' : Shift.Record (Option Handler.Progress),
        Alike few many scarce.state.calls.length ample.state.calls.length record record' →
        Alike few many scarce.state.calls.length ample.state.calls.length
          (visits.foldl (Shift.play scarce.receive) record)
          (visits.foldl (Shift.play ample.receive) record') := by
    induction visits with
    | nil => exact fun record record' start => start
    | cons visit visits ih =>
        intro record record' start
        exact ih _ _ (start.play timeout fewer slumbers.handler slumbers'.handler visit)
  have start : Alike few many scarce.state.calls.length ample.state.calls.length
      { state := scarce.state, taken := [], probes := [] }
      { state := ample.state, taken := [], probes := [] } :=
    ⟨⟨events, events', congrArg Desk.state slumbers.same, congrArg Desk.state slumbers'.same,
      slumbers.outpaces slumbers' clock⟩, .nil⟩
  have reached := alike shift.events _ _ start
  obtain ⟨before, before', now, now', outpaces⟩ := reached.outpaces
  -- Both desks wait until everything has settled at either.
  let final := (scarce.serve shift).state.clock
  let final' := (ample.serve shift).state.clock
  obtain ⟨later, later', last, last', ahead⟩ := outpaces.exists_advance timeout fewer (max final final')
  refine ⟨later, later', ?_, ?_, ahead, reached.taken⟩
  · rw [last, now]
    exact State.calls_advanceTo (Nat.le_max_left final final')
  · rw [last', now']
    exact State.calls_advanceTo (Nat.le_max_right final final')

/-! ## Answers -/

theorem answer_congr {state after : State} (calls : state.calls = after.calls)
    (progress : Handler.Progress) : progress.answer? state = progress.answer? after := by
  cases progress with
  | answered answer time => rfl
  | processing orderId call => simp only [Handler.Progress.answer?, calls]

theorem duration_classify (name : String) (millis : Nat) (outcome : Outcome) :
    (classify name millis outcome).duration = .ofMillis millis := by
  unfold classify
  split
  · rfl
  · split <;> rfl

theorem steps_ofReport (orderId : String) (report : Report) :
    (Answer.ofReport orderId report).reply.steps = report.steps := by
  unfold Answer.ofReport
  split <;> rfl

theorem exists_courier {orders : List Order} {state : State} {id : CallId} {call : Call} {order : Order}
    (charge : Charge settings orders state id call order) (ended : call.ended.isSome = true)
    (orderId : String) :
    ∃ task found time ending, IsPart state id task found ∧ found.duty = some ⟨id, 2⟩ ∧
      found.life = .ended time ending ∧ (Answer.ofReport orderId call.tally.report).reply.courier? =
        some (classify "courier" (time - call.started) ending.outcome) := by
  have named : ∃ body, (orderPipeline.scripts order)[2]? = some ("courier", body) := ⟨_, rfl⟩
  obtain ⟨body, named⟩ := named
  obtain ⟨task, found, time, ending, _, part, duty, life, report⟩ := charge.exists_report ended named
  refine ⟨task, found, time, ending, part, duty, life, ?_⟩
  have names : call.tally.report.steps.map StepReport.name = ["payment", "vendor", "courier"] := by
    obtain ⟨history, rfl, attentive⟩ := charge.attentive
    exact attentive.tracks.names_report
  rw [Reply.courier?, steps_ofReport]
  match steps : call.tally.report.steps with
  | [first, second, third] =>
      rw [steps] at names report
      simp only [List.map_cons, List.map_nil, List.cons.injEq] at names
      obtain ⟨payment, vendor, courier, _⟩ := names
      simp only [List.getElem?_cons_succ, List.getElem?_cons_zero, Option.some.injEq] at report
      simp [payment, vendor, courier, ← report]
  | [] | [_] | [_, _] | _ :: _ :: _ :: _ :: _ => simp [steps] at names

theorem answer_processing {state : State} {orderId : String} {id : CallId} {answer : Answer}
    {time : Nat} : (Handler.Progress.processing orderId id).answer? state = some (answer, time) ↔
      ∃ call cause, state.calls[id]? = some call ∧ call.ended = some (time, cause) ∧
        answer = .ofReport orderId call.tally.report := by
  simp only [Handler.Progress.answer?, Option.bind_eq_bind, Option.bind_eq_some_iff,
    Option.pure_def, Option.some.injEq, Prod.mk.injEq]
  constructor
  · rintro ⟨call, found, ⟨stop, cause⟩, ended, rfl, rfl⟩
    exact ⟨call, cause, found, ended, rfl⟩
  · rintro ⟨call, cause, found, ended, rfl⟩
    exact ⟨call, found, (time, cause), ended, rfl, rfl⟩

theorem status_ofReport {orderId : String} {report : Report} :
    (Answer.ofReport orderId report).status = 200 ↔ report.error = none := statusFor_eq_ok

theorem exists_part_of_seat {number seat : Nat} {call : Call}
    (known : (stateAfter few events).calls[base + number]? = some call) (own : seat / 3 = number) :
    ∃ found, IsPart (stateAfter few events) (base + number) (3 * base + seat) found := by
  have bound := (List.getElem?_eq_some_iff.mp known).1
  rw [length_calls] at bound
  have small : 3 * base + seat < (stateAfter few events).tasks.length := by
    rw [length_tasks]
    omega
  refine ⟨_, isPart_of_found (List.getElem?_eq_getElem small) ?_⟩
  rw [seat_div, own]

theorem seat_of_duty {number position : Nat} {id : TaskId} {found : Task}
    (part : IsPart (stateAfter few events) (base + number) id found)
    (duty : found.duty = some ⟨base + number, position⟩) :
    id = 3 * base + (3 * number + position) := by
  have call : id / 3 = base + number := call_of_isPart part
  obtain ⟨_, _, _, _, works, _⟩ := exists_leg part.present
  have seat : id % 3 = position :=
    congrArg Duty.position (Option.some.inj (works.works.symm.trans duty))
  have arithmetic (id : Nat) (call : id / 3 = base + number) (seat : id % 3 = position) :
      id = 3 * base + (3 * number + position) := by omega
  exact arithmetic id call seat

theorem willing_of_served {number : Nat} {call : Call} {order : Order}
    (quiet : (stateAfter few events).ready = [])
    (known : (stateAfter few events).calls[base + number]? = some call)
    (listed : (taken events)[base + number]? = some order)
    (served : ∀ task found, IsPart (stateAfter few events) (base + number) task found →
      found.stage = .finished .served) : ∀ leg ∈ order.legs, leg.finish = .served := by
  intro leg member
  obtain ⟨position, legs⟩ := List.getElem?_of_mem member
  have small : position < 3 := (List.getElem?_eq_some_iff.mp legs).1
  obtain ⟨found, part⟩ := exists_part_of_seat known
    (show (3 * number + position) / 3 = number by omega)
  obtain ⟨order', leg', listed', legs', works, _⟩ := exists_leg part.present
  have call : (3 * base + (3 * number + position)) / 3 = base + number := by omega
  have place : (3 * base + (3 * number + position)) % 3 = position := by omega
  rw [call] at listed'
  rw [place] at legs'
  obtain rfl : order = order' := Option.some.inj (listed.symm.trans listed')
  obtain rfl : leg = leg' := Option.some.inj (legs.symm.trans legs')
  have stage := served _ found part
  rcases finish_of_over quiet part.present works stage with other | own
  · cases other
  · exact own.symm

theorem Outpaces.not_isSpoilt (outpaces : Outpaces few many base base' events events')
    {number : Nat} {call : Call} {order : Order}
    (known : (stateAfter few events).calls[base + number]? = some call)
    (listed : (taken events)[base + number]? = some order)
    (served : ∀ task found, IsPart (stateAfter few events) (base + number) task found →
      found.stage = .finished .served) : ¬ IsSpoilt (stateAfter many events') base' number := by
  intro spoilt
  have willing := willing_of_served outpaces.scarce.quiet known listed served
  obtain ⟨seat, finish, own, finished, bad⟩ := outpaces.fair number order listed willing spoilt
  obtain ⟨found, part⟩ := exists_part_of_seat known own
  rw [State.stageOf_of_found part.present, served _ found part] at finished
  exact bad (Stage.finished.inj finished).symm

theorem Outpaces.part_served (outpaces : Outpaces few many base base' events events')
    {number : Nat} {call : Call} (known : (stateAfter few events).calls[base + number]? = some call)
    (served : ∀ task found, IsPart (stateAfter few events) (base + number) task found →
      found.stage = .finished .served)
    (sound : ¬ IsSpoilt (stateAfter many events') base' number) {task : TaskId} {found : Task}
    (part : IsPart (stateAfter many events') (base' + number) task found) :
    found.stage = .finished .served := by
  obtain ⟨seat, rfl, own⟩ := exists_seat part
  obtain ⟨old, part'⟩ := exists_part_of_seat known own
  have ahead := outpaces.ahead seat
  rw [State.stageOf_of_found part'.present, served _ old part',
    State.stageOf_of_found part.present] at ahead
  obtain ⟨finish, finished⟩ := ahead.finished
  by_cases bad : finish = .served
  · exact bad ▸ finished
  · exact absurd ⟨seat, finish, own, (State.stageOf_of_found part.present).trans finished, bad⟩ sound

theorem Outpaces.courier_sooner (outpaces : Outpaces few many base base' events events')
    {number : Nat} {call call' : Call} {order order' : Order}
    (charge : Charge few (taken events) (stateAfter few events) (base + number) call order)
    (charge' : Charge many (taken events') (stateAfter many events') (base' + number) call' order')
    (ended : call.ended.isSome = true) (ended' : call'.ended.isSome = true)
    (known : (stateAfter few events).calls[base + number]? = some call)
    (known' : (stateAfter many events').calls[base' + number]? = some call') (orderId : String) :
    ∃ courier courier',
      (Answer.ofReport orderId call.tally.report).reply.courier? = some courier ∧
      (Answer.ofReport orderId call'.tally.report).reply.courier? = some courier' ∧
      courier'.duration.millis ≤ courier.duration.millis := by
  obtain ⟨task, found, due, ending, part, duty, life, report⟩ := exists_courier charge ended orderId
  obtain ⟨task', found', due', ending', part', duty', life', report'⟩ :=
    exists_courier charge' ended' orderId
  obtain rfl := seat_of_duty part duty
  obtain rfl := seat_of_duty part' duty'
  refine ⟨_, _, report, report', ?_⟩
  have sooner := outpaces.sooner _ found found' due due' ending ending' part.present part'.present
    life life'
  rw [duration_classify, duration_classify, Duration.millis_ofMillis, Duration.millis_ofMillis,
    outpaces.started number call call' known known']
  exact Nat.sub_le_sub_right sooner _

theorem Outpaces.served (outpaces : Outpaces few many base base' events events')
    {orderId : String} {number : Nat} {answer : Answer} {time : Nat}
    (answered : (Handler.Progress.processing orderId (base + number)).answer? (stateAfter few events) =
      some (answer, time)) (fine : answer.status = 200) :
    ∃ answer' time', (Handler.Progress.processing orderId (base' + number)).answer?
        (stateAfter many events') = some (answer', time') ∧ answer'.status = 200 ∧
      ∃ courier courier', answer.reply.courier? = some courier ∧
        answer'.reply.courier? = some courier' ∧
        courier'.duration.millis ≤ courier.duration.millis := by
  obtain ⟨call, cause, known, stop, rfl⟩ := answer_processing.mp answered
  have ended : call.ended.isSome = true := by simp [stop]
  obtain ⟨order, charge⟩ := exists_charge few events known
  have served (task : TaskId) (found : Task) :
      IsPart (stateAfter few events) (base + number) task found → found.stage = .finished .served :=
    charge.served_of_fine ended (status_ofReport.mp fine)
  have sound := outpaces.not_isSpoilt known charge.listed served
  -- At the ample desk the order is over as well, and nothing has gone wrong.
  obtain ⟨call', known'⟩ := outpaces.exists_call known
  obtain ⟨order', charge'⟩ := exists_charge many events' known'
  have served' (task : TaskId) (found : Task) :
      IsPart (stateAfter many events') (base' + number) task found → found.stage = .finished .served :=
    outpaces.part_served known served sound
  have going : call'.aborted = false := by
    by_contra aborted
    exact sound (outpaces.ample.isSpoilt known' (by simpa using aborted))
  have ended' := charge'.ended_of_over outpaces.ample.quiet going fun task found part =>
    ⟨.served, served' task found part⟩
  obtain ⟨⟨time', cause'⟩, stop'⟩ := Option.isSome_iff_exists.mp ended'
  exact ⟨_, time', answer_processing.mpr ⟨call', cause', known', stop', rfl⟩,
    status_ofReport.mpr (charge'.fine_of_served ended' served'),
    outpaces.courier_sooner charge charge' ended ended' known known' orderId⟩

theorem exists_twin {base base' : Nat}
    {taken taken' : List (Shift.Taken (Option Handler.Progress))}
    (twins : List.Forall₂ (Twins base base') taken taken') {index : Nat}
    {first : Shift.Taken (Option Handler.Progress)} (listed : taken[index]? = some first) :
    ∃ second, taken'[index]? = some second ∧ Twins base base' first second := by
  obtain ⟨size, each⟩ := List.forall₂_iff_get.mp twins
  obtain ⟨bound, rfl⟩ := List.getElem?_eq_some_iff.mp listed
  exact ⟨_, List.getElem?_eq_getElem (size ▸ bound), each index bound (size ▸ bound)⟩

end

/-- Of two idle desks that are given the same shift, the one with more couriers serves every order
that the other one serves, and the courier of the order takes no longer. -/
theorem served_with_more_couriers {few many : Settings} {scarce ample : Desk}
    (idles : Idles few scarce) (idles' : Idles many ample)
    (clock : ample.state.clock = scarce.state.clock)
    (timeout : many.requestTimeout = few.requestTimeout)
    (fewer : Limiter.clamp few.couriers ≤ Limiter.clamp many.couriers) (shift : Shift Visit) :
    ∀ (index place : Nat) (progress : Handler.Progress) (answer : Answer) (time : Nat),
      (scarce.serve shift).taken[index]? = some ⟨place, some progress⟩ →
      progress.answer? (scarce.serve shift).state = some (answer, time) → answer.status = 200 →
      ∃ progress' answer' time',
        (ample.serve shift).taken[index]? = some ⟨place, some progress'⟩ ∧
        progress'.answer? (ample.serve shift).state = some (answer', time') ∧
        answer'.status = 200 ∧
        ∃ courier courier', answer.reply.courier? = some courier ∧
          answer'.reply.courier? = some courier' ∧
          courier'.duration.millis ≤ courier.duration.millis := by
  intro index place progress answer time listed answered fine
  obtain ⟨events, slumbers⟩ := exists_slumbers idles
  obtain ⟨events', slumbers'⟩ := exists_slumbers idles'
  obtain ⟨later, later', calls, calls', outpaces, twins⟩ :=
    exists_outpaces_serve slumbers slumbers' clock timeout fewer shift
  obtain ⟨second, listed', twin⟩ := exists_twin twins listed
  rw [← answer_congr calls] at answered
  cases twin with
  | refused place time =>
      obtain ⟨rfl, _⟩ := Prod.mk.inj (Option.some.inj answered)
      exact absurd fine (by decide)
  | processing place orderId number =>
      obtain ⟨answer', time', answered', rest⟩ := outpaces.served answered fine
      rw [answer_congr calls'] at answered'
      exact ⟨_, answer', time', listed', answered', rest⟩

/-- Three orders want a courier, and the second one is given up. The third one is served by one
courier, after 190 ms, and so it is by two. -/
theorem served_with_more_couriers_dropped :
    let few : Settings := { couriers := 1, timeoutMillis := 500, logFormat := .pretty }
    let many : Settings := { couriers := 2, timeoutMillis := 500, logFormat := .pretty }
    let shift : Shift Visit := {
      arrivals := [(0, .order (.new "first" 5)), (0, .order (.new "second" 5)),
        (10, .order (.new "third" 5)), (50, .drop 1)]
      probes := [] }
    ∃ progress progress' answer answer' time time' courier courier',
      ((ofSettings few).serve shift).taken[2]? = some ⟨2, some progress⟩ ∧
      progress.answer? ((ofSettings few).serve shift).state = some (answer, time) ∧
      answer.status = 200 ∧ answer.reply.courier? = some courier ∧ courier.duration.millis = 190 ∧
      ((ofSettings many).serve shift).taken[2]? = some ⟨2, some progress'⟩ ∧
      progress'.answer? ((ofSettings many).serve shift).state = some (answer', time') ∧
      answer'.status = 200 ∧ answer'.reply.courier? = some courier' ∧
      courier'.duration.millis ≤ courier.duration.millis := by
  intro few many shift
  have run : (((ofSettings few).serve shift).taken[2]?,
      ((Handler.Progress.processing "third" 2).answer? ((ofSettings few).serve shift).state).map
        fun answer => (answer.1.status, answer.1.reply.courier?.map fun courier =>
          courier.duration.millis)) =
      (some ⟨2, some (.processing "third" 2)⟩, some (200, some 190)) := by
    cbv
  obtain ⟨listed, served⟩ := Prod.mk.inj run
  obtain ⟨⟨answer, time⟩, answered, same⟩ := Option.map_eq_some_iff.mp served
  obtain ⟨fine, slow⟩ := Prod.mk.inj same
  have scarce : Idles few (ofSettings few) := .fresh
  have ample : Idles many (ofSettings many) := .fresh
  obtain ⟨progress', answer', time', listed', answered', fine',
      courier, courier', told, told', sooner⟩ :=
    served_with_more_couriers scarce ample rfl rfl (by decide) shift 2 2 _ answer time listed
      answered fine
  obtain ⟨again, told'', millis⟩ := Option.map_eq_some_iff.mp slow
  obtain rfl : courier = again := Option.some.inj (told.symm.trans told'')
  exact ⟨_, progress', answer, answer', time, time', courier, courier', listed, answered, fine, told,
    millis, listed', answered', fine', told', sooner⟩

end Desk

end OrderDesk
