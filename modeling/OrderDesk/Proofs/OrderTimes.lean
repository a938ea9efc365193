import OrderDesk.Proofs.Answers
import OrderDesk.Proofs.Bare
import OrderDesk.Proofs.Forecasts

/-! What comes of an order that nobody else gets in the way of, written out. Its three steps take as
long as the order says and meet the problems that the order asks for. All times are in milliseconds
from the moment at which the order is taken on. -/

namespace OrderDesk

open Schedule

/-- A step of an order: how long it takes if nothing comes in between, and what goes wrong. -/
structure Leg where
  name : String
  note : String
  millis : Nat
  problem : Option OrderProblem

def Order.legs (order : Order) : List Leg :=
  [{ name := "payment", note := "payment", millis := stepLatency order.delays "payment" 150
     problem :=
       if order.failsAt "payment" || order.amount == 0 then some .paymentDeclined else none },
    { name := "vendor", note := "vendor notify", millis := stepLatency order.delays "vendor" 200
      problem := if order.failsAt "vendor" then some .vendorUnavailable else none },
    { name := "courier", note := "courier assign", millis := stepLatency order.delays "courier" 100
      problem := if order.failsAt "courier" then some .noCourier else none }]

/-- The time at which the first step fails, of those that fail before the order is due. -/
def Order.failureTime? (due : Nat) (order : Order) : Option Nat :=
  ((order.legs.filter fun leg => leg.problem.isSome && decide (leg.millis < due)).map
    Leg.millis).min?

def Order.problem? (due : Nat) (order : Order) : Option OrderProblem :=
  (order.failureTime? due).bind fun time =>
    (order.legs.find? fun leg => leg.problem.isSome && leg.millis == time).bind Leg.problem

namespace Leg

/-- Whether the step gets to its end before the order is due and before a step has failed. -/
def isOwn (due : Nat) (failure : Option Nat) (leg : Leg) : Bool :=
  decide (leg.millis < due) && failure.all (leg.millis ≤ ·)

def report (due : Nat) (failure : Option Nat) (leg : Leg) : StepReport :=
  if leg.isOwn due failure then
    { name := leg.name
      status := if leg.problem.isSome then .error else .ok
      duration := .ofMillis leg.millis
      detail := (leg.problem.map OrderProblem.tag).getD "" }
  else
    { name := leg.name, status := .canceled, duration := .ofMillis (failure.elim due (min · due))
      detail := "" }

end Leg

def Order.answer (due : Nat) (order : Order) : Answer :=
  let reports := order.legs.map (Leg.report due (order.failureTime? due))
  match order.problem? due with
  | some problem =>
      { status := problem.status, reply := .failed order.id reports problem.tag "order failed" }
  | none =>
      if order.legs.all fun leg => decide (leg.millis < due) then
        { status := 200, reply := .ok order.id reports }
      else { status := 504, reply := .failed order.id reports "timeout" "order failed" }

def Order.span (due : Nat) (order : Order) : Nat :=
  (order.failureTime? due).getD (min due ((order.legs.map Leg.millis).max?.getD 0))

namespace Leg

def outcome (leg : Leg) : Outcome :=
  leg.problem.map fun problem => .within leg.note (.ofOrderProblem problem)

def timed (leg : Leg) : TimedStep where
  name := leg.name
  millis := leg.millis
  outcome := leg.outcome
  plain := by
    intro failure fails
    obtain ⟨problem, _, rfl⟩ := Option.map_eq_some_iff.mp fails
    rfl

end Leg

def Order.timetable (order : Order) : List TimedStep :=
  order.legs.map Leg.timed

theorem stepLatency_pos (delays : Option Delays) (step : String) {usual : Nat}
    (positive : 0 < usual) : 0 < stepLatency delays step usual := by
  unfold stepLatency
  split
  · rename_i millis _
    split
    · rename_i set
      have above : (0 : Int) < millis.toInt := Int64.lt_iff_toInt_lt.mp set
      omega
    · exact positive
  · exact positive

theorem Order.legs_pos (order : Order) : ∀ leg ∈ order.legs, 0 < leg.millis := by
  intro leg member
  simp only [legs, List.mem_cons, List.not_mem_nil, or_false] at member
  rcases member with rfl | rfl | rfl
  all_goals exact stepLatency_pos _ _ (by decide)

variable {order : Order} {due : Nat}

theorem firstFailure_timetable :
    firstFailure (some due) order.timetable = order.failureTime? due := by
  have positive := order.legs_pos
  have filtered : (order.timetable.filter fun step =>
      step.outcome.isSome && step.isInTime (some due)) =
        (order.legs.filter fun leg => leg.problem.isSome && decide (leg.millis < due)).map
          Leg.timed := by
    rw [Order.timetable, List.filter_map]
    refine congrArg (List.map Leg.timed) (List.filter_congr fun leg member => ?_)
    have late : (leg.millis == 0) = false := beq_false_of_ne (Nat.ne_of_gt (positive leg member))
    simp only [Function.comp, Leg.timed, Leg.outcome, TimedStep.isInTime, late, Option.isSome_map,
      Option.all_some, Bool.false_or]
    rfl
  rw [firstFailure, filtered, List.map_map]
  rfl

theorem isOwn_timed {leg : Leg} (positive : 0 < leg.millis) (failure : Option Nat) :
    leg.timed.isOwn (some due) failure = leg.isOwn due failure := by
  have late : (leg.millis == 0) = false := beq_false_of_ne (Nat.ne_of_gt positive)
  simp only [Leg.timed, TimedStep.isOwn, Leg.isOwn, late, Option.all_some, Bool.false_or]
  rfl

theorem classify_timed {leg : Leg} (positive : 0 < leg.millis) (failure : Option Nat) :
    classify leg.timed.name (leg.timed.fate (some due) failure).1
        (leg.timed.fate (some due) failure).2 = leg.report due failure := by
  rw [TimedStep.fate, isOwn_timed positive, Leg.report]
  split
  · cases problem : leg.problem with
    | none => simp only [Leg.timed, Leg.outcome, problem, classify, Option.map_none]; rfl
    | some problem' => simp only [Leg.timed, Leg.outcome, problem, classify, Option.map_some]; rfl
  · cases failure with
    | none => rfl
    | some time => rfl

theorem find?_timetable (time : Nat) :
    (order.timetable.find? fun step => step.outcome.isSome && step.millis == time) =
      (order.legs.find? fun leg => leg.problem.isSome && leg.millis == time).map Leg.timed := by
  rw [Order.timetable, List.find?_map]
  refine congrArg (Option.map Leg.timed) (congrArg (List.find? · order.legs) (funext fun leg => ?_))
  simp only [Function.comp, Leg.timed, Leg.outcome, Option.isSome_map]

theorem exists_leg_of_failureTime {time : Nat} (fails : order.failureTime? due = some time) :
    ∃ leg problem, (order.legs.find? fun leg => leg.problem.isSome && leg.millis == time) = some leg ∧
      leg.problem = some problem := by
  obtain ⟨leg, member, same⟩ := List.mem_map.mp (List.min?_mem fails)
  obtain ⟨listed, early⟩ := List.mem_filter.mp member
  simp only [Bool.and_eq_true] at early
  have some_leg : (order.legs.find? fun leg =>
      leg.problem.isSome && leg.millis == time).isSome = true :=
    List.find?_isSome.mpr ⟨leg, listed, by simp [early.1, same]⟩
  obtain ⟨first, found⟩ := Option.isSome_iff_exists.mp some_leg
  have fails := List.find?_some found
  simp only [Bool.and_eq_true] at fails
  obtain ⟨problem, meets⟩ := Option.isSome_iff_exists.mp fails.1
  exact ⟨first, problem, found, meets⟩

theorem all_isOwn_timetable :
    (order.timetable.all fun step => step.isOwn (some due) none) =
      order.legs.all fun leg => decide (leg.millis < due) := by
  rw [Order.timetable, List.all_map, Bool.eq_iff_iff, List.all_eq_true, List.all_eq_true]
  refine forall_congr' fun leg => forall_congr' fun member => ?_
  rw [Function.comp_apply, isOwn_timed (order.legs_pos leg member)]
  simp [Leg.isOwn]

theorem ofReport_forecast :
    Answer.ofReport order.id (forecast (some due) order.timetable) = order.answer due := by
  have reports : (forecast (some due) order.timetable).steps =
      order.legs.map (Leg.report due (order.failureTime? due)) := by
    simp only [forecast, firstFailure_timetable]
    rw [Order.timetable, List.map_map]
    exact List.map_congr_left fun leg member => classify_timed (order.legs_pos leg member) _
  have error : (forecast (some due) order.timetable).error =
      callError (some due) order.timetable := rfl
  rw [callError, firstFailure_timetable] at error
  rw [Answer.ofReport, reports, Order.answer, Order.problem?]
  cases fails : order.failureTime? due with
  | none =>
      simp only [fails, all_isOwn_timetable] at error
      simp only [error, Option.bind_none]
      split <;> rfl
  | some time =>
      obtain ⟨leg, problem, found, meets⟩ := exists_leg_of_failureTime fails
      simp only [fails, find?_timetable, found, Option.map_some, Option.bind_some, Leg.timed,
        Leg.outcome, meets] at error
      simp only [error, Option.bind_some, found, meets]
      exact congrArg (Answer.mk · _) (statusForKind_tag problem)

theorem longest_timetable : longest order.timetable = (order.legs.map Leg.millis).max?.getD 0 := by
  rw [longest, Order.timetable, List.map_map]
  rfl

theorem callSpan_timetable : callSpan (some due) order.timetable = order.span due := by
  rw [callSpan, firstFailure_timetable, longest_timetable, Order.span]
  cases order.failureTime? due with
  | some time => rfl
  | none => rfl

/-! ## The bodies of the steps -/

theorem names_timetable :
    (orderPipeline.scripts order).map Prod.fst = (TimedStep.scripts order.timetable).map Prod.fst :=
  rfl

theorem failIf_eq (fails : Bool) (note : String) (problem : OrderProblem) :
    failIf fails note problem = (((if fails then some problem else none).map fun problem =>
      Failure.within note (.ofOrderProblem problem)).map Action.fail).toList := by
  cases fails <;> rfl

theorem bodies_timetable :
    ((orderPipeline.scripts order).map Prod.snd).map bareScript =
      ((TimedStep.scripts order.timetable).map Prod.snd).map bareScript := by
  simp only [Pipeline.scripts, orderPipeline, paymentStep, vendorStep, courierStep, failIf_eq]
  rfl

theorem fails_timed (leg : Leg) :
    ∀ action ∈ (leg.outcome.map Action.fail).toList, ∃ failure, action = .fail failure := by
  intro action member
  obtain ⟨failure, _, rfl⟩ := Option.map_eq_some_iff.mp (Option.mem_toList.mp member)
  exact ⟨failure, rfl⟩

theorem isLightBody_scripts : ∀ step ∈ orderPipeline.scripts order, IsLightBody step.2 := by
  have fails {fails : Bool} {note : String} {problem : OrderProblem} :
      ∀ action ∈ failIf fails note problem, ∃ failure, action = .fail failure := by
    intro action member
    cases fails with
    | true => exact ⟨_, List.mem_singleton.mp member⟩
    | false => cases member
  intro step member
  simp only [Pipeline.scripts, orderPipeline, List.map_cons, List.map_nil, List.mem_cons,
    List.not_mem_nil, or_false] at member
  rcases member with rfl | rfl | rfl
  · exact ⟨[.enter], _, _, rfl, .inr (.inl rfl), stepLatency_pos _ _ (by decide), fails⟩
  · exact ⟨[.enter], _, _, rfl, .inr (.inl rfl), stepLatency_pos _ _ (by decide), fails⟩
  · exact ⟨[.enter, .acquire], _, _, rfl, .inr (.inr rfl), stepLatency_pos _ _ (by decide), fails⟩

theorem isLightBody_timetable :
    ∀ step ∈ TimedStep.scripts order.timetable, IsLightBody step.2 := by
  intro step member
  obtain ⟨timed, listed, rfl⟩ := List.mem_map.mp member
  obtain ⟨leg, known, rfl⟩ := List.mem_map.mp listed
  exact ⟨[], leg.millis, _, rfl, .inl rfl, order.legs_pos leg known, fails_timed leg⟩

theorem countP_isAcquire_failIf (fails : Bool) (note : String) (problem : OrderProblem) :
    (failIf fails note problem).countP Action.isAcquire = 0 := by
  cases fails <;> rfl

theorem sumOf_acquires_scripts :
    sumOf acquires ((orderPipeline.scripts order).map Prod.snd) = 1 := by
  simp [Pipeline.scripts, orderPipeline, paymentStep, vendorStep, courierStep, sumOf, acquires,
    List.countP_cons, countP_isAcquire_failIf, Action.isAcquire]

theorem sumOf_acquires_timetable :
    sumOf acquires ((TimedStep.scripts order.timetable).map Prod.snd) = 0 := by
  refine sumOf_eq_zero acquires fun script member => ?_
  obtain ⟨step, listed, rfl⟩ := List.mem_map.mp member
  obtain ⟨timed, known, rfl⟩ := List.mem_map.mp listed
  obtain ⟨leg, _, rfl⟩ := List.mem_map.mp known
  exact State.acquires_wait leg.millis (fails_timed leg)

end OrderDesk
