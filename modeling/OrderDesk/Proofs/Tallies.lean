import OrderDesk.Proofs.Turns

/-! What a tally makes of settled steps, whatever their order. The report in each place comes from
the entry for that place alone. The error comes from the order: the first failure that is no
cancellation, or else the first cancellation. -/

namespace OrderDesk.Schedule

theorem status_classify_of_detail_ne {name : String} {millis : Nat} {outcome : Outcome}
    (detailed : (classify name millis outcome).detail ≠ "") :
    (classify name millis outcome).status = .error := by
  unfold classify at detailed ⊢
  split
  · simp at detailed
  · split
    · rename_i canceled
      simp [canceled] at detailed
    · rfl

theorem status_classify_ok {name : String} {millis : Nat} {outcome : Outcome} :
    (classify name millis outcome).status = .ok ↔ outcome = none := by
  unfold classify
  split
  · simp
  · split <;> simp

theorem status_classify_error {name : String} {millis : Nat} {outcome : Outcome} :
    (classify name millis outcome).status = .error ↔
      ∃ failure, outcome = some failure ∧ failure.isCancellation = false := by
  unfold classify
  split
  · simp
  · split
    · rename_i failure canceled
      simp [canceled]
    · rename_i failure other
      simpa using other

theorem status_classify_canceled {name : String} {millis : Nat} {outcome : Outcome} :
    (classify name millis outcome).status = .canceled ↔
      ∃ failure, outcome = some failure ∧ failure.isCancellation = true := by
  unfold classify
  split
  · simp
  · split
    · rename_i failure canceled
      simpa using canceled
    · rename_i failure other
      simp [other]

/-- What a call reports of the failures that it joined in some order. -/
def reported (order : List Settled) : Option Failure :=
  ((failures order).find? fun failure => !failure.isCancellation).or
    ((failures order).find? Failure.isCancellation)

namespace Tally

theorem steps_settle (tally : Tally) (settled : Settled) :
    (tally.settle settled).steps = tally.steps.modify settled.position fun pending =>
      classify pending.name settled.millis settled.outcome := by
  unfold settle
  split
  · rfl
  · split <;> rfl

theorem length_steps_foldl (order : List Settled) (tally : Tally) :
    (order.foldl settle tally).steps.length = tally.steps.length := by
  induction order generalizing tally with
  | nil => rfl
  | cons settled order ih => exact (ih _).trans (length_steps_settle tally settled)

theorem steps_foldl_of_not_mem {order : List Settled} {position : Nat} (tally : Tally)
    (absent : position ∉ order.map Settled.position) :
    (order.foldl settle tally).steps[position]? = tally.steps[position]? := by
  induction order generalizing tally with
  | nil => rfl
  | cons settled order ih =>
      simp only [List.map_cons, List.mem_cons, not_or] at absent
      rw [List.foldl_cons, ih _ absent.2, steps_settle, List.getElem?_modify]
      simp [Ne.symm absent.1]

theorem steps_foldl_of_mem {order : List Settled} {entry : Settled} {pending : StepReport}
    (tally : Tally) (distinct : (order.map Settled.position).Nodup) (member : entry ∈ order)
    (there : tally.steps[entry.position]? = some pending) :
    (order.foldl settle tally).steps[entry.position]? =
      some (classify pending.name entry.millis entry.outcome) := by
  induction order generalizing tally with
  | nil => cases member
  | cons settled order ih =>
      simp only [List.map_cons, List.nodup_cons] at distinct
      rcases List.mem_cons.mp member with same | later
      · subst same
        rw [List.foldl_cons, steps_foldl_of_not_mem _ distinct.1, steps_settle,
          List.getElem?_modify]
        simp [there]
      · refine ih (tally.settle settled) distinct.2 later ?_
        have other : settled.position ≠ entry.position := by
          intro same
          exact distinct.1 (same ▸ List.mem_map_of_mem later)
        rw [steps_settle, List.getElem?_modify]
        simp [other, there]

theorem steps_start (names : List String) (position : Nat) :
    (start names).steps[position]? = names[position]?.map StepReport.pending := by
  simp [start]

/-! ## The error -/

theorem failure_settle (tally : Tally) (settled : Settled) :
    (tally.settle settled).failure =
      tally.failure.or (settled.outcome.filter fun failure => !failure.isCancellation) := by
  unfold settle
  split
  · rename_i outcome
    simp [outcome]
  · rename_i failure outcome
    by_cases canceled : failure.isCancellation = true
    · simp [outcome, canceled, Option.filter]
    · simp [outcome, canceled, Option.filter]

theorem cancellation_settle (tally : Tally) (settled : Settled) :
    (tally.settle settled).cancellation =
      tally.cancellation.or (settled.outcome.filter Failure.isCancellation) := by
  unfold settle
  split
  · rename_i outcome
    simp [outcome]
  · rename_i failure outcome
    by_cases canceled : failure.isCancellation = true
    · simp [outcome, canceled, Option.filter]
    · simp [outcome, canceled, Option.filter]

theorem find?_failures_cons (wanted : Failure → Bool) (settled : Settled) (order : List Settled) :
    (failures (settled :: order)).find? wanted =
      (settled.outcome.filter wanted).or ((failures order).find? wanted) := by
  cases outcome : settled.outcome with
  | none => simp [failures_cons_of_none order outcome]
  | some failure =>
      rw [failures_cons_of_some order outcome]
      by_cases hit : wanted failure = true
      · simp [hit, Option.filter]
      · simp [hit, Option.filter]

theorem failure_foldl (order : List Settled) (tally : Tally) :
    (order.foldl settle tally).failure =
      tally.failure.or ((failures order).find? fun failure => !failure.isCancellation) := by
  induction order generalizing tally with
  | nil => simp [failures]
  | cons settled order ih =>
      rw [List.foldl_cons, ih, failure_settle, find?_failures_cons, Option.or_assoc]

theorem cancellation_foldl (order : List Settled) (tally : Tally) :
    (order.foldl settle tally).cancellation =
      tally.cancellation.or ((failures order).find? Failure.isCancellation) := by
  induction order generalizing tally with
  | nil => simp [failures]
  | cons settled order ih =>
      rw [List.foldl_cons, ih, cancellation_settle, find?_failures_cons, Option.or_assoc]

theorem error_foldl (names : List String) (order : List Settled) :
    (order.foldl settle (start names)).report.error = reported order := by
  simp only [report, failure_foldl, cancellation_foldl, start, Option.none_or, reported]

end Tally

end OrderDesk.Schedule
