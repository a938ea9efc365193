import OrderDesk.Proofs.Errors

/-! When a call of steps that only wait comes to its end, and with what report, as a formula. All
times are in milliseconds from the start of the call, and where there is no deadline, or no failure,
there is no such time. -/

namespace OrderDesk

open Schedule

/-- A step that waits for a time and then ends as it was always going to. -/
structure TimedStep where
  name : String
  millis : Nat
  outcome : Outcome
  plain : ∀ failure ∈ outcome, failure.isCancellation = false

namespace TimedStep

def body (step : TimedStep) : Script :=
  .wait step.millis :: (step.outcome.map Action.fail).toList

def isInTime (deadline : Option Nat) (step : TimedStep) : Bool :=
  step.millis == 0 || deadline.all (step.millis < ·)

/-- Whether the step gets to its end in spite of the deadline and of the first failure. -/
def isOwn (deadline failure : Option Nat) (step : TimedStep) : Bool :=
  step.millis == 0 || deadline.all (step.millis < ·) && failure.all (step.millis ≤ ·)

end TimedStep

def firstFailure (deadline : Option Nat) (steps : List TimedStep) : Option Nat :=
  ((steps.filter fun step => step.outcome.isSome && step.isInTime deadline).map
    TimedStep.millis).min?

/-- What stops the steps that do not get to their end. At one time it is the deadline. -/
def stopCause (deadline failure : Option Nat) : Cause :=
  if deadline.any fun time => failure.all (time ≤ ·) then .deadline else .canceled

def TimedStep.fate (deadline failure : Option Nat) (step : TimedStep) : Nat × Outcome :=
  if step.isOwn deadline failure then (step.millis, step.outcome)
  else ((earlier failure deadline).getD 0, some (.cancelled (stopCause deadline failure)))

def longest (steps : List TimedStep) : Nat :=
  (steps.map TimedStep.millis).max?.getD 0

def callSpan (deadline : Option Nat) (steps : List TimedStep) : Nat :=
  match firstFailure deadline steps with
  | some time => time
  | none => deadline.elim (longest steps) (min · (longest steps))

/-- The error of the call: of the steps that fail first that of the first in order, or else the
deadline if it has stopped a step. -/
def callError (deadline : Option Nat) (steps : List TimedStep) : Option Failure :=
  match firstFailure deadline steps with
  | some time =>
      (steps.find? fun step => step.outcome.isSome && step.millis == time).bind TimedStep.outcome
  | none =>
      if steps.all (TimedStep.isOwn deadline none) then none else some (.cancelled .deadline)

def forecast (deadline : Option Nat) (steps : List TimedStep) : Report :=
  { steps := steps.map fun step =>
      let fate := step.fate deadline (firstFailure deadline steps)
      classify step.name fate.1 fate.2
    error := callError deadline steps }

namespace TimedStep

variable {deadline failure : Option Nat} {step : TimedStep}

theorem isInTime_iff :
    step.isInTime deadline = true ↔ step.millis = 0 ∨ ∀ time ∈ deadline, step.millis < time := by
  cases deadline <;> simp [isInTime]

theorem isOwn_iff :
    step.isOwn deadline failure = true ↔ step.millis = 0 ∨
      (∀ time ∈ deadline, step.millis < time) ∧ ∀ time ∈ failure, step.millis ≤ time := by
  cases deadline <;> cases failure <;> simp [isOwn]

theorem isInTime_of_isOwn (own : step.isOwn deadline failure = true) :
    step.isInTime deadline = true :=
  isInTime_iff.mpr ((isOwn_iff.mp own).imp_right And.left)

theorem fate_of_isOwn (own : step.isOwn deadline failure = true) :
    step.fate deadline failure = (step.millis, step.outcome) := by
  simp only [fate, own, if_true]

theorem fate_of_deadline {time : Nat} (positive : 0 < step.millis) (due : deadline = some time)
    (late : time ≤ step.millis) (first : ∀ other ∈ failure, time ≤ other) :
    step.fate deadline failure = (time, some (.cancelled .deadline)) := by
  subst due
  have stopped : step.isOwn (some time) failure = false := by
    rw [Bool.eq_false_iff, ne_eq, isOwn_iff]
    rintro (zero | ⟨early, _⟩)
    · omega
    · have before := early time rfl
      omega
  cases failure with
  | none => simp [fate, stopped, stopCause, earlier]
  | some other =>
      have bound := first other rfl
      simp [fate, stopped, stopCause, earlier, bound]

theorem fate_of_failure {time : Nat} (failed : failure = some time) (late : time < step.millis)
    (first : ∀ other ∈ deadline, time < other) :
    step.fate deadline failure = (time, some (.cancelled .canceled)) := by
  subst failed
  have stopped : step.isOwn deadline (some time) = false := by
    rw [Bool.eq_false_iff, ne_eq, isOwn_iff]
    rintro (zero | ⟨_, early⟩)
    · omega
    · have before := early time rfl
      omega
  cases deadline with
  | none => simp [fate, stopped, stopCause, earlier]
  | some other =>
      have bound := first other rfl
      have after : ¬other ≤ time := by omega
      have least : min time other = time := by omega
      simp [fate, stopped, stopCause, earlier, after, least]

/-- A step gets to its end, or the deadline stops it, or an earlier failure does. -/
theorem fate_cases (deadline failure : Option Nat) (step : TimedStep) :
    step.isOwn deadline failure = true ∧
        step.fate deadline failure = (step.millis, step.outcome) ∨
      (∃ time, deadline = some time ∧ time ≤ step.millis ∧ (∀ other ∈ failure, time ≤ other) ∧
        step.fate deadline failure = (time, some (.cancelled .deadline))) ∨
      ∃ time, failure = some time ∧ time < step.millis ∧ (∀ other ∈ deadline, time < other) ∧
        step.fate deadline failure = (time, some (.cancelled .canceled)) := by
  by_cases own : step.isOwn deadline failure = true
  · exact .inl ⟨own, fate_of_isOwn own⟩
  · right
    rw [isOwn_iff, not_or] at own
    have positive : 0 < step.millis := by omega
    cases deadline with
    | none =>
        cases failure with
        | none => simp at own
        | some time =>
            have late : time < step.millis := by simpa using own.2
            exact .inr ⟨time, rfl, late, by simp, fate_of_failure rfl late (by simp)⟩
    | some due =>
        by_cases first : ∀ other ∈ failure, due ≤ other
        · have late : due ≤ step.millis := by
            by_contra early
            refine own.2 ⟨fun time same => ?_, fun time failed => ?_⟩
            · obtain rfl := Option.some.inj same
              omega
            · have bound := first time failed
              omega
          exact .inl ⟨due, rfl, late, first, fate_of_deadline positive rfl late first⟩
        · simp only [not_forall, Nat.not_le] at first
          obtain ⟨time, failed, before⟩ := first
          obtain rfl := Option.mem_def.mp failed
          have late : time < step.millis := by
            by_contra early
            refine own.2 ⟨fun other same => ?_, fun other same => ?_⟩
            · obtain rfl := Option.some.inj same
              omega
            · obtain rfl := Option.some.inj same
              omega
          have open_until : ∀ other ∈ some due, time < other := by
            intro other same
            exact Option.some.inj same ▸ before
          exact .inr ⟨time, rfl, late, open_until, fate_of_failure rfl late open_until⟩

end TimedStep

theorem firstFailure_eq_some {deadline : Option Nat} {steps : List TimedStep} {time : Nat} :
    firstFailure deadline steps = some time ↔
      (∃ step ∈ steps, step.outcome.isSome = true ∧ step.isInTime deadline = true ∧
        step.millis = time) ∧
      ∀ step ∈ steps, step.outcome.isSome = true → step.isInTime deadline = true →
        time ≤ step.millis := by
  simp only [firstFailure, List.min?_eq_some_iff, List.mem_map, List.mem_filter,
    Bool.and_eq_true, and_assoc]
  constructor
  · rintro ⟨found, least⟩
    exact ⟨found, fun step member fails early => least _ ⟨step, member, fails, early, rfl⟩⟩
  · rintro ⟨found, least⟩
    refine ⟨found, ?_⟩
    rintro other ⟨step, member, fails, early, rfl⟩
    exact least step member fails early

theorem firstFailure_of_isOwn {deadline : Option Nat} {steps : List TimedStep} {step : TimedStep}
    (member : step ∈ steps) (own : step.isOwn deadline (firstFailure deadline steps) = true)
    (fails : step.outcome.isSome = true) :
    firstFailure deadline steps = some step.millis := by
  have early := TimedStep.isInTime_of_isOwn own
  cases first : firstFailure deadline steps with
  | none =>
      simp only [firstFailure, List.min?_eq_none_iff, List.map_eq_nil_iff,
        List.filter_eq_nil_iff] at first
      exact absurd (by simp [fails, early]) (first step member)
  | some time =>
      have least := (firstFailure_eq_some.mp first).2 step member fails early
      rw [first, TimedStep.isOwn_iff] at own
      have bound : step.millis ≤ time := by
        rcases own with zero | ⟨_, before⟩
        · omega
        · exact before time rfl
      exact congrArg some (Nat.le_antisymm least bound)

theorem isOwn_of_firstFailure {deadline : Option Nat} {steps : List TimedStep} {step : TimedStep}
    (first : firstFailure deadline steps = some step.millis) :
    step.isOwn deadline (firstFailure deadline steps) = true := by
  obtain ⟨⟨witness, _, _, early, same⟩, _⟩ := firstFailure_eq_some.mp first
  rw [first, TimedStep.isOwn_iff, ← same]
  exact (TimedStep.isInTime_iff.mp early).imp_right fun before =>
    ⟨before, fun other due => Nat.le_of_eq (Option.some.inj due)⟩

theorem outcome_of_no_failure {deadline : Option Nat} {steps : List TimedStep} {step : TimedStep}
    (first : firstFailure deadline steps = none) (member : step ∈ steps)
    (own : step.isOwn deadline none = true) : step.outcome = none := by
  cases outcome : step.outcome with
  | none => rfl
  | some failure =>
      have fails := firstFailure_of_isOwn member (first ▸ own) (by simp [outcome])
      rw [first] at fails
      cases fails

theorem millis_le_longest {steps : List TimedStep} {step : TimedStep} (member : step ∈ steps) :
    step.millis ≤ longest steps :=
  List.le_max?_getD_of_mem (List.mem_map_of_mem member)

theorem exists_longest {steps : List TimedStep} (nonempty : steps ≠ []) :
    ∃ step ∈ steps, step.millis = longest steps := by
  cases most : (steps.map TimedStep.millis).max? with
  | none => simp [nonempty] at most
  | some time =>
      obtain ⟨step, member, same⟩ := List.mem_map.mp (List.max?_mem most)
      exact ⟨step, member, by simp [longest, most, same]⟩

theorem fate_le_callSpan {deadline : Option Nat} {steps : List TimedStep} {step : TimedStep}
    (member : step ∈ steps) :
    (step.fate deadline (firstFailure deadline steps)).1 ≤ callSpan deadline steps := by
  have bound := millis_le_longest member
  cases first : firstFailure deadline steps with
  | none =>
      simp only [callSpan, first]
      rcases step.fate_cases deadline none with
        ⟨own, fate⟩ | ⟨time, rfl, late, _, fate⟩ | ⟨time, absurd, _⟩
      · rw [fate]
        cases deadline with
        | none => exact bound
        | some due =>
            simp only [Option.elim_some]
            rcases TimedStep.isOwn_iff.mp own with zero | ⟨early, _⟩
            · omega
            · have before := early due rfl
              omega
      · rw [fate]
        simp only [Option.elim_some]
        omega
      · cases absurd
  | some time =>
      simp only [callSpan, first]
      rcases step.fate_cases deadline (some time) with
        ⟨own, fate⟩ | ⟨due, rfl, _, before, fate⟩ | ⟨other, same, _, _, fate⟩
      · rw [fate]
        rcases TimedStep.isOwn_iff.mp own with zero | ⟨_, before⟩
        · simp only
          omega
        · exact before time rfl
      · rw [fate]
        exact before time rfl
      · rw [fate]
        exact Nat.le_of_eq (Option.some.inj same).symm

theorem exists_fate_eq_callSpan (deadline : Option Nat) {steps : List TimedStep}
    (nonempty : steps ≠ []) :
    ∃ step ∈ steps,
      (step.fate deadline (firstFailure deadline steps)).1 = callSpan deadline steps := by
  cases first : firstFailure deadline steps with
  | none =>
      obtain ⟨step, member, most⟩ := exists_longest nonempty
      refine ⟨step, member, ?_⟩
      simp only [callSpan, first]
      rcases step.fate_cases deadline none with
        ⟨own, fate⟩ | ⟨time, rfl, late, _, fate⟩ | ⟨time, absurd, _⟩
      · rw [fate, ← most]
        cases deadline with
        | none => rfl
        | some due =>
            simp only [Option.elim_some]
            rcases TimedStep.isOwn_iff.mp own with zero | ⟨early, _⟩
            · omega
            · have before := early due rfl
              omega
      · rw [fate, ← most]
        simp only [Option.elim_some]
        omega
      · cases absurd
  | some time =>
      obtain ⟨⟨step, member, fails, early, rfl⟩, _⟩ := firstFailure_eq_some.mp first
      refine ⟨step, member, ?_⟩
      rw [← first, TimedStep.fate_of_isOwn (isOwn_of_firstFailure first)]
      simp only [callSpan, first]

theorem callSpan_eq {deadline : Option Nat} {steps : List TimedStep} {last : TimedStep}
    (member : last ∈ steps)
    (latest : ∀ step ∈ steps, (step.fate deadline (firstFailure deadline steps)).1 ≤
      (last.fate deadline (firstFailure deadline steps)).1) :
    callSpan deadline steps = (last.fate deadline (firstFailure deadline steps)).1 := by
  obtain ⟨step, known, same⟩ :=
    exists_fate_eq_callSpan deadline (List.ne_nil_of_mem member)
  exact Nat.le_antisymm (same ▸ latest step known) (fate_le_callSpan member)

/-! ## The error of the call -/

def isCulprit (deadline : Option Nat) (steps : List TimedStep) (position : Nat) : Bool :=
  steps[position]?.any fun step =>
    step.outcome.isSome && firstFailure deadline steps == some step.millis

/-- What a call has joined is what its steps were to come to, and steps that fail at the time of
the first failure were joined in their order. -/
structure Foreseen (deadline : Option Nat) (steps : List TimedStep) (order : List Settled) :
    Prop where
  complete : (order.map Settled.position).Perm (List.range steps.length)
  outcomes : ∀ entry ∈ order, ∃ step, steps[entry.position]? = some step ∧
    entry.outcome = (step.fate deadline (firstFailure deadline steps)).2
  sorted : ((order.map Settled.position).filter (isCulprit deadline steps)).Pairwise (· < ·)

theorem isCancellation_cancelled (cause : Cause) :
    (Failure.cancelled cause).isCancellation = true := by
  simp [Failure.isCancellation, Failure.cancellation, Failure.chain, Failure.links,
    Problem.unboxed, Problem.cause?]

namespace Foreseen

variable {deadline : Option Nat} {steps : List TimedStep} {order : List Settled}

theorem isCulprit_of_failure (foreseen : Foreseen deadline steps order) {entry : Settled}
    (member : entry ∈ order) {failure : Failure} (outcome : entry.outcome = some failure)
    (other : failure.isCancellation = false) :
    isCulprit deadline steps entry.position = true ∧
      ∃ step, steps[entry.position]? = some step ∧ step.outcome = some failure := by
  obtain ⟨step, placed, fate⟩ := foreseen.outcomes entry member
  rcases step.fate_cases deadline (firstFailure deadline steps) with
    ⟨own, known⟩ | ⟨time, _, _, _, known⟩ | ⟨time, _, _, _, known⟩
  · rw [known] at fate
    have fails : step.outcome = some failure := fate.symm.trans outcome
    have first := firstFailure_of_isOwn (List.mem_of_getElem? placed) own (by simp [fails])
    exact ⟨by simp [isCulprit, placed, fails, first], step, placed, fails⟩
  · rw [known, outcome] at fate
    obtain rfl := Option.some.inj fate
    rw [isCancellation_cancelled] at other
    cases other
  · rw [known, outcome] at fate
    obtain rfl := Option.some.inj fate
    rw [isCancellation_cancelled] at other
    cases other

theorem exists_first_culprit {time : Nat} (first : firstFailure deadline steps = some time) :
    ∃ (index : Nat) (step : TimedStep) (failure : Failure), steps[index]? = some step ∧
      step.outcome = some failure ∧
      step.isOwn deadline (firstFailure deadline steps) = true ∧
      callError deadline steps = some failure ∧
      ∀ earlier, isCulprit deadline steps earlier = true → index ≤ earlier := by
  obtain ⟨⟨witness, member, fails, early, rfl⟩, _⟩ := firstFailure_eq_some.mp first
  cases found : steps.find? fun step => step.outcome.isSome && step.millis == witness.millis with
  | none => simpa [fails] using List.find?_eq_none.mp found witness member
  | some step =>
      obtain ⟨fits, index, bound, here, least⟩ := List.find?_eq_some_iff_getElem.mp found
      simp only [Bool.and_eq_true, beq_iff_eq] at fits
      obtain ⟨failure, outcome⟩ := Option.isSome_iff_exists.mp fits.1
      refine ⟨index, step, failure, by simp [bound, here], outcome,
        isOwn_of_firstFailure (fits.2 ▸ first), ?_, ?_⟩
      · simp [callError, first, found, outcome]
      · intro other culprit
        by_contra before
        rw [Nat.not_le] at before
        have clear := least other before
        simp only [isCulprit, first, List.getElem?_eq_getElem (Nat.lt_trans before bound),
          Option.any_some, Bool.and_eq_true, beq_iff_eq, Option.some.injEq] at culprit
        simp [culprit.1, culprit.2] at clear

theorem reported_of_failure (foreseen : Foreseen deadline steps order) {time : Nat}
    (first : firstFailure deadline steps = some time) :
    reported order = callError deadline steps := by
  obtain ⟨index, step, failure, placed, outcome, own, error, least⟩ :=
    exists_first_culprit first
  have below := (List.getElem?_eq_some_iff.mp placed).1
  obtain ⟨entry, member, here⟩ :=
    List.mem_map.mp (foreseen.complete.mem_iff.mpr (List.mem_range.mpr below))
  obtain ⟨again, placed', fate⟩ := foreseen.outcomes entry member
  obtain rfl : step = again := Option.some.inj (placed.symm.trans (here ▸ placed'))
  rw [TimedStep.fate_of_isOwn own, outcome] at fate
  have plain := step.plain failure outcome
  have culprit := (foreseen.isCulprit_of_failure member fate plain).1
  cases head : order.find? fun entry =>
      entry.outcome.any fun failure => !failure.isCancellation with
  | none => simpa [fate, plain] using List.find?_eq_none.mp head entry member
  | some earliest =>
      obtain ⟨fits, before, after, split, clear⟩ := List.find?_eq_some_iff_append.mp head
      have same : earliest = entry := by
        rw [split] at member
        rcases List.mem_append.mp member with earlier | later
        · simpa [fate, plain] using clear entry earlier
        · rcases List.mem_cons.mp later with same | later
          · exact same.symm
          · -- A failure joined before it would have a place below the lowest.
            obtain ⟨other, outcome', plain'⟩ := (Option.any_eq_true _ _).mp fits
            have culprit' := (foreseen.isCulprit_of_failure (by simp [split]) outcome'
              (by simpa using plain')).1
            have sorted := foreseen.sorted
            rw [split, List.map_append, List.filter_append, List.map_cons,
              List.filter_cons_of_pos culprit', List.pairwise_append] at sorted
            have ordered := (List.pairwise_cons.mp sorted.2.1).1 entry.position
              (List.mem_filter.mpr ⟨List.mem_map_of_mem later, culprit⟩)
            have bound := least earliest.position culprit'
            omega
      subst same
      simp [reported, failures, head, fate, error]

theorem reported_of_no_failure (foreseen : Foreseen deadline steps order)
    (first : firstFailure deadline steps = none) :
    reported order = callError deadline steps := by
  have stopped (failure : Failure) (member : failure ∈ failures order) :
      failure = .cancelled .deadline := by
    obtain ⟨entry, known, outcome⟩ := mem_failures.mp member
    obtain ⟨step, placed, fate⟩ := foreseen.outcomes entry known
    rw [first] at fate
    rcases step.fate_cases deadline none with
      ⟨own, same⟩ | ⟨time, _, _, _, same⟩ | ⟨time, absurd, _⟩
    · have fine := outcome_of_no_failure first (List.mem_of_getElem? placed) own
      rw [same, outcome, fine] at fate
      cases fate
    · rw [same, outcome] at fate
      exact Option.some.inj fate
    · cases absurd
  have plainless : (failures order).find? (fun failure => !failure.isCancellation) = none := by
    refine List.find?_eq_none.mpr fun failure member => ?_
    simp [stopped failure member, isCancellation_cancelled]
  by_cases all_own : ∀ step ∈ steps, step.isOwn deadline none = true
  · have nothing : failures order = [] := by
      refine List.eq_nil_iff_forall_not_mem.mpr fun failure member => ?_
      obtain ⟨entry, known, outcome⟩ := mem_failures.mp member
      obtain ⟨step, placed, fate⟩ := foreseen.outcomes entry known
      have own := all_own step (List.mem_of_getElem? placed)
      have fine := outcome_of_no_failure first (List.mem_of_getElem? placed) own
      rw [first, TimedStep.fate_of_isOwn own, outcome, fine] at fate
      cases fate
    have all : steps.all (TimedStep.isOwn deadline none) = true := List.all_eq_true.mpr all_own
    simp [reported, nothing, callError, first, all]
  · obtain ⟨step, member, late⟩ : ∃ step ∈ steps, ¬step.isOwn deadline none = true := by
      simpa using all_own
    obtain ⟨index, placed⟩ := List.getElem?_of_mem member
    have below := (List.getElem?_eq_some_iff.mp placed).1
    obtain ⟨entry, known, here⟩ :=
      List.mem_map.mp (foreseen.complete.mem_iff.mpr (List.mem_range.mpr below))
    obtain ⟨again, placed', fate⟩ := foreseen.outcomes entry known
    obtain rfl : step = again := Option.some.inj (placed.symm.trans (here ▸ placed'))
    have canceled : .cancelled .deadline ∈ failures order := by
      rw [first] at fate
      rcases step.fate_cases deadline none with
        ⟨own, _⟩ | ⟨time, _, _, _, same⟩ | ⟨time, absurd, _⟩
      · exact absurd own late
      · exact mem_failures.mpr ⟨entry, known, by rw [fate, same]⟩
      · cases absurd
    have all : steps.all (TimedStep.isOwn deadline none) = false := by
      simpa using ⟨step, member, by simpa using late⟩
    cases head : (failures order).find? Failure.isCancellation with
    | none => simpa [isCancellation_cancelled] using List.find?_eq_none.mp head _ canceled
    | some failure =>
        have same := stopped failure (List.mem_of_find?_eq_some head)
        simp [reported, plainless, head, same, callError, first, all]

theorem reported_eq (foreseen : Foreseen deadline steps order) :
    reported order = callError deadline steps := by
  cases first : firstFailure deadline steps with
  | none => exact foreseen.reported_of_no_failure first
  | some time => exact foreseen.reported_of_failure first

end Foreseen

end OrderDesk
