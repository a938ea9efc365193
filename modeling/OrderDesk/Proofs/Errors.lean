import OrderDesk.Proofs.Reports
import OrderDesk.Proofs.Scoping

/-! The error of a call. It is the first failure that the call joined and that is no cancellation,
or else the first cancellation; and the call cancels its scope when it joins its first failure, and
never before. Once the call has ended, its error and the status of its steps agree. -/

namespace OrderDesk

open Schedule

namespace Schedule

theorem reported_eq_none (order : List Settled) : reported order = none ↔ failures order = [] := by
  simp only [reported, Option.or_eq_none_iff, List.find?_eq_none, Bool.not_eq_true',
    Bool.not_eq_false]
  constructor
  · rintro ⟨all, none_canceled⟩
    exact List.eq_nil_iff_forall_not_mem.mpr fun failure member =>
      none_canceled failure member (all failure member)
  · intro empty
    simp [empty]

theorem reported_failure {order : List Settled} {failure : Failure}
    (first : reported order = some failure) (other : failure.isCancellation = false) :
    failure ∈ failures order := by
  rcases Option.or_eq_some_iff.mp first with found | ⟨_, found⟩
  · exact List.mem_of_find?_eq_some found
  · have canceled := List.find?_some found
    rw [other] at canceled
    cases canceled

theorem exists_reported_failure (order : List Settled) :
    (∃ failure, reported order = some failure ∧ failure.isCancellation = false) ↔
      ∃ failure ∈ failures order, failure.isCancellation = false := by
  constructor
  · rintro ⟨failure, first, other⟩
    exact ⟨failure, reported_failure first other, other⟩
  · rintro ⟨failure, member, other⟩
    cases found : (failures order).find? fun failure => !failure.isCancellation with
    | none =>
        have canceled := List.find?_eq_none.mp found failure member
        simp [other] at canceled
    | some first =>
        have kind := List.find?_some found
        exact ⟨first, by simp [reported, found], by simpa using kind⟩

theorem exists_reported_cancellation (order : List Settled) :
    (∃ failure, reported order = some failure ∧ failure.isCancellation = true) ↔
      (∀ failure ∈ failures order, failure.isCancellation = true) ∧ failures order ≠ [] := by
  constructor
  · rintro ⟨failure, first, canceled⟩
    constructor
    · intro another member
      by_contra other
      obtain ⟨third, first', other'⟩ := (exists_reported_failure order).mpr
        ⟨another, member, by simpa using other⟩
      obtain rfl := Option.some.inj (first.symm.trans first')
      rw [canceled] at other'
      cases other'
    · intro empty
      rw [(reported_eq_none order).mpr empty] at first
      cases first
  · rintro ⟨all, some_failure⟩
    cases first : reported order with
    | none => exact absurd ((reported_eq_none order).mp first) some_failure
    | some failure =>
        refine ⟨failure, rfl, ?_⟩
        by_contra other
        have other : failure.isCancellation = false := by simpa using other
        have canceled := all failure (reported_failure first other)
        rw [other] at canceled
        cases canceled

theorem mem_failures {order : List Settled} {failure : Failure} :
    failure ∈ failures order ↔ ∃ entry ∈ order, entry.outcome = some failure :=
  List.mem_filterMap

/-- The error of a report agrees with the status of its steps. -/
structure Coherent (state : State) (call : Call) (report : Report) : Prop where
  none_iff : report.error = none ↔ ∀ step ∈ report.steps, step.status = .ok
  failure_iff : (∃ failure, report.error = some failure ∧ failure.isCancellation = false) ↔
    ∃ step ∈ report.steps, step.status = .error
  /-- A failure is that of a step that is marked as failed, and the detail is its tag. -/
  source : ∀ failure, report.error = some failure → failure.isCancellation = false →
    ∃ (position : Nat) (step : StepReport) (task : TaskId) (found : Task) (time : Nat)
        (ending : Ending),
      report.steps[position]? = some step ∧ step.status = .error ∧
      step.detail = failure.kind.getD "" ∧ call.tasks[position]? = some task ∧
      state.tasks[task]? = some found ∧ found.life = .ended time ending ∧
      ending.outcome = some failure
  cancellation_iff : (∃ failure, report.error = some failure ∧ failure.isCancellation = true) ↔
    (∀ step ∈ report.steps, step.status ≠ .error) ∧
      ∃ step ∈ report.steps, step.status = .canceled

namespace Tracks

variable {history : History} {id : CallId} {steps : List (String × Script)} {call : Call}

theorem error_eq (tracks : Tracks history id steps call) :
    call.tally.report.error = reported (history.joinedBy id) := by
  rw [tracks.tally]
  exact Tally.error_foldl _ _

theorem exists_report_iff (tracks : Tracks history id steps call) (none_left : call.left = 0)
    (status : StepStatus) (holds : Outcome → Prop)
    (same : ∀ name millis outcome, (classify name millis outcome).status = status ↔ holds outcome) :
    (∃ step ∈ call.tally.report.steps, step.status = status) ↔
      ∃ entry ∈ history.joinedBy id, holds entry.outcome := by
  constructor
  · rintro ⟨step, member, equal⟩
    obtain ⟨position, there⟩ := List.getElem?_of_mem member
    obtain ⟨bound, _⟩ := List.getElem?_eq_some_iff.mp there
    obtain ⟨entry, joined, rfl⟩ := tracks.exists_joined none_left (tracks.length_report ▸ bound)
    obtain ⟨_, _, report⟩ := tracks.report_of_joined joined
    obtain rfl := Option.some.inj (report.symm.trans there)
    exact ⟨entry, joined, (same _ _ _).mp equal⟩
  · rintro ⟨entry, joined, fits⟩
    obtain ⟨_, _, report⟩ := tracks.report_of_joined joined
    exact ⟨_, List.mem_of_getElem? report, (same _ _ _).mpr fits⟩

theorem exists_error_iff (tracks : Tracks history id steps call) (none_left : call.left = 0) :
    (∃ step ∈ call.tally.report.steps, step.status = .error) ↔
      ∃ failure ∈ failures (history.joinedBy id), failure.isCancellation = false := by
  rw [tracks.exists_report_iff none_left .error _ fun _ _ _ => status_classify_error]
  simp only [mem_failures]
  constructor
  · rintro ⟨entry, member, failure, outcome, other⟩
    exact ⟨failure, ⟨entry, member, outcome⟩, other⟩
  · rintro ⟨failure, ⟨entry, member, outcome⟩, other⟩
    exact ⟨entry, member, failure, outcome, other⟩

theorem exists_canceled_iff (tracks : Tracks history id steps call) (none_left : call.left = 0) :
    (∃ step ∈ call.tally.report.steps, step.status = .canceled) ↔
      ∃ failure ∈ failures (history.joinedBy id), failure.isCancellation = true := by
  rw [tracks.exists_report_iff none_left .canceled _ fun _ _ _ => status_classify_canceled]
  simp only [mem_failures]
  constructor
  · rintro ⟨entry, member, failure, outcome, canceled⟩
    exact ⟨failure, ⟨entry, member, outcome⟩, canceled⟩
  · rintro ⟨failure, ⟨entry, member, outcome⟩, canceled⟩
    exact ⟨entry, member, failure, outcome, canceled⟩

theorem all_ok_iff (tracks : Tracks history id steps call) (none_left : call.left = 0) :
    (∀ step ∈ call.tally.report.steps, step.status = .ok) ↔
      failures (history.joinedBy id) = [] := by
  constructor
  · intro all
    refine List.eq_nil_iff_forall_not_mem.mpr fun failure member => ?_
    obtain ⟨entry, joined, outcome⟩ := mem_failures.mp member
    obtain ⟨_, _, report⟩ := tracks.report_of_joined joined
    have ok := status_classify_ok.mp (all _ (List.mem_of_getElem? report))
    rw [outcome] at ok
    cases ok
  · intro empty step member
    cases status : step.status with
    | ok => rfl
    | error =>
        obtain ⟨failure, absurd, _⟩ := (tracks.exists_error_iff none_left).mp ⟨step, member, status⟩
        simp [empty] at absurd
    | canceled =>
        obtain ⟨failure, absurd, _⟩ :=
          (tracks.exists_canceled_iff none_left).mp ⟨step, member, status⟩
        simp [empty] at absurd

theorem coherent (tracks : Tracks history id steps call) (none_left : call.left = 0) :
    Coherent history.state call call.tally.report := by
  constructor
  · rw [tracks.error_eq, reported_eq_none, tracks.all_ok_iff none_left]
  · rw [tracks.error_eq, exists_reported_failure, tracks.exists_error_iff none_left]
  · intro failure first other
    rw [tracks.error_eq] at first
    obtain ⟨entry, joined, outcome⟩ := mem_failures.mp (reported_failure first other)
    obtain ⟨step, _, report⟩ := tracks.report_of_joined joined
    obtain ⟨task, found, time, ending, placed, _, present, life, known⟩ :=
      tracks.joined entry joined
    refine ⟨entry.position, _, task, found, time, ending, report,
      status_classify_error.mpr ⟨failure, outcome, other⟩, ?_, placed, present, life, ?_⟩
    · simp [classify, outcome, other]
    · rw [known] at outcome
      exact outcome
  · rw [tracks.error_eq, exists_reported_cancellation, tracks.exists_canceled_iff none_left]
    have no_error := not_congr (tracks.exists_error_iff none_left)
    simp only [not_exists, not_and, Bool.not_eq_false] at no_error
    have nonempty : failures (history.joinedBy id) ≠ [] ↔
        ∃ failure, failure ∈ failures (history.joinedBy id) := by
      constructor
      · exact List.exists_mem_of_ne_nil _
      · rintro ⟨_, member⟩
        exact List.ne_nil_of_mem member
    simp only [ne_eq, no_error, nonempty]
    constructor
    · rintro ⟨all, failure, member⟩
      exact ⟨all, failure, member, all failure member⟩
    · rintro ⟨all, failure, member, _⟩
      exact ⟨all, failure, member⟩

end Tracks

/-! ## The scope of the call -/

def State.isCanceled (state : State) (scope : ScopeId) : Bool :=
  state.scopes[scope]?.any Scope.canceled

/-- Among the moves there is one that cancels the scope and is no turn of the call. -/
def History.CanceledElsewhere (history : History) (id : CallId) (scope : ScopeId)
    (moves : List Move) : Prop :=
  ∃ first move rest, moves = first ++ move :: rest ∧ move ≠ .turn (.call id) ∧
    (history.play first).state.isCanceled scope = false ∧
    ((history.play first).add move).state.isCanceled scope = true

theorem State.isCanceled_of_extends {before after : State}
    (grows : before.scopes.Extends after.scopes) {scope : ScopeId}
    (canceled : before.isCanceled scope = true) : after.isCanceled scope = true := by
  simp only [isCanceled, Option.any_eq_true] at canceled ⊢
  obtain ⟨found, present, flag⟩ := canceled
  obtain ⟨later, here, _, _, stays⟩ := grows scope found present
  exact ⟨later, here, stays flag⟩

theorem Scopes.canceled_cancel {scopes : Scopes} {target : ScopeId} {scope : Scope}
    (present : scopes[target]? = some scope) (own : target ∈ scope.lineage) :
    (scopes.cancel target)[target]? = some { scope with canceled := true } := by
  simp only [cancel, List.getElem?_map, present, Option.map_some,
    List.contains_iff_mem.mpr own, if_true]

namespace History

theorem canceledElsewhere_nil (history : History) (id : CallId) (scope : ScopeId) :
    ¬history.CanceledElsewhere id scope [] := by
  rintro ⟨first, move, rest, split, _⟩
  simp at split

theorem canceledElsewhere_cons (history : History) (id : CallId) (scope : ScopeId) (move : Move)
    (moves : List Move) :
    history.CanceledElsewhere id scope (move :: moves) ↔
      (move ≠ .turn (.call id) ∧ history.state.isCanceled scope = false ∧
        (history.add move).state.isCanceled scope = true) ∨
      (history.add move).CanceledElsewhere id scope moves := by
  constructor
  · rintro ⟨first, other, rest, split, foreign, clear, set⟩
    cases first with
    | nil =>
        obtain ⟨rfl, rfl⟩ := List.cons.inj split
        exact .inl ⟨foreign, clear, set⟩
    | cons head first =>
        obtain ⟨rfl, rfl⟩ := List.cons.inj split
        exact .inr ⟨first, other, rest, rfl, foreign, clear, set⟩
  · rintro (⟨foreign, clear, set⟩ | ⟨first, other, rest, rfl, foreign, clear, set⟩)
    · exact ⟨[], move, moves, rfl, foreign, clear, set⟩
    · exact ⟨move :: first, other, rest, rfl, foreign, clear, set⟩

theorem joinedBy_add_of_ne (history : History) {id : CallId} {move : Move}
    (foreign : move ≠ .turn (.call id)) : (history.add move).joinedBy id = history.joinedBy id := by
  rw [joinedBy_add]
  simp only [List.append_right_eq_self, List.map_eq_nil_iff, List.filter_eq_nil_iff, beq_iff_eq]
  intro entry member equal
  unfold State.joined at member
  split at member
  · rename_i other
    split at member
    · split at member
      · obtain ⟨settled, _, rfl⟩ := List.mem_map.mp member
        exact foreign (equal ▸ rfl)
      · cases member
    · cases member
  · cases member

theorem exists_joinedBy_play (history : History) (id : CallId) (moves : List Move) :
    ∃ more, (history.play moves).joinedBy id = history.joinedBy id ++ more := by
  induction moves generalizing history with
  | nil => exact ⟨[], (List.append_nil _).symm⟩
  | cons move moves ih =>
      obtain ⟨more, joined⟩ := ih (history.add move)
      rw [joinedBy_add, List.append_assoc] at joined
      exact ⟨_, joined⟩

end History

namespace Tracks

variable {history : History} {id : CallId} {steps : List (String × Script)} {call : Call}

theorem scopes_turn_call (tracks : Tracks history id steps call) :
    ∃ new, (history.add (.turn (.call id))).joinedBy id = history.joinedBy id ++ new ∧
      (history.add (.turn (.call id))).state.scopes =
        if failures new = [] then history.state.scopes
        else history.state.scopes.cancel call.scope := by
  by_cases inLine : .call id ∈ history.state.ready
  · refine ⟨_, joinedBy_of_turn_call tracks.found inLine, ?_⟩
    simp only [History.add, State.apply, inLine, if_true, State.run]
    by_cases stopped : (call.aborted || call.ended.isSome) = true
    · have still :
          State.runCall { history.state with ready := history.state.ready.erase (.call id) }
            id = { history.state with ready := history.state.ready.erase (.call id) } :=
        State.runCall_of_over tracks.found stopped
      simp [still, State.entries, stopped, failures]
    · simp only [Bool.or_eq_true, not_or, Bool.not_eq_true, Option.isSome_eq_false_iff,
        Option.isNone_iff_eq_none] at stopped
      obtain ⟨stop, turned⟩ : ∃ stop,
          State.Joins { history.state with ready := history.state.ready.erase (.call id) } id call
            (history.state.entries call) stop
            (State.runCall { history.state with ready := history.state.ready.erase (.call id) }
              id) :=
        State.joins_runCall tracks.found stopped.1 stopped.2
      exact turned.scopes
  · refine ⟨[], ?_, ?_⟩
    · simp [History.joinedBy_add, State.joined, inLine]
      cases history.state.calls[id]? <;> simp
    · simp only [History.add, State.apply, inLine, if_false]
      rfl

/-- From a failure on the scope is canceled. It is canceled without a failure only if it was so
before, or if somebody else has done it. -/
theorem isCanceled_play (tracks : Tracks history id steps call) (sound : history.Sound)
    {scope : Scope} (placed : history.state.scopes[call.scope]? = some scope)
    (own : call.scope ∈ scope.lineage)
    (told : failures (history.joinedBy id) ≠ [] → history.state.isCanceled call.scope = true)
    (moves : List Move) :
    (history.play moves).state.isCanceled call.scope = true ↔
      failures ((history.play moves).joinedBy id) ≠ [] ∨
      history.state.isCanceled call.scope = true ∨
      history.CanceledElsewhere id call.scope moves := by
  induction moves generalizing history call scope with
  | nil =>
      simp only [History.play_nil, History.canceledElsewhere_nil, or_false]
      exact ⟨.inr, fun either => either.elim told fun flag => flag⟩
  | cons move moves ih =>
      obtain ⟨next, tracks', continues⟩ := tracks.add sound move
      have grows : history.state.scopes.Extends (history.add move).state.scopes :=
        State.apply_extends history.state move
      obtain ⟨later, placed', lineage, _, _⟩ := grows call.scope scope placed
      have stays (flag : history.state.isCanceled call.scope = true) :
          (history.add move).state.isCanceled call.scope = true :=
        State.isCanceled_of_extends grows flag
      have told' : failures ((history.add move).joinedBy id) ≠ [] →
          (history.add move).state.isCanceled call.scope = true := by
        intro failed
        by_cases foreign : move = .turn (.call id)
        · subst foreign
          obtain ⟨new, joined, scopes⟩ := tracks.scopes_turn_call
          -- If nothing new has failed then something had failed before.
          by_cases fresh : failures new = []
          · rw [joined, failures_append, fresh, List.append_nil] at failed
            exact stays (told failed)
          · rw [if_neg fresh] at scopes
            simp [State.isCanceled, scopes, Scopes.canceled_cancel placed own]
        · rw [history.joinedBy_add_of_ne foreign] at failed
          exact stays (told failed)
      have reached := ih tracks' (sound.add move) (continues.scope ▸ placed')
        (by rw [continues.scope, lineage]; exact own) (continues.scope ▸ told')
      rw [continues.scope] at reached
      rw [History.play_cons, reached, History.canceledElsewhere_cons]
      constructor
      · rintro (failed | flag | elsewhere)
        · exact .inl failed
        · by_cases before : history.state.isCanceled call.scope = true
          · exact .inr (.inl before)
          · by_cases foreign : move = .turn (.call id)
            · subst foreign
              obtain ⟨new, joined, scopes⟩ := tracks.scopes_turn_call
              obtain ⟨more, joined'⟩ := History.exists_joinedBy_play _ id moves
              by_cases fresh : failures new = []
              · rw [if_pos fresh] at scopes
                rw [State.isCanceled, scopes] at flag
                exact absurd flag before
              · left
                rw [joined', joined, failures_append, failures_append]
                simp [fresh]
            · exact .inr (.inr (.inl ⟨foreign, by simpa using before, flag⟩))
        · exact .inr (.inr (.inr elsewhere))
      · rintro (failed | flag | ⟨_, _, set⟩ | elsewhere)
        · exact .inl failed
        · exact .inr (.inl (stays flag))
        · exact .inr (.inl set)
        · exact .inr (.inr elsewhere)

end Tracks

structure Heeds (history : History) (id : CallId) (call : Call) : Prop where
  error : call.tally.report.error = reported (history.joinedBy id)
  /-- The first failure that is joined cancels the scope, and nothing before it does. -/
  joining : ∀ first rest, call.finished = first ++ rest →
    (history.state.join call first).1 =
      if failures (first.filterMap (history.state.settled? call)) = [] then history.state
      else history.state.cancelScope call.scope
  turn : ∃ new, (history.add (.turn (.call id))).joinedBy id = history.joinedBy id ++ new ∧
    (history.add (.turn (.call id))).state.scopes =
      if failures new = [] then history.state.scopes
      else history.state.scopes.cancel call.scope
  others : ∀ move, move ≠ .turn (.call id) → (history.add move).joinedBy id = history.joinedBy id
  coherent : call.ended.isSome → Coherent history.state call call.tally.report

theorem Tracks.heeds {history : History} {id : CallId} {steps : List (String × Script)}
    {call : Call} (tracks : Tracks history id steps call) : Heeds history id call := by
  constructor
  · exact tracks.error_eq
  · intro first rest _
    rw [State.join_eq]
    rfl
  · exact tracks.scopes_turn_call
  · exact fun move foreign => history.joinedBy_add_of_ne foreign
  · exact fun ended => tracks.coherent (tracks.ended.mp ended)

theorem Scopes.getElem?_derive (scopes : Scopes) (parent : ScopeId) (deadline : Option Nat) :
    ∃ scope, (scopes.derive parent deadline)[scopes.length]? = some scope ∧
      scopes.length ∈ scope.lineage ∧
      scope.canceled = scopes[parent]?.any Scope.canceled := by
  unfold derive
  split
  · rename_i found present
    exact ⟨_, List.getElem?_concat_length, by simp, by simp [present]⟩
  · rename_i missing
    exact ⟨_, List.getElem?_concat_length, by simp, by simp [missing]⟩

end Schedule

/-- The error of a call is the first failure that it joined and that is no cancellation, or else
the first cancellation. Its scope is canceled exactly if it has joined a failure, or the context
was canceled already, or somebody else canceled it. -/
theorem Pipeline.error_first_failure {ρ : Type} (pipeline : Pipeline ρ) (request : ρ)
    (occasion : Occasion) :
    let history := occasion.history (pipeline.scripts request)
    ∃ call, occasion.call? (pipeline.scripts request) = some call ∧
      Heeds history occasion.id call ∧
      (history.state.isCanceled call.scope = true ↔
        failures (history.joinedBy occasion.id) ≠ [] ∨
        occasion.opening.state.isCanceled occasion.context = true ∨
        (occasion.opening.add (.openCall occasion.context (pipeline.scripts request))
          ).CanceledElsewhere occasion.id call.scope occasion.after) := by
  intro history
  have nonempty : pipeline.scripts request ≠ [] := by
    simpa [Pipeline.scripts] using pipeline.nonempty
  obtain ⟨call, tracks, continues⟩ := occasion.exists_tracks nonempty
  have opened := occasion.sound_opening.tracks_openCall occasion.context nonempty
  have sound := occasion.sound_opening.add (.openCall occasion.context (pipeline.scripts request))
  have scopes : (occasion.opening.add (.openCall occasion.context
      (pipeline.scripts request))).state.scopes =
        occasion.opening.state.scopes.derive occasion.context none :=
    (State.opened_openCall occasion.opening.state occasion.context
      (pipeline.scripts request)).scopes
  have unjoined : (occasion.opening.add (.openCall occasion.context
      (pipeline.scripts request))).joinedBy occasion.id = [] :=
    (Tracks.joinedBy_add_of_joined_eq_nil rfl).trans
      (occasion.sound_opening.joinedBy_eq_nil (Nat.le_refl _))
  obtain ⟨scope, placed, own, canceled⟩ :=
    occasion.opening.state.scopes.getElem?_derive occasion.context none
  rw [← scopes] at placed
  have reached := opened.isCanceled_play sound placed own
    (fun failed => absurd (congrArg failures unjoined) failed) occasion.after
  have inherited : (occasion.opening.add (.openCall occasion.context
      (pipeline.scripts request))).state.isCanceled
        (occasion.opening.state.newCall occasion.context (pipeline.scripts request)).scope =
      occasion.opening.state.isCanceled occasion.context := by
    rw [State.isCanceled, State.isCanceled, ← canceled]
    exact congrArg (Option.any Scope.canceled) placed
  rw [inherited, ← continues.scope] at reached
  exact ⟨call, tracks.found, tracks.heeds, reached⟩

/-- One step gives way to the end of its scope. The other does not, and fails later. -/
def Pipeline.stubborn : Pipeline Unit where
  steps :=
    [{ name := "yielding", body := fun _ => [.done], named := by decide },
      { name := "stubborn", body := fun _ => [.sleep 5, .fail (.other (.plain "late"))]
        named := by decide }]
  nonempty := by decide
  distinct := by decide

def Schedule.Occasion.belated : Occasion where
  limiter := .new 1
  before := [.addBackground, .derive 0 none]
  context := 1
  after :=
    [.turn (.task 0), .turn (.task 1), .cancel 1, .turn (.task 0), .turn (.call 0), .jump 5,
      .turn (.task 1), .turn (.call 0)]

/-- A cancellation is joined first, and the failure that is joined after it is the error. -/
theorem Pipeline.error_first_failure_belated :
    let history := Occasion.belated.history (Pipeline.stubborn.scripts ())
    failures (history.joinedBy Occasion.belated.id) =
        [.cancelled .canceled, .other (.plain "late")] ∧
      ∃ call, Occasion.belated.call? (Pipeline.stubborn.scripts ()) = some call ∧
        call.tally.report.error = some (.other (.plain "late")) ∧
        history.state.isCanceled call.scope = true := by
  intro history
  have joined : history.joinedBy Occasion.belated.id =
      [⟨0, 0, some (.cancelled .canceled)⟩, ⟨1, 5, some (.other (.plain "late"))⟩] := rfl
  obtain ⟨call, found, heeds, canceled⟩ :=
    Pipeline.stubborn.error_first_failure () Occasion.belated
  have failed : failures (history.joinedBy Occasion.belated.id) =
      [.cancelled .canceled, .other (.plain "late")] := by rw [joined]; rfl
  refine ⟨failed, call, found, ?_, canceled.mpr (.inl ?_)⟩
  · rw [heeds.error, joined]
    rfl
  · rw [failed]
    exact List.cons_ne_nil _ _

end OrderDesk
