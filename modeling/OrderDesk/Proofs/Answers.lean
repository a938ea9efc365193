import OrderDesk.Proofs.Causes
import OrderDesk.Proofs.Desks
import OrderDesk.Proofs.Separation

/-! What a client is told. Whatever orders compete for couriers, an order is answered as served, as
refused for a problem that one of its steps has met, or as timed out. Nobody is told that an order
was canceled: the only thing that ends the context of an order is its deadline, and what a call
reports is never the echo of its own cancellation. -/

namespace OrderDesk

open Schedule

namespace Schedule

theorem name_classify (name : String) (millis : Nat) (outcome : Outcome) :
    (classify name millis outcome).name = name := by
  unfold classify
  split
  · rfl
  · split <;> rfl

theorem Tally.names_foldl (order : List Settled) (tally : Tally) :
    (order.foldl Tally.settle tally).steps.map StepReport.name = tally.steps.map StepReport.name := by
  induction order generalizing tally with
  | nil => rfl
  | cons settled order ih =>
      rw [List.foldl_cons, ih, steps_settle]
      exact map_modify_of_eq StepReport.name _ _ _ fun pending => name_classify pending.name _ _

theorem Tracks.names_report {history : History} {id : CallId} {steps : List (String × Script)}
    {call : Call} (tracks : Tracks history id steps call) :
    call.tally.report.steps.map StepReport.name = steps.map Prod.fst := by
  rw [tracks.tally, Tally.report, Tally.names_foldl]
  simp [Tally.start, StepReport.pending, Function.comp_def]

end Schedule

namespace Desk

def movesOf (desk : Desk) : List Event → List Move
  | [] => []
  | event :: events => desk.moves event ++ (desk.apply event).movesOf events

theorem state_run (desk : Desk) (events : List Event) :
    (desk.run events).state = desk.state.play (desk.movesOf events) := by
  induction events generalizing desk with
  | nil => rfl
  | cons event events ih =>
      rw [movesOf, State.play_append, ← state_apply]
      exact ih (desk.apply event)

theorem handler_run (desk : Desk) (events : List Event) :
    (desk.run events).handler = desk.handler := by
  induction events generalizing desk with
  | nil => rfl
  | cons event events ih => exact (ih (desk.apply event)).trans (handler_apply desk event)

theorem movesOf_append (desk : Desk) (first second : List Event) :
    desk.movesOf (first ++ second) = desk.movesOf first ++ (desk.run first).movesOf second := by
  induction first generalizing desk with
  | nil => rfl
  | cons event events ih =>
      rw [List.cons_append, movesOf, movesOf, ih, List.append_assoc]
      rfl

theorem exists_moves_of_mem {desk : Desk} {events : List Event} {move : Move}
    (member : move ∈ desk.movesOf events) : ∃ (now : Desk) (event : Event), move ∈ now.moves event := by
  induction events generalizing desk with
  | nil => cases member
  | cons event events ih =>
      rcases List.mem_append.mp member with first | later
      · exact ⟨desk, event, first⟩
      · exact ih later

theorem ne_cancel_of_mem {desk : Desk} {events : List Event} {move : Move}
    (member : move ∈ desk.movesOf events) :
    (∀ target, move ≠ .cancel target) ∧ ∀ scope, move.LeavesAlone scope := by
  obtain ⟨now, event, there⟩ := exists_moves_of_mem member
  cases event <;> simp only [moves] at there
  case handle order =>
    split at there
    · cases there
    · simp only [List.mem_cons, List.not_mem_nil, or_false] at there
      rcases there with rfl | rfl | rfl <;> simp [Move.LeavesAlone]
  all_goals
    obtain rfl := List.mem_singleton.mp there
    simp [Move.LeavesAlone]

theorem staysApart_moves {desk : Desk} (parts : desk.state.Parts) (event : Event) :
    desk.state.StaysApart (desk.moves event) := by
  have outside {context : ScopeId} (new : desk.state.scopes.length ≤ context) :
      context ∉ desk.state.bases :=
    fun member => absurd (parts.known context member) (Nat.not_lt.mpr new)
  cases event with
  | handle order =>
      simp only [moves]
      split
      · trivial
      · exact ⟨trivial, outside (Nat.le_refl _), outside (Nat.le_succ _), trivial⟩
  | drop call => exact ⟨trivial, trivial⟩
  | turn worker => exact ⟨trivial, trivial⟩
  | jump time => exact ⟨trivial, trivial⟩

theorem staysApart_movesOf {desk : Desk} (parts : desk.state.Parts) (events : List Event) :
    desk.state.StaysApart (desk.movesOf events) := by
  induction events generalizing desk with
  | nil => trivial
  | cons event events ih =>
      have reached := state_apply desk event
      refine (State.staysApart_append _ _ _).mpr ⟨staysApart_moves parts event, ?_⟩
      rw [← reached]
      exact ih (reached ▸ parts.play _)

/-- The call for an order that comes in between some events and others. -/
def occasion (settings : Settings) (before : List Event) (order : Order) (after : List Event) :
    Occasion :=
  let desk := (ofSettings settings).run before
  { limiter := .new settings.couriers
    before := (ofSettings settings).movesOf before ++
      [.addBackground,
        .derive desk.state.scopes.length (some (desk.state.clock + settings.requestTimeout))]
    context := desk.state.scopes.length + 1
    after := (desk.apply (.handle order)).movesOf after }

section

variable {settings : Settings} {before after : List Event} {order : Order}

theorem timeout_run : ((ofSettings settings).run before).handler.timeout = settings.requestTimeout := by
  rw [handler_run]
  exact if_neg (Nat.ne_of_gt settings.requestTimeout_pos)

theorem pipeline_run : ((ofSettings settings).run before).handler.pipeline = orderPipeline := by
  rw [handler_run]
  rfl

theorem state_opening : (occasion settings before order after).opening.state =
    ((ofSettings settings).run before).state.play
      [.addBackground,
        .derive ((ofSettings settings).run before).state.scopes.length
          (some (((ofSettings settings).run before).state.clock + settings.requestTimeout))] := by
  rw [Occasion.opening, History.state_play, occasion, State.play_append, state_run]
  rfl

theorem moves_handle (after : List Event) (named : order.id ≠ "") :
    ((ofSettings settings).run before).moves (.handle order) =
      [.addBackground,
        .derive ((ofSettings settings).run before).state.scopes.length
          (some (((ofSettings settings).run before).state.clock + settings.requestTimeout)),
        .openCall (occasion settings before order after).context (orderPipeline.scripts order)] := by
  have given : order.id.isEmpty = false := by simpa using named
  simp only [moves, given, timeout_run, pipeline_run, Bool.false_eq_true, if_false]
  rfl

theorem processing_accept (named : order.id ≠ "") :
    (((ofSettings settings).run before).handler.accept
      ((ofSettings settings).run before).state order).2 =
        .processing order.id (occasion settings before order after).id := by
  have given : order.id.isEmpty = false := by simpa using named
  have same : (occasion settings before order after).id =
      ((ofSettings settings).run before).state.calls.length := by
    rw [Occasion.id, state_opening]
    rfl
  simp only [Handler.accept, given, Bool.false_eq_true, if_false, same]
  rfl

theorem moves_occasion (named : order.id ≠ "") :
    (occasion settings before order after).before ++
        .openCall (occasion settings before order after).context (orderPipeline.scripts order) ::
          (occasion settings before order after).after =
      (ofSettings settings).movesOf (before ++ .handle order :: after) := by
  rw [movesOf_append, movesOf, moves_handle after named]
  simp [occasion]

theorem state_history (named : order.id ≠ "") :
    ((occasion settings before order after).history (orderPipeline.scripts order)).state =
      ((ofSettings settings).run (before ++ .handle order :: after)).state := by
  rw [state_run, ← moves_occasion named, State.play_append, Occasion.history, History.state_play,
    Occasion.opening, History.state_play]
  rfl

theorem length_scopes_opening : (occasion settings before order after).scope =
    ((ofSettings settings).run before).state.scopes.length + 2 := by
  rw [Occasion.scope, state_opening]
  simp [State.apply, State.addBackground, State.derive, Scopes.addBackground, Scopes.derive]

theorem getElem?_context :
    (occasion settings before order after).opening.state.scopes[
        (occasion settings before order after).context]? =
      some {
        lineage := [((ofSettings settings).run before).state.scopes.length + 1,
          ((ofSettings settings).run before).state.scopes.length]
        deadline := some (((ofSettings settings).run before).state.clock + settings.requestTimeout)
        canceled := false } := by
  rw [state_opening]
  simp [occasion, State.apply, State.addBackground, State.derive, Scopes.addBackground,
    Scopes.derive, earlier]

theorem parts_run : ((ofSettings settings).run before).state.Parts := by
  rw [state_run]
  exact (State.parts_start _).play _

theorem discreet_occasion :
    (occasion settings before order after).Discreet (orderPipeline.scripts order) := by
  refine ⟨?_, ?_, ?_⟩
  · rw [length_scopes_opening]
    exact Nat.lt_succ_self _
  · intro step member listed
    obtain ⟨position, placed⟩ := List.getElem?_of_mem member
    obtain ⟨rest, same, plain, _⟩ := @script_of_order order 0 position step placed
    rw [same] at listed
    rcases List.mem_cons.mp listed with first | later
    · cases first
    · exact absurd (plain _ later) (by decide)
  · intro move member
    rcases List.mem_append.mp member with early | late
    · rcases List.mem_append.mp early with old | new
      · exact (ne_cancel_of_mem old).2 _
      · simp only [List.mem_cons, List.not_mem_nil, or_false] at new
        rcases new with rfl | rfl <;> trivial
    · exact (ne_cancel_of_mem late).2 _

/-- The context of an order ends after the timeout, and nobody cancels it before. -/
theorem context_play (settings : Settings) (before : List Event) (named : order.id ≠ "")
    {first rest : List Move}
    (split : (occasion settings before order after).after = first ++ rest) :
    ∃ own, (((occasion settings before order after).opened
        (orderPipeline.scripts order)).state.play first).scopes[
          (occasion settings before order after).context]? = some own ∧
      own.deadline = some (((ofSettings settings).run before).state.clock +
        settings.requestTimeout) ∧ own.canceled = false := by
  have desk : (ofSettings settings).state.Parts := State.parts_start _
  have stays := staysApart_movesOf desk (before ++ .handle order :: after)
  rw [← moves_occasion named, split, State.staysApart_append, ← List.cons_append,
    State.staysApart_append] at stays
  obtain ⟨early, between, _⟩ := stays
  have separate := (State.separate_start (.new settings.couriers)).play early
  have same : (ofSettings settings).state.play (occasion settings before order after).before =
      (occasion settings before order after).opening.state := by
    rw [Occasion.opening, History.state_play]
    rfl
  have known : (occasion settings before order after).context <
      (occasion settings before order after).opening.state.scopes.length := discreet_occasion.known
  have outside : (occasion settings before order after).context ∉
      (occasion settings before order after).opening.state.bases := fun member => by
    rw [state_opening] at member
    exact absurd (parts_run.known _ member) (by simp [occasion])
  rw [same] at between
  have still := State.Separate.getElem?_play (same ▸ separate) known outside between ?_
  · exact ⟨_, still.trans getElem?_context, rfl, rfl⟩
  · intro scope member
    rcases List.mem_cons.mp member with other | later
    · cases other
    · have listed : .cancel scope ∈ (occasion settings before order after).after :=
        split ▸ List.mem_append_left _ later
      exact (ne_cancel_of_mem listed).1 scope rfl

/-- What a body of an order meets is the deadline. -/
theorem deadline_of_cause (named : order.id ≠ "") {first rest : List Move} {cause : Cause}
    (split : (occasion settings before order after).after = first ++ rest)
    (ended : (((occasion settings before order after).opened
      (orderPipeline.scripts order)).state.play first).cause?
        (occasion settings before order after).context = some cause) : cause = .deadline := by
  obtain ⟨own, found, _, canceled⟩ := context_play settings before named split
  simp only [State.cause?, Scopes.cause?, found, canceled] at ended
  split at ended
  · exact (Option.some.inj ended).symm
  · cases ended

end

end Desk

theorem fail_of_order {order : Order} {step : String × Script}
    (member : step ∈ orderPipeline.scripts order) :
    (∀ action ∈ step.2, ∀ failure, action.failure? = some failure →
      ∃ note problem, failure = .within note (.ofOrderProblem problem)) ∧
    ∀ message, .crash message ∉ step.2 := by
  have failIf_cases (fails : Bool) (note : String) (problem : OrderProblem) (action : Action)
      (listed : action ∈ failIf fails note problem) :
      action = .fail (.within note (.ofOrderProblem problem)) := by
    cases fails with
    | true => exact List.mem_singleton.mp listed
    | false => cases listed
  simp only [Pipeline.scripts, orderPipeline, List.map_cons, List.map_nil, List.mem_cons,
    List.not_mem_nil, or_false] at member
  rcases member with rfl | rfl | rfl
  all_goals
    constructor
    · intro action listed failure own
      rcases List.mem_append.mp listed with work | fails
      · simp only [List.mem_cons, List.not_mem_nil, or_false] at work
        rcases work with rfl | rfl | rfl <;> cases own
      · obtain rfl := failIf_cases _ _ _ _ fails
        exact ⟨_, _, (Option.some.inj own).symm⟩
    · intro message listed
      rcases List.mem_append.mp listed with work | fails
      · simp at work
      · cases failIf_cases _ _ _ _ fails

/-- A step of an order fails for a problem of the order, or because its body has met the end of its
scope. -/
theorem Schedule.Occasion.failure_of_order (occasion : Occasion) {order : Order} {task : TaskId}
    {found : Task} {position time : Nat} {ending : Ending} {failure : Failure}
    (reached : (occasion.history (orderPipeline.scripts order)).state.tasks[task]? = some found)
    (works : found.duty = some ⟨occasion.id, position⟩) (life : found.life = .ended time ending)
    (outcome : ending.outcome = some failure) :
    (∃ note problem, failure = .within note (.ofOrderProblem problem)) ∨
      ∃ cause, failure = .cancelled cause ∧ ∃ first,
        (occasion.opened (orderPipeline.scripts order)).state.Meets occasion.after first
          ⟨⟨occasion.id, position⟩, cause⟩ := by
  obtain ⟨step, met, named, source, meets⟩ :=
    occasion.exists_ending_source (scripts_ne_nil order) reached works life
  obtain ⟨fails, sane⟩ := fail_of_order (List.mem_of_getElem? named)
  match ending, outcome, source with
  | .returned _ _, rfl, .inl ⟨action, listed, own⟩ => exact .inl (fails action listed failure own)
  | .returned _ _, rfl, .inr ⟨cause, found, same⟩ => exact .inr ⟨cause, same, meets cause found⟩
  | .crashed message, _, listed => exact absurd listed (sane message)

theorem cancellation_ofOrderProblem (note : String) (problem : OrderProblem) :
    (Failure.within note (.ofOrderProblem problem)).cancellation = none := rfl

def OrderProblem.status : OrderProblem → Nat
  | paymentDeclined => 400
  | vendorUnavailable | noCourier => 503

theorem statusForKind_tag (problem : OrderProblem) : statusForKind problem.tag = problem.status := by
  cases problem <;> decide

/-! ## Answers -/

namespace Answer

inductive Stands (answer : Answer) : Prop
  | served (status : answer.status = 200) (told : answer.reply.status = .ok)
      (error : answer.reply.error = none) (steps : ∀ step ∈ answer.reply.steps, step.status = .ok)
  | timedOut (status : answer.status = 504) (told : answer.reply.status = .error)
      (error : answer.reply.error = some ⟨"timeout", "order failed"⟩)
      (unfailed : ∀ step ∈ answer.reply.steps, step.status ≠ .error)
      (canceled : ∃ step ∈ answer.reply.steps, step.status = .canceled)
  | refused (problem : OrderProblem) (status : answer.status = problem.status)
      (told : answer.reply.status = .error)
      (error : answer.reply.error = some ⟨problem.tag, "order failed"⟩)
      (source : ∃ step ∈ answer.reply.steps, step.status = .error ∧ step.detail = problem.tag)

theorem Stands.not_canceled {answer : Answer} (stands : answer.Stands) :
    answer.status ≠ statusForKind "canceled" ∧ answer.status ≠ statusForKind "internal" ∧
      ∀ refusal ∈ answer.reply.error, refusal.kind ≠ "canceled" ∧ refusal.kind ≠ "internal" := by
  cases stands with
  | served status _ error _ => simp [status, error, statusForKind, Reply.badRequestKind]
  | timedOut status _ error _ _ => simp [status, error, statusForKind, Reply.badRequestKind]
  | refused problem status _ error _ =>
      cases problem <;>
        simp [status, error, statusForKind, Reply.badRequestKind, OrderProblem.status,
          OrderProblem.tag]

end Answer

namespace Desk

variable {settings : Settings} {before after : List Event} {order : Order}

theorem stands_ofReport (named : order.id ≠ "") {call : Call}
    (found : (occasion settings before order after).call? (orderPipeline.scripts order) = some call)
    (ended : call.ended.isSome = true) : (Answer.ofReport order.id call.tally.report).Stands := by
  let occasion := occasion settings before order after
  obtain ⟨again, tracks, _⟩ := occasion.exists_tracks (scripts_ne_nil order)
  obtain rfl : call = again := Option.some.inj (found.symm.trans tracks.found)
  have coherent := tracks.coherent (tracks.ended.mp ended)
  have own {position : Nat} {task : TaskId} {stopped : Task}
      (placed : call.tasks[position]? = some task)
      (present : (occasion.history (orderPipeline.scripts order)).state.tasks[task]? =
        some stopped) : stopped.duty = some ⟨occasion.id, position⟩ := by
    obtain ⟨_, same, _, present', working⟩ := tracks.exists_working placed
    obtain rfl := Option.some.inj (present.symm.trans present')
    exact working.duty
  cases reports : call.tally.report.error with
  | none =>
      refine .served ?_ ?_ ?_ ?_ <;> simp only [Answer.ofReport, reports, statusFor, Reply.ok]
      exact coherent.none_iff.mp reports
  | some failure =>
      cases kind : failure.isCancellation with
      | true =>
          obtain ⟨position, ⟨task, stopped, _, ending, placed, present, life, outcome⟩, context⟩ :=
            discreet_occasion.exists_traced (scripts_ne_nil order) found reports kind
          obtain ⟨unfailed, canceled⟩ := coherent.cancellation_iff.mp ⟨failure, reports, kind⟩
          rcases occasion.failure_of_order present (own placed present) life outcome with
            ⟨note, problem, rfl⟩ | ⟨cause, rfl, first, meets⟩
          · simp [Failure.isCancellation, cancellation_ofOrderProblem] at kind
          · have ended := context first cause meets
            obtain ⟨move, rest, split, _⟩ := meets
            obtain rfl := deadline_of_cause named split ended
            refine .timedOut ?_ ?_ ?_ ?_ ?_ <;>
              simp only [Answer.ofReport, reports, statusFor, Reply.failed]
            · rfl
            · rfl
            · exact unfailed
            · exact canceled
      | false =>
          obtain ⟨position, step, task, stopped, _, ending, there, error, detail, placed, present,
            life, outcome⟩ := coherent.source failure reports kind
          rcases occasion.failure_of_order present (own placed present) life outcome with
            ⟨note, problem, rfl⟩ | ⟨cause, rfl, _⟩
          · have wire : (Failure.within note (.ofOrderProblem problem)).wireKind = problem.tag := rfl
            refine .refused problem ?_ ?_ ?_ ?_ <;>
              simp only [Answer.ofReport, reports, statusFor, Reply.failed, wire]
            · exact statusForKind_tag problem
            · exact ⟨step, List.mem_of_getElem? there, error, detail⟩
          · cases kind

/-- Whatever orders compete for couriers and in whatever order turns are taken, every answer to an
order that has a reference is about its three steps, and it is that the order was served, that it
timed out, or that it was refused for a problem that one of the steps reports. -/
theorem answers_stand (settings : Settings) (before after : List Event) (order : Order)
    (named : order.id ≠ "") :
    let desk := (ofSettings settings).run before
    let progress := (desk.handler.accept desk.state order).2
    let final := (ofSettings settings).run (before ++ .handle order :: after)
    ∀ answer time, progress.answer? final.state = some (answer, time) →
      answer.reply.orderId = order.id ∧
      answer.reply.steps.map StepReport.name = ["payment", "vendor", "courier"] ∧
      answer.Stands ∧ answer.status ≠ 408 ∧ answer.status ≠ 500 ∧
      ∀ refusal ∈ answer.reply.error, refusal.kind ≠ "canceled" ∧ refusal.kind ≠ "internal" := by
  intro desk progress final answer time answered
  let occasion := occasion settings before order after
  have processing : progress = .processing order.id occasion.id := processing_accept named
  have reached : final.state = (occasion.history (orderPipeline.scripts order)).state :=
    (state_history named).symm
  rw [processing, reached] at answered
  simp only [Handler.Progress.answer?, Option.bind_eq_bind, Option.bind_eq_some_iff,
    Option.pure_def, Option.some.injEq, Prod.mk.injEq] at answered
  obtain ⟨call, found, stop, ended, rfl, _⟩ := answered
  obtain ⟨again, tracks, _⟩ := occasion.exists_tracks (scripts_ne_nil order)
  obtain rfl : call = again := Option.some.inj (found.symm.trans tracks.found)
  have names : call.tally.report.steps.map StepReport.name = ["payment", "vendor", "courier"] :=
    tracks.names_report
  have stands := stands_ofReport named found (by simp [ended])
  refine ⟨?_, ?_, stands, stands.not_canceled.1, stands.not_canceled.2.1, stands.not_canceled.2.2⟩
  · unfold Answer.ofReport
    split <;> rfl
  · unfold Answer.ofReport
    split <;> exact names

/-- Two orders want the only courier, and the second one times out in line. -/
theorem answers_stand_contested :
    let settings : Settings := { couriers := 1, timeoutMillis := 10, logFormat := .pretty }
    let before := [.handle (.new "first" 5)]
    let after := [.turn (.task 0), .turn (.task 1), .turn (.task 2), .turn (.task 3),
      .turn (.task 4), .turn (.task 5), .jump 10, .turn (.task 3), .turn (.task 4), .turn (.task 5),
      .turn (.call 1)]
    let desk := (ofSettings settings).run before
    let progress := (desk.handler.accept desk.state (.new "second" 5)).2
    let final := (ofSettings settings).run (before ++ .handle (.new "second" 5) :: after)
    ∃ answer, progress.answer? final.state = some (answer, 10) ∧ answer.status = 504 ∧
      answer.Stands := by
  intro settings before after desk progress final
  have result : (progress.answer? final.state).map (fun answer => (answer.1.status, answer.2)) =
      some (504, 10) := by
    decide +kernel
  obtain ⟨⟨answer, time⟩, answered, same⟩ := Option.map_eq_some_iff.mp result
  obtain ⟨status, rfl⟩ := Prod.mk.inj same
  exact ⟨answer, answered, status,
    (answers_stand settings before after (.new "second" 5) (by decide) answer 10 answered).2.2.1⟩

end Desk

end OrderDesk
