import OrderDesk.Proofs.BusyTasks
import OrderDesk.Proofs.Deadlines

/-! What events come to, and the calls of a desk while nobody is in line to run. The tasks of a call
are waiting or over then. If the call has been given up, or has ended, or its time is up, or one of
its tasks has not ended well, then all its tasks are over. If a call that has not been given up has a
task that has been stopped, then its time is up, or another of its tasks has failed. -/

namespace OrderDesk

open Schedule

namespace Desk

variable {settings : Settings} {desk : Desk} {orders : List Order} {order : Order} {id : CallId}
  {call : Call}

abbrev stateAfter (settings : Settings) (events : List Event) : State :=
  ((ofSettings settings).run events).state

theorem run_append (desk : Desk) (first second : List Event) :
    desk.run (first ++ second) = (desk.run first).run second :=
  List.foldl_append

theorem usual_run (settings : Settings) (events : List Event) :
    ((ofSettings settings).run events).handler.pipeline = orderPipeline := by
  rw [handler_run]
  rfl

def Event.move? : Event → Option Move
  | .handle _ => none
  | .drop call => some (.abortCall call)
  | .turn worker => some (.turn worker)
  | .jump time => some (.jump time)

theorem Event.eq_drop {event : Event} {id : CallId} (same : event.move? = some (.abortCall id)) :
    event = .drop id := by
  cases event <;> simp_all [Event.move?]

inductive Effect (desk : Desk) : Event → State → Prop
  | refused {order : Order} (unnamed : order.id = "") : Effect desk (.handle order) desk.state
  | opened {order : Order} (named : order.id ≠ "") (state : State) (context : ScopeId)
      (tasks : state.tasks = desk.state.tasks) (calls : state.calls = desk.state.calls)
      (limiter : state.limiter = desk.state.limiter) (clock : state.clock = desk.state.clock) :
      Effect desk (.handle order) (state.openCall context (orderPipeline.scripts order)).1
  | moved {event : Event} {move : Move} (same : event.move? = some move) :
      Effect desk event (desk.state.apply move)

theorem exists_effect (usual : desk.handler.pipeline = orderPipeline) (event : Event) :
    ∃ after, (desk.apply event).state = after ∧ desk.Effect event after := by
  cases event with
  | handle order =>
      by_cases named : order.id = ""
      · refine ⟨_, ?_, .refused named⟩
        simp [apply, Handler.accept, named]
      · have given : ¬ order.id.isEmpty = true := by simpa using named
        let state : State := desk.state.play [.addBackground,
          .derive desk.state.scopes.length (some (desk.state.clock + desk.handler.timeout))]
        refine ⟨_, ?_, .opened named state (desk.state.scopes.length + 1) rfl rfl rfl rfl⟩
        rw [state_apply, moves, if_neg given, usual]
        rfl
  | drop call => exact ⟨desk.state.apply (.abortCall call), rfl, .moved rfl⟩
  | turn worker => exact ⟨desk.state.apply (.turn worker), rfl, .moved rfl⟩
  | jump time => exact ⟨desk.state.apply (.jump time), rfl, .moved rfl⟩

theorem Event.sameWiring {event : Event} {move : Move} (same : event.move? = some move)
    (state : State) : state.SameWiring (state.apply move) := by
  cases event with
  | handle order => cases same
  | drop call | turn worker | jump time =>
      obtain rfl := Option.some.inj same
      exact State.sameWiring_of_kind (by simp) (by simp) state

theorem calls_apply (usual : desk.handler.pipeline = orderPipeline) (event : Event) :
    (desk.apply event).state.calls.length = desk.state.calls.length ∨
      ∃ order, event = .handle order ∧ order.id ≠ "" ∧
        (desk.apply event).state.calls.length = desk.state.calls.length + 1 := by
  obtain ⟨after, same, effect⟩ := exists_effect usual event
  rw [same]
  cases effect with
  | refused unnamed => exact .inl rfl
  | @opened order named state context _ calls =>
      refine .inr ⟨order, rfl, named, ?_⟩
      rw [(State.opened_openCall _ _ _).calls, List.length_append, List.length_singleton, calls]
  | moved kind =>
      have rosters := congrArg List.length (Event.sameWiring kind desk.state).rosters
      simp only [State.rosters, List.length_map] at rosters
      exact .inl rosters

theorem exists_handle {desk : Desk} (usual : desk.handler.pipeline = orderPipeline)
    (events : List Event) {id : CallId} (known : id < (desk.run events).state.calls.length) :
    id < desk.state.calls.length ∨ ∃ before order after, events = before ++ .handle order :: after ∧
      order.id ≠ "" ∧ (desk.run before).state.calls.length = id := by
  induction events generalizing desk with
  | nil => exact .inl known
  | cons event events ih =>
      rcases ih (handler_apply desk event ▸ usual) known with
        early | ⟨before, order, after, rfl, named, count⟩
      · rcases calls_apply usual event with same | ⟨order, rfl, named, more⟩
        · exact .inl (same ▸ early)
        · rcases Nat.lt_succ_iff_lt_or_eq.mp (more ▸ early) with old | last
          · exact .inl old
          · exact .inr ⟨[], order, events, rfl, named, last.symm⟩
      · exact .inr ⟨event :: before, order, after, rfl, named, count⟩

structure Charge (settings : Settings) (orders : List Order) (state : State) (id : CallId) (call : Call)
    (order : Order) : Prop where
  listed : orders[id]? = some order
  attentive : ∃ history, history.state = state ∧ Attentive history id (orderPipeline.scripts order) call
  deadline : state.scopes.deadline? call.context = some (call.started + settings.requestTimeout)
  reason : call.ended.isSome = true → ∀ failure, call.tally.report.error = some failure →
    call.started + settings.requestTimeout ≤ state.clock ∨
      ∃ task ∈ call.tasks, ∃ found, state.tasks[task]? = some found ∧ found.stage = .finished .failed

theorem taken_append (first second : List Event) :
    taken (first ++ second) = taken first ++ taken second :=
  List.filterMap_append

theorem taken_handle (named : order.id ≠ "") (events : List Event) :
    taken (.handle order :: events) = order :: taken events := by
  have given : order.id.isEmpty = false := by simpa using named
  simp [taken, Event.taken?, given]

theorem manned_of_run (settings : Settings) (events : List Event) :
    (stateAfter settings events).Manned (taken events) := by
  have first : (ofSettings settings).state.Manned [] :=
    ⟨rfl, fun id task found => by simp [ofSettings, new, State.start] at found⟩
  simpa using manned_run rfl first events

/-- If a call for an order reports an error, then its time was up, or a step of it has failed. -/
theorem reason_of_error {before after : List Event}
    (found : (occasion settings before order after).call? (orderPipeline.scripts order) = some call)
    (ended : call.ended.isSome = true) {failure : Failure}
    (reports : call.tally.report.error = some failure) :
    let state := ((occasion settings before order after).history (orderPipeline.scripts order)).state
    (state.cause? (occasion settings before order after).context).isSome = true ∨
      ∃ task ∈ call.tasks, ∃ found, state.tasks[task]? = some found ∧
        found.stage = .finished .failed := by
  intro state
  let occasion := occasion settings before order after
  obtain ⟨again, tracks, _⟩ := occasion.exists_tracks (scripts_ne_nil order)
  obtain rfl : call = again := Option.some.inj (found.symm.trans tracks.found)
  have coherent := tracks.coherent (tracks.ended.mp ended)
  cases kind : failure.isCancellation with
  | false =>
      obtain ⟨position, _, task, stopped, _, ending, _, _, _, placed, present, life, outcome⟩ :=
        coherent.source failure reports kind
      refine .inr ⟨task, List.mem_of_getElem? placed, stopped, present, ?_⟩
      rw [State.stage_of_ended life]
      cases ending with
      | returned millis outcome' =>
          obtain rfl : outcome' = some failure := outcome
          simp [Ending.finish, kind]
      | crashed message => rfl
  | true =>
      obtain ⟨position, ⟨task, stopped, _, ending, placed, present, life, outcome⟩, context⟩ :=
        discreet_occasion.exists_traced (scripts_ne_nil order) found reports kind
      have own : stopped.duty = some ⟨occasion.id, position⟩ := by
        obtain ⟨_, same, _, present', working⟩ := tracks.exists_working placed
        obtain rfl := Option.some.inj (present.symm.trans present')
        exact working.duty
      rcases occasion.failure_of_order present own life outcome with
        ⟨note, problem, rfl⟩ | ⟨cause, rfl, first, meets⟩
      · simp [Failure.isCancellation, cancellation_ofOrderProblem] at kind
      · have met := context first cause meets
        obtain ⟨move, rest, split, _⟩ := meets
        have later := State.cause_isSome_play _ (move :: rest) (by rw [met]; rfl :
          (((occasion.opened (orderPipeline.scripts order)).state.play first).cause?
            occasion.context).isSome = true)
        rw [← State.play_append, ← split, ← History.state_play] at later
        exact .inl later

theorem exists_charge (settings : Settings) (events : List Event)
    (found : (stateAfter settings events).calls[id]? = some call) :
    ∃ order, Charge settings (taken events) (stateAfter settings events) id call order := by
  have known := (List.getElem?_eq_some_iff.mp found).1
  rcases exists_handle rfl events known with none_before | ⟨before, order, after, rfl, named, count⟩
  · simp [ofSettings, new, State.start] at none_before
  · let occasion := occasion settings before order after
    have reached : (occasion.history (orderPipeline.scripts order)).state =
        ((ofSettings settings).run (before ++ .handle order :: after)).state := state_history named
    have own : occasion.id = id := by
      rw [← count, Occasion.id, state_opening]
      rfl
    have called : occasion.call? (orderPipeline.scripts order) = some call := by
      rw [Occasion.call?, reached, own]
      exact found
    obtain ⟨now, attentive, continues, _⟩ := occasion.exists_attentive (scripts_ne_nil order)
      discreet_occasion.known (fun step member millis => awake_of_order member millis) called
      (List.append_nil occasion.after).symm
    rw [occasion.play_opened] at attentive
    obtain rfl : call = now := Option.some.inj (called.symm.trans attentive.tracks.found)
    obtain ⟨again, tracks, opened⟩ := occasion.exists_tracks (scripts_ne_nil order)
    obtain rfl : call = again := Option.some.inj (called.symm.trans tracks.found)
    obtain ⟨scope, placed, deadline, canceled⟩ :=
      context_play settings before named (List.append_nil occasion.after).symm
    rw [← History.state_play, occasion.play_opened, reached] at placed
    have context : call.context = occasion.context := opened.context
    have started : call.started = ((ofSettings settings).run before).state.clock := by
      rw [opened.started]
      change occasion.opening.state.clock = _
      rw [state_opening]
      rfl
    refine ⟨order, ?_, ⟨_, reached, own ▸ attentive⟩, ?_, fun ended failure reports => ?_⟩
    · have size := (manned_of_run settings before).size
      rw [taken_append, taken_handle named, ← count, size]
      simp
    · rw [started, context]
      exact Option.bind_eq_some_iff.mpr ⟨scope, placed, deadline⟩
    · have reason := reason_of_error called ended reports
      simp only [occasion] at reached
      rw [reached] at reason
      refine reason.imp_left fun finished => ?_
      simp only [State.cause?, Scopes.cause?] at finished placed
      rw [placed] at finished
      simp only [deadline, canceled, Option.any_some, decide_eq_true_eq] at finished
      rw [started]
      by_contra early
      simp [early] at finished

structure IsPart (state : State) (id : CallId) (task : TaskId) (found : Task) : Prop where
  present : state.tasks[task]? = some found
  works : ∃ position, found.duty = some ⟨id, position⟩

namespace Charge

variable {state : State} {task : TaskId} {found : Task} {finish : Finish}

theorem placed_of_isPart (charge : Charge settings orders state id call order)
    (part : IsPart state id task found) : ∃ position : Nat, call.tasks[position]? = some task := by
  obtain ⟨history, rfl, attentive⟩ := charge.attentive
  obtain ⟨position, works⟩ := part.works
  obtain ⟨again, known, placed⟩ :=
    (attentive.sound.wired task id position).mp ⟨found, part.present, works⟩
  obtain rfl : call = again := Option.some.inj (attentive.tracks.found.symm.trans known)
  exact ⟨position, placed⟩

theorem exists_part (charge : Charge settings orders state id call order) (member : task ∈ call.tasks) :
    ∃ found, IsPart state id task found := by
  obtain ⟨history, rfl, attentive⟩ := charge.attentive
  obtain ⟨position, placed⟩ := List.getElem?_of_mem member
  obtain ⟨_, found, _, present, working⟩ := attentive.tracks.exists_working placed
  exact ⟨found, present, position, working.duty⟩

theorem past_of_ended (charge : Charge settings orders state id call order)
    (part : IsPart state id task found) {time : Nat} {ending : Ending}
    (life : found.life = .ended time ending) : time ≤ state.clock := by
  obtain ⟨position, placed⟩ := charge.placed_of_isPart part
  obtain ⟨history, rfl, attentive⟩ := charge.attentive
  exact (attentive.minded position task found placed part.present).past time ending life

theorem over_of_ended (charge : Charge settings orders state id call order)
    (ended : call.ended.isSome = true) (part : IsPart state id task found) :
    ∃ time ending, found.life = .ended time ending := by
  obtain ⟨position, placed⟩ := charge.placed_of_isPart part
  obtain ⟨history, rfl, attentive⟩ := charge.attentive
  obtain ⟨again, time, ending, present, life⟩ := attentive.life_of_ended ended placed
  obtain rfl : found = again := Option.some.inj (part.present.symm.trans present)
  exact ⟨time, ending, life⟩

theorem over_of_aborted (charge : Charge settings orders state id call order)
    (quiet : state.ready = []) (aborted : call.aborted = true) (part : IsPart state id task found) :
    ∃ finish, found.stage = .finished finish := by
  obtain ⟨position, placed⟩ := charge.placed_of_isPart part
  obtain ⟨history, rfl, attentive⟩ := charge.attentive
  obtain ⟨_, again, _, present, working⟩ := attentive.tracks.exists_working placed
  obtain rfl : found = again := Option.some.inj (part.present.symm.trans present)
  cases life : found.life with
  | live => exact absurd life (working.given aborted)
  | doomed => simpa [quiet] using working.doomed life
  | ended time ending => exact ⟨ending.finish, State.stage_of_ended life⟩
  | dropped => exact ⟨.stopped, by simp [Task.stage, life]⟩

/-- All parts of a call that has come to its end or has been given up are over once nobody is in
line. -/
theorem over_of_done (charge : Charge settings orders state id call order) (quiet : state.ready = [])
    (done : call.aborted = true ∨ call.ended.isSome = true) (part : IsPart state id task found) :
    ∃ finish, found.stage = .finished finish := by
  rcases done with aborted | ended
  · exact charge.over_of_aborted quiet aborted part
  · obtain ⟨time, ending, life⟩ := charge.over_of_ended ended part
    exact ⟨ending.finish, State.stage_of_ended life⟩

theorem ended_of_urgent (charge : Charge settings orders state id call order)
    (quiet : state.ready = []) (going : call.aborted = false) (urgent : state.Urgent call) :
    call.ended.isSome = true := by
  obtain ⟨history, rfl, attentive⟩ := charge.attentive
  cases ended : call.ended with
  | some stop => rfl
  | none => exact absurd urgent (attentive.not_urgent quiet going ended)

theorem cause_of_late (charge : Charge settings orders state id call order)
    (part : IsPart state id task found)
    (late : call.started + settings.requestTimeout ≤ state.clock) :
    (state.cause? found.scope).isSome = true := by
  obtain ⟨position, placed⟩ := charge.placed_of_isPart part
  have deadline := charge.deadline
  obtain ⟨history, rfl, attentive⟩ := charge.attentive
  obtain ⟨_, again, _, present, working⟩ := attentive.tracks.exists_working placed
  obtain rfl : found = again := Option.some.inj (part.present.symm.trans present)
  rw [working.scope]
  exact State.cause_of_deadline _ (attentive.links.deadline_eq.trans deadline) late

theorem urgent_of_late (charge : Charge settings orders state id call order)
    (late : call.started + settings.requestTimeout ≤ state.clock) : state.Urgent call :=
  .inr (state.cause_of_deadline charge.deadline late)

theorem ended_of_going (charge : Charge settings orders state id call order)
    (going : call.aborted = false) (part : IsPart state id task found)
    (stage : found.stage = .finished finish) :
    ∃ time ending, found.life = .ended time ending ∧ ending.finish = finish := by
  obtain ⟨position, placed⟩ := charge.placed_of_isPart part
  obtain ⟨history, rfl, attentive⟩ := charge.attentive
  have minded := attentive.minded position task found placed part.present
  cases life : found.life with
  | live =>
      simp only [Task.stage, life] at stage
      split at stage
      · cases wake : found.wake <;> simp [wake] at stage
      · cases stage
  | doomed => simp [Task.stage, life] at stage
  | ended time ending =>
      simp only [Task.stage, life, Stage.finished.injEq] at stage
      exact ⟨time, ending, rfl, stage⟩
  | dropped =>
      have given := minded.given (.inr life)
      rw [going] at given
      cases given

theorem ended_of_bad (charge : Charge settings orders state id call order) (quiet : state.ready = [])
    (going : call.aborted = false) (part : IsPart state id task found)
    (stage : found.stage = .finished finish) (bad : finish ≠ .served) : call.ended.isSome = true := by
  obtain ⟨time, ending, life, rfl⟩ := charge.ended_of_going going part stage
  obtain ⟨failure, outcome⟩ := Option.ne_none_iff_exists'.mp (mt Ending.finish_eq_served.mpr bad)
  obtain ⟨position, placed⟩ := charge.placed_of_isPart part
  exact charge.ended_of_urgent quiet going
    (.inl (.failed task found time ending failure (List.mem_of_getElem? placed) part.present life
      outcome))

theorem ended_of_over (charge : Charge settings orders state id call order) (quiet : state.ready = [])
    (going : call.aborted = false)
    (finished : ∀ task found, IsPart state id task found → ∃ finish, found.stage = .finished finish) :
    call.ended.isSome = true := by
  refine charge.ended_of_urgent quiet going (.inl (.complete fun task member => ?_))
  obtain ⟨found, part⟩ := charge.exists_part member
  obtain ⟨finish, stage⟩ := finished task found part
  obtain ⟨time, ending, life, _⟩ := charge.ended_of_going going part stage
  exact ⟨found, time, ending, part.present, life⟩

/-- A part that has not ended well tells of a part that has failed, unless the time is up. -/
theorem reason_of_bad (charge : Charge settings orders state id call order) (quiet : state.ready = [])
    (going : call.aborted = false) (part : IsPart state id task found)
    (stage : found.stage = .finished finish) (bad : finish ≠ .served) :
    call.started + settings.requestTimeout ≤ state.clock ∨
      ∃ task found, IsPart state id task found ∧ found.stage = .finished .failed := by
  have ended := charge.ended_of_bad quiet going part stage bad
  obtain ⟨time, ending, life, rfl⟩ := charge.ended_of_going going part stage
  obtain ⟨failure, outcome⟩ := Option.ne_none_iff_exists'.mp (mt Ending.finish_eq_served.mpr bad)
  obtain ⟨position, placed⟩ := charge.placed_of_isPart part
  have some_error : ∃ failure, call.tally.report.error = some failure := by
    obtain ⟨history, rfl, attentive⟩ := charge.attentive
    have none_left := attentive.tracks.ended.mp ended
    obtain ⟨step, _, named, _⟩ := attentive.tracks.exists_working placed
    obtain ⟨same, again, time', ending', placed', present, _, life', report⟩ :=
      attentive.tracks.report_of_task none_left named
    obtain rfl : task = same := Option.some.inj (placed.symm.trans placed')
    obtain rfl : found = again := Option.some.inj (part.present.symm.trans present)
    obtain ⟨rfl, rfl⟩ : time = time' ∧ ending = ending' := by
      simpa [life] using life'
    cases error : call.tally.report.error with
    | some failure => exact ⟨failure, rfl⟩
    | none =>
        have fine := (attentive.tracks.coherent none_left).none_iff.mp error _
          (List.mem_of_getElem? report)
        simp only [classify, outcome] at fine
        split at fine <;> cases fine
  obtain ⟨failure, error⟩ := some_error
  refine (charge.reason ended failure error).imp_right ?_
  rintro ⟨other, member, there, present, failed⟩
  obtain ⟨again, part'⟩ := charge.exists_part member
  obtain rfl : there = again := Option.some.inj (present.symm.trans part'.present)
  exact ⟨other, there, part', failed⟩

/-! ## What is reported -/

theorem exists_report (charge : Charge settings orders state id call order)
    (ended : call.ended.isSome = true) {position : Nat} {step : String × Script}
    (named : (orderPipeline.scripts order)[position]? = some step) :
    ∃ task found time ending, call.tasks[position]? = some task ∧ IsPart state id task found ∧
      found.duty = some ⟨id, position⟩ ∧ found.life = .ended time ending ∧
      call.tally.report.steps[position]? =
        some (classify step.1 (time - call.started) ending.outcome) := by
  obtain ⟨history, rfl, attentive⟩ := charge.attentive
  obtain ⟨task, found, time, ending, placed, present, working, life, report⟩ :=
    attentive.tracks.report_of_task (attentive.tracks.ended.mp ended) named
  rw [(working.timed time ending life).millis_eq] at report
  exact ⟨task, found, time, ending, placed, ⟨present, position, working.duty⟩, working.duty, life,
    report⟩

theorem served_of_fine (charge : Charge settings orders state id call order)
    (ended : call.ended.isSome = true) (fine : call.tally.report.error = none)
    (part : IsPart state id task found) : found.stage = .finished .served := by
  have charged := charge
  obtain ⟨position, placed⟩ := charge.placed_of_isPart part
  obtain ⟨history, rfl, attentive⟩ := charge.attentive
  obtain ⟨step, _, named, _⟩ := attentive.tracks.exists_working placed
  obtain ⟨same, again, time, ending, placed', part', _, life, report⟩ :=
    charged.exists_report ended named
  obtain rfl : task = same := Option.some.inj (placed.symm.trans placed')
  obtain rfl : found = again := Option.some.inj (part.present.symm.trans part'.present)
  have coherent := attentive.tracks.coherent (attentive.tracks.ended.mp ended)
  have status := coherent.none_iff.mp fine _ (List.mem_of_getElem? report)
  rw [State.stage_of_ended life, Ending.finish_eq_served.mpr (status_classify_ok.mp status)]

theorem fine_of_served (charge : Charge settings orders state id call order)
    (ended : call.ended.isSome = true)
    (served : ∀ task found, IsPart state id task found → found.stage = .finished .served) :
    call.tally.report.error = none := by
  have charged := charge
  obtain ⟨history, rfl, attentive⟩ := charge.attentive
  refine (attentive.tracks.coherent (attentive.tracks.ended.mp ended)).none_iff.mpr ?_
  intro report member
  obtain ⟨position, there⟩ := List.getElem?_of_mem member
  have bound := (List.getElem?_eq_some_iff.mp there).1
  rw [attentive.tracks.length_report] at bound
  obtain ⟨_, found, _, ending, _, part, _, life, same⟩ :=
    charged.exists_report ended (List.getElem?_eq_getElem bound)
  obtain rfl := Option.some.inj (there.symm.trans same)
  have stage := served _ _ part
  rw [State.stage_of_ended life] at stage
  exact status_classify_ok.mpr (Ending.finish_eq_served.mp (Stage.finished.inj stage))

end Charge

end Desk

end OrderDesk
