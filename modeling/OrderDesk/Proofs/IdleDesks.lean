import OrderDesk.Proofs.Deadlines
import OrderDesk.Proofs.OrderTimes

/-! A desk at rest, and an order that it is given then. Nothing is in line, every order before has
been answered or given up, and all couriers are free. So nobody gets in the way of the order, and
its answer can be foretold. -/

namespace OrderDesk

open Schedule

namespace Schedule.State

variable {state : State}

theorem over_play {id : CallId} {call : Call} (found : state.calls[id]? = some call)
    (finished : call.aborted = true ∨ call.ended.isSome = true) (moves : List Move) :
    ∃ after, (state.play moves).calls[id]? = some after ∧
      (after.aborted = true ∨ after.ended.isSome = true) := by
  induction moves generalizing state call with
  | nil => exact ⟨call, found, finished⟩
  | cons move moves ih =>
      obtain ⟨after, advances⟩ := exists_advances move found
      refine ih advances.found (finished.imp advances.stays fun ended => ?_)
      rcases advances.ended with same | ⟨unended, _⟩
      · exact same ▸ ended
      · simp [unended] at ended

theorem length_calls_play {moves : List Move}
    (kinds : ∀ move ∈ moves, (∃ worker, move = .turn worker) ∨ ∃ time, move = .jump time) :
    (state.play moves).calls.length = state.calls.length := by
  induction moves generalizing state with
  | nil => rfl
  | cons move moves ih =>
      rw [play_cons, ih fun other member => kinds other (List.mem_cons_of_mem _ member)]
      rcases sameWiring_apply state move with same | ⟨context, steps, rfl⟩ | ⟨scope, script, rfl⟩
      · simpa [State.rosters] using congrArg List.length same.rosters
      · rcases kinds _ List.mem_cons_self with ⟨_, other⟩ | ⟨_, other⟩ <;> cases other
      · rcases kinds _ List.mem_cons_self with ⟨_, other⟩ | ⟨_, other⟩ <;> cases other

def welcome (state : State) (due : Nat) : State :=
  state.play [.addBackground, .derive state.scopes.length (some (state.clock + due))]

theorem context_welcome (state : State) (due : Nat) :
    (state.welcome due).scopes[state.scopes.length + 1]? =
      some {
        lineage := [state.scopes.length + 1, state.scopes.length]
        deadline := some (state.clock + due)
        canceled := false } := by
  simp [welcome, State.apply, State.addBackground, State.derive, Scopes.addBackground, Scopes.derive,
    earlier]

theorem welcome_known (state : State) (due : Nat) :
    state.scopes.length + 1 < (state.welcome due).scopes.length :=
  (List.getElem?_eq_some_iff.mp (state.context_welcome due)).1

theorem Separate.outside (separate : state.Separate) {scope : ScopeId}
    (new : state.scopes.length ≤ scope) : scope ∉ state.bases :=
  fun member => absurd (separate.parts.known scope member) (Nat.not_lt.mpr new)

theorem Separate.welcome (separate : state.Separate) (due : Nat) : (state.welcome due).Separate :=
  separate.play ⟨trivial, separate.outside (Nat.le_refl _), trivial⟩

theorem Closed.welcome (closed : state.Closed) (wired : state.Wired) (due : Nat) :
    (state.welcome due).Closed := by
  refine closed.play_of_posts wired (posts_of_no_spawn fun move member scope script same => ?_)
  subst same
  simp at member

theorem clear_welcome (separate : state.Separate) (due : Nat) (steps : List (String × Script))
    {moves : List Move}
    (kinds : ∀ move ∈ moves, (∃ worker, move = .turn worker) ∨ ∃ time, move = .jump time) :
    ((state.welcome due).play (.openCall (state.scopes.length + 1) steps :: moves)).isCanceled
      (state.scopes.length + 1) = false := by
  have outside : state.scopes.length + 1 ∉ (state.welcome due).bases :=
    separate.outside (Nat.le_succ _)
  have apart (now : State) : now.StaysApart moves := by
    induction moves generalizing now with
    | nil => trivial
    | cons move moves ih =>
        refine ⟨?_, ih (fun other member => kinds other (List.mem_cons_of_mem _ member)) _⟩
        rcases kinds move List.mem_cons_self with ⟨worker, rfl⟩ | ⟨time, rfl⟩ <;> trivial
  have unnamed (scope : ScopeId) :
      Move.cancel scope ∉ .openCall (state.scopes.length + 1) steps :: moves := by
    intro member
    rcases List.mem_cons.mp member with other | later
    · cases other
    · rcases kinds _ later with ⟨_, other⟩ | ⟨_, other⟩ <;> cases other
  have stays : (state.welcome due).StaysApart
      (.openCall (state.scopes.length + 1) steps :: moves) := ⟨outside, apart _⟩
  have same := (separate.welcome due).getElem?_play (state.welcome_known due) outside stays unnamed
  rw [isCanceled, same, context_welcome]
  rfl

end Schedule.State

/-- A call of timed steps that is opened in a context of its own comes to what is foreseen. -/
theorem exists_call_timed {state : State} {total : Nat} (wired : state.Wired)
    (punctual : state.Punctual) (closed : state.Closed) (separate : state.Separate)
    (balanced : state.IsBalanced total) (due : Nat) {steps : List TimedStep} (nonempty : steps ≠ []) :
    let opened := ((state.welcome due).openCall (state.scopes.length + 1)
      (TimedStep.scripts steps)).1
    ∃ call cause, (opened.settle none).calls[state.calls.length]? = some call ∧
      call.ended = some (state.clock + callSpan (some due) steps, cause) ∧
      call.tally.report = forecast (some due) steps := by
  intro opened
  let context := state.scopes.length + 1
  let history : History := { state := state.welcome due, begun := [], joined := [] }
  let move : Move := .openCall context (TimedStep.scripts steps)
  have sound : history.Sound :=
    ⟨wired.play _, punctual.play _, by simp [history], by simp [history]⟩
  have closed' : history.state.Closed := closed.welcome wired due
  have known : context < history.state.scopes.length := state.welcome_known due
  have clear : history.state.isCanceled context = false := by
    simp only [State.isCanceled, history, context, State.context_welcome]
    rfl
  obtain ⟨inner, follows, settled, kinds⟩ := State.exists_follows_of_settle none opened
  have reached : ((history.add move).play inner).state = opened.settle none := by
    rw [History.state_play]
    exact settled
  have clear' : ((history.add move).play inner).state.isCanceled context = false := by
    rw [History.state_play]
    exact State.clear_welcome separate due (TimedStep.scripts steps) kinds
  have permitted : ∀ move ∈ inner, (history.state.course context steps).realm.Permits move := by
    intro move member
    rcases kinds move member with ⟨worker, rfl⟩ | ⟨time, rfl⟩ <;> trivial
  obtain ⟨elapsed, call, onCourse⟩ :=
    (sound.onCourse_openCall closed' known clear nonempty).play (sound.add move)
      (State.balanced_apply (balanced.play _) move) (closed'.secludes_openCall known) permitted follows
      clear'
  obtain ⟨quiet, still⟩ := opened.still_settle
  rw [← reached] at quiet still
  obtain ⟨cause, ended⟩ := onCourse.ended_of_still quiet still
  have none_left := onCourse.tracks.ended.mp (by simp [ended])
  have deadline : (history.state.course context steps).deadline = some due := by
    simp only [State.course, Scopes.deadline?, history, context, State.context_welcome,
      Option.bind_some, Option.map_some, Option.some.injEq]
    exact Nat.add_sub_cancel_left _ _
  have report := onCourse.report_eq none_left
  rw [deadline] at ended report
  exact ⟨call, cause, reached ▸ onCourse.tracks.found, ended, report⟩

namespace Desk

/-- The desk has nothing to do: it is new, or whatever orders have come and have been given up since
it was idle last, in whatever order turns were taken, all is over by now, or it has handled one more
order to its end. -/
inductive Idles (settings : Settings) : Desk → Prop
  | fresh : Idles settings (ofSettings settings)
  | rested (desk : Desk) (events : List Event) (idles : Idles settings desk)
      (quiet : (desk.run events).state.ready = [])
      (done : ∀ call ∈ (desk.run events).state.calls, call.aborted = true ∨ call.ended.isSome = true) :
      Idles settings (desk.run events)
  | handled (desk : Desk) (order : Order) (idles : Idles settings desk) :
      Idles settings (desk.handle? order).1

structure Rests (settings : Settings) (desk : Desk) (history : History) : Prop where
  handler : desk.handler = (ofSettings settings).handler
  same : history.state = desk.state
  crewed : Crewed history
  closed : desk.state.Closed
  separate : desk.state.Separate
  balanced : desk.state.IsBalanced (Limiter.clamp settings.couriers)
  quiet : desk.state.ready = []
  done : ∀ call ∈ desk.state.calls, call.aborted = true ∨ call.ended.isSome = true

variable {settings : Settings} {desk : Desk} {history : History} {order : Order}

namespace Rests

theorem capacity (rests : desk.Rests settings history) :
    desk.capacity = Limiter.clamp settings.couriers :=
  Balanced.capacity rests.balanced

theorem stopped (rests : desk.Rests settings history) :
    ∀ task ∈ desk.state.tasks, task.isOver = true := by
  rw [← rests.same]
  exact rests.crewed.isOver_of_quiet (rests.same ▸ rests.done) (rests.same ▸ rests.quiet)

theorem nobody (rests : desk.Rests settings history) : desk.state.limiter.line = [] := by
  refine List.eq_nil_iff_forall_not_mem.mpr fun id member => ?_
  obtain ⟨task, found, _⟩ := Balanced.queued rests.balanced id member
  have balanced : history.state.IsBalanced (Limiter.clamp settings.couriers) :=
    rests.same ▸ rests.balanced
  have outside := rests.crewed.not_mem_line_of_isOver balanced (rests.same ▸ found)
    (rests.stopped task (List.mem_of_getElem? found))
  rw [rests.same] at outside
  exact outside member

theorem free (rests : desk.Rests settings history) :
    desk.state.running = 0 ∧ desk.state.limiter.free = Limiter.clamp settings.couriers := by
  have balanced : history.state.IsBalanced desk.capacity := by
    rw [rests.capacity, rests.same]
    exact rests.balanced
  have idle := (accounted_of_crewed rests.crewed balanced rests.same).idle rests.done rests.quiet
  exact ⟨idle.1, idle.2.trans rests.capacity⟩

end Rests

theorem rests_of_empty {desk : Desk} (handler : desk.handler = (ofSettings settings).handler)
    (empty : desk.state = desk.state.restart) (running : desk.state.running = 0)
    (nobody : desk.state.limiter.line = [])
    (capacity : desk.state.limiter.capacity = Limiter.clamp settings.couriers)
    (free : desk.state.limiter.free = Limiter.clamp settings.couriers) :
    desk.Rests settings { state := desk.state, begun := [], joined := [] } := by
  obtain ⟨taker, clock, ready, timers, listeners, scopes, limiter, running', tasks, calls, notes⟩ :=
    desk
  simp only [State.restart, State.start, State.mk.injEq, true_and] at empty
  obtain ⟨rfl, rfl, rfl, rfl, rfl, rfl, rfl⟩ := empty
  have started : (State.start limiter).IsBalanced (Limiter.clamp settings.couriers) :=
    capacity ▸ State.balanced_start (free.trans capacity.symm) nobody
  have closed : (State.start limiter).Closed := State.closed_start nobody
  have separate : (State.start limiter).Separate := State.separate_start limiter
  refine ⟨handler, rfl, ⟨⟨?_, by simp [State.Punctual], by simp, by simp⟩, ?_, by simp⟩, ?_, ?_, ?_,
    rfl, by simp⟩
  · exact fun id call position => ⟨by simp, by simp⟩
  · simp [State.Staffed]
  · exact ⟨⟨closed.serves.ready, closed.serves.timers, closed.serves.listeners, closed.serves.line⟩,
      closed.posts, closed.bases⟩
  · exact ⟨⟨separate.parts.distinct, separate.parts.known⟩, separate.posts, separate.bounded,
      separate.pure⟩
  · exact ⟨running, started.slots, started.capacity, started.distinct, started.queued⟩

theorem posts_movesOf (desk : Desk) (events : List Event) : desk.state.Posts (desk.movesOf events) := by
  refine State.posts_of_no_spawn fun move member scope script spawns => ?_
  obtain ⟨now, event, there⟩ := exists_moves_of_mem member
  subst spawns
  cases event <;> simp only [moves] at there
  case handle order => split at there <;> simp at there
  all_goals simp at there

namespace Rests

theorem usual (rests : desk.Rests settings history) : desk.handler.pipeline = orderPipeline :=
  congrArg Handler.pipeline rests.handler

theorem run (rests : desk.Rests settings history) (events : List Event)
    (quiet : (desk.run events).state.ready = [])
    (done : ∀ call ∈ (desk.run events).state.calls, call.aborted = true ∨ call.ended.isSome = true) :
    (desk.run events).Rests settings (desk.record history events) := by
  have same := state_record desk history events rests.same
  obtain ⟨crewed, balanced⟩ :=
    crewed_record rests.crewed (rests.same ▸ rests.balanced) rests.usual events
  have wired : desk.state.Wired := rests.same ▸ rests.crewed.sound.wired
  refine ⟨(handler_run desk events).trans rests.handler, same, crewed, ?_, ?_, same ▸ balanced,
    quiet, done⟩
  · rw [state_run]
    exact rests.closed.play_of_posts wired (posts_movesOf desk events)
  · rw [state_run]
    exact rests.separate.play (staysApart_movesOf rests.separate.parts events)

theorem restart (rests : desk.Rests settings history) :
    ∃ kept, ({ desk with state := desk.state.restart } : Desk).Rests settings kept :=
  ⟨_, rests_of_empty rests.handler rfl rests.free.1 rests.nobody rests.capacity rests.free.2⟩

end Rests

/-! ## An order on its own -/

theorem timeout_ofSettings : (ofSettings settings).handler.timeout = settings.requestTimeout :=
  if_neg (Nat.ne_of_gt settings.requestTimeout_pos)

theorem Rests.accept (rests : desk.Rests settings history) (named : order.id ≠ "") :
    desk.handler.accept desk.state order =
      (((desk.state.welcome settings.requestTimeout).openCall (desk.state.scopes.length + 1)
          (orderPipeline.scripts order)).1,
        .processing order.id desk.state.calls.length) := by
  have given : order.id.isEmpty = false := by simpa using named
  have timeout : desk.handler.timeout = settings.requestTimeout := by
    rw [rests.handler, timeout_ofSettings]
  have pipeline : desk.handler.pipeline = orderPipeline := by rw [rests.handler]; rfl
  simp only [Handler.accept, given, Bool.false_eq_true, if_false, pipeline, timeout]
  simp only [State.welcome, State.play_cons, State.play_nil, State.apply, State.addBackground,
    State.derive, Scopes.addBackground, List.length_append, List.length_singleton]
  rfl

theorem Rests.exists_call (rests : desk.Rests settings history) (named : order.id ≠ "") :
    ∃ call cause, ((desk.handler.accept desk.state order).1.settle none).calls[
        desk.state.calls.length]? = some call ∧
      call.ended = some (desk.state.clock + order.span settings.requestTimeout, cause) ∧
      Answer.ofReport order.id call.tally.report = order.answer settings.requestTimeout := by
  have wired : desk.state.Wired := rests.same ▸ rests.crewed.sound.wired
  have punctual : desk.state.Punctual := rests.same ▸ rests.crewed.sound.punctual
  let welcome := desk.state.welcome settings.requestTimeout
  let context := desk.state.scopes.length + 1
  have some_legs : order.timetable ≠ [] := by simp [Order.timetable, Order.legs]
  obtain ⟨call, cause, found, ended, report⟩ := exists_call_timed wired punctual rests.closed
    rests.separate rests.balanced settings.requestTimeout some_legs
  have stopped : ∀ task ∈ welcome.tasks, task.isOver = true := rests.stopped
  have nobody : welcome.limiter.line = [] := rests.nobody
  have free : welcome.limiter.free = Limiter.clamp settings.couriers := rests.free.2
  have bounds := Limiter.clamp_bounds settings.couriers
  have enough : sumOf acquires ((orderPipeline.scripts order).map Prod.snd) ≤ welcome.limiter.free := by
    rw [sumOf_acquires_scripts, free]
    exact bounds.1
  have enough' : sumOf acquires ((TimedStep.scripts order.timetable).map Prod.snd) ≤
      welcome.limiter.free := by
    rw [sumOf_acquires_timetable]
    exact Nat.zero_le _
  have plenty := State.plenty_openCall stopped nobody isLightBody_scripts enough context
  have plenty' := State.plenty_openCall stopped nobody isLightBody_timetable enough' context
  have alike : (welcome.openCall context (orderPipeline.scripts order)).1.bare =
      (welcome.openCall context (TimedStep.scripts order.timetable)).1.bare :=
    State.bare_openCall names_timetable bodies_timetable welcome context
  have same : ((desk.handler.accept desk.state order).1.settle none).bare =
      ((welcome.openCall context (TimedStep.scripts order.timetable)).1.settle none).bare := by
    rw [rests.accept named, State.bare_settle plenty, State.bare_settle plenty', alike]
  have calls : ((desk.handler.accept desk.state order).1.settle none).calls =
      ((welcome.openCall context (TimedStep.scripts order.timetable)).1.settle none).calls := by
    have kept := congrArg State.calls same
    exact kept
  refine ⟨call, cause, calls ▸ found, ?_, ?_⟩
  · rw [ended, callSpan_timetable]
  · rw [report, ofReport_forecast]

theorem length_calls_settle (limit : Option Nat) (state : State) :
    (state.settle limit).calls.length = state.calls.length := by
  obtain ⟨moves, _, settled, kinds⟩ := State.exists_follows_of_settle limit state
  rw [← settled]
  exact State.length_calls_play kinds

/-- Once an order on its own has been handled, the desk is at rest again. -/
theorem Rests.finish (rests : desk.Rests settings history) (order : Order) :
    ∃ after, ({ desk with state := (desk.handler.accept desk.state order).1.settle none } :
      Desk).Rests settings after := by
  obtain ⟨events, settled, _⟩ := exists_run_of_settle none (desk.apply (.handle order))
  have reached : (desk.run (.handle order :: events)).state =
      (desk.handler.accept desk.state order).1.settle none := settled
  have whole : desk.run (.handle order :: events) =
      { desk with state := (desk.handler.accept desk.state order).1.settle none } := by
    have handler := handler_run desk (.handle order :: events)
    rw [← reached, ← handler]
  rw [← whole]
  refine ⟨_, rests.run (.handle order :: events) ?_ ?_⟩
  · rw [reached]
    exact (State.still_settle _).1
  · intro call member
    obtain ⟨id, found⟩ := List.getElem?_of_mem member
    have earlier (known : id < desk.state.calls.length) :
        call.aborted = true ∨ call.ended.isSome = true := by
      have before := List.getElem?_eq_getElem known
      obtain ⟨after, there, finished⟩ := State.over_play before
        (rests.done _ (List.mem_of_getElem? before)) (desk.movesOf (.handle order :: events))
      rw [← state_run, found] at there
      exact Option.some.inj there ▸ finished
    have bound := (List.getElem?_eq_some_iff.mp found).1
    by_cases named : order.id = ""
    · have refused : (desk.handler.accept desk.state order).1 = desk.state := by
        simp [Handler.accept, named]
      rw [reached, length_calls_settle, refused] at bound
      exact earlier bound
    · rw [reached, length_calls_settle, rests.accept named,
        (State.opened_openCall _ _ _).calls, List.length_append, List.length_singleton] at bound
      rcases Nat.lt_succ_iff_lt_or_eq.mp bound with known | last
      · exact earlier known
      · obtain ⟨own, cause, there, ended, _⟩ := rests.exists_call named
        rw [last, reached] at found
        have same : call = own := Option.some.inj (found.symm.trans there)
        exact .inr (by simp [same, ended])

theorem rests_of_idles (idles : Idles settings desk) : ∃ history, desk.Rests settings history := by
  induction idles with
  | fresh => exact ⟨_, rests_of_empty rfl rfl rfl rfl rfl rfl⟩
  | rested desk events _ quiet done ih =>
      obtain ⟨history, rests⟩ := ih
      exact ⟨_, rests.run events quiet done⟩
  | handled desk order _ ih =>
      obtain ⟨history, rests⟩ := ih
      obtain ⟨after, finished⟩ := rests.finish order
      exact finished.restart

/-- An order that comes to an idle desk is answered as foreseen, and at the time foreseen, whatever
the number of couriers. -/
theorem answer_of_idles (idles : Idles settings desk) (order : Order) (named : order.id ≠ "") :
    let due := settings.requestTimeout
    let (state, progress) := desk.handler.accept desk.state order
    progress.answer? (state.settle none) =
        some (order.answer due, desk.state.clock + order.span due) ∧
      (desk.handle? order).2 = some (order.answer due) := by
  obtain ⟨history, rests⟩ := rests_of_idles idles
  obtain ⟨call, cause, found, ended, answer⟩ := rests.exists_call named
  have answered : (desk.handler.accept desk.state order).2.answer?
      ((desk.handler.accept desk.state order).1.settle none) =
        some (order.answer settings.requestTimeout,
          desk.state.clock + order.span settings.requestTimeout) := by
    have progress : (desk.handler.accept desk.state order).2 =
        .processing order.id desk.state.calls.length := congrArg Prod.snd (rests.accept named)
    simp only [progress, Handler.Progress.answer?, found, ended, answer, Option.bind_eq_bind,
      Option.bind_some, Option.pure_def]
  exact ⟨answered, congrArg (Option.map Prod.fst) answered⟩

/-- Payment and vendor fail at the same time, and it is the payment that counts. -/
theorem answer_of_idles_tied :
    let settings : Settings := { couriers := 1, timeoutMillis := 500, logFormat := .pretty }
    let desk := ((ofSettings settings).handle? (.new "first" 5)).1
    let order := ((Order.new "second" 0).failingAt "vendor").withDelay "payment" 200
    (desk.handle? order).2 = some {
      status := 400
      reply := .failed "second"
        [⟨"payment", .error, .ofMillis 200, "payment_declined"⟩,
          ⟨"vendor", .error, .ofMillis 200, "vendor_unavailable"⟩,
          ⟨"courier", .ok, .ofMillis 100, ""⟩] "payment_declined" "order failed" } := by
  intro settings desk order
  have idles : Idles settings desk := .handled _ (.new "first" 5) .fresh
  have foreseen := (answer_of_idles idles order (by decide)).2
  exact foreseen.trans (congrArg some (by decide))

end Desk

end OrderDesk
