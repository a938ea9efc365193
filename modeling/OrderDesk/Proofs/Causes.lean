import OrderDesk.Proofs.ScopeTimers

/-! Where a reported cancellation comes from. A body may return a cancellation only if it has met
one, that is, if it has looked at its scope and found it ended. Then the cancellation that a call
reports was met by a body while the context of the call had ended for that very cause: the failure
that a call joins first cannot be the echo of another one. All of this fails if a body cancels the
scope that it works in. -/

namespace OrderDesk

open Schedule

namespace Schedule

/-- A body has looked at its scope and has found it ended. -/
structure Meeting where
  duty : Duty
  cause : Cause

namespace State

def meetings (state : State) : Move → List Meeting
  | .turn (.task id) =>
      match state.tasks[id]? with
      | some task =>
          if .task id ∈ state.ready then
            task.duty.toList.flatMap fun duty =>
              (State.met { state with ready := state.ready.erase (.task id) } id).map (Meeting.mk duty)
          else []
      | none => []
  | _ => []

/-- The meeting comes with the move that follows on `first` among the moves. -/
def Meets (state : State) (moves first : List Move) (meeting : Meeting) : Prop :=
  ∃ move rest, moves = first ++ move :: rest ∧ meeting ∈ (state.play first).meetings move

/-- Every step of the call that has ended with a cancellation has met its cause. -/
def Honest (state : State) (id : CallId) (moves : List Move) : Prop :=
  ∀ (task : TaskId) (found : Task) (position time : Nat) (ending : Ending) (failure : Failure)
    (cause : Cause), (state.play moves).tasks[task]? = some found →
    found.duty = some ⟨id, position⟩ → found.life = .ended time ending →
    ending.outcome = some failure → failure.cancellation = some cause →
    ∃ first, state.Meets moves first ⟨⟨id, position⟩, cause⟩

theorem mem_meetings {state : State} {move : Move} {meeting : Meeting}
    (member : meeting ∈ state.meetings move) :
    ∃ id task, move = .turn (.task id) ∧ .task id ∈ state.ready ∧ state.tasks[id]? = some task ∧
      task.duty = some meeting.duty ∧
      meeting.cause ∈ State.met { state with ready := state.ready.erase (.task id) } id := by
  unfold meetings at member
  split at member
  · rename_i id
    split at member
    · rename_i task found
      split at member
      · rename_i inLine
        obtain ⟨duty, works, there⟩ := List.mem_flatMap.mp member
        obtain ⟨cause, here, rfl⟩ := List.mem_map.mp there
        exact ⟨id, task, rfl, inLine, found, Option.mem_toList.mp works, here⟩
      · cases member
    · cases member
  · cases member

theorem mem_meetings_of_turn {state : State} {id : TaskId} {task : Task} {duty : Duty} {cause : Cause}
    (found : state.tasks[id]? = some task) (inLine : .task id ∈ state.ready)
    (works : task.duty = some duty)
    (member : cause ∈ State.met { state with ready := state.ready.erase (.task id) } id) :
    ⟨duty, cause⟩ ∈ state.meetings (.turn (.task id)) := by
  simp only [meetings, found, inLine, if_true, works, Option.toList_some, List.flatMap_cons,
    List.flatMap_nil, List.append_nil]
  exact List.mem_map_of_mem member

end State

/-- A body that nobody else's cancellation reaches meets the cause of its scope, while it is
live. -/
theorem LeftAlone.of_meeting {history : History} {id : CallId} {steps : List (String × Script)}
    {call : Call} (leftAlone : LeftAlone history id steps call)
    (attended : history.state.Attended fun _ duty => duty.isSome = true) {move : Move} {position : Nat}
    {cause : Cause} (member : ⟨⟨id, position⟩, cause⟩ ∈ history.state.meetings move) :
    ∃ task found, call.tasks[position]? = some task ∧ history.state.tasks[task]? = some found ∧
      found.life = .live ∧ history.state.cause? call.scope = some cause := by
  obtain ⟨task, found, rfl, _, present, works, here⟩ := State.mem_meetings member
  obtain ⟨known, same, placed⟩ :=
    (leftAlone.sound.wired task id position).mp ⟨found, present, works⟩
  obtain rfl : call = known := Option.some.inj (leftAlone.tracks.found.symm.trans same)
  obtain ⟨_, again, _, present', working⟩ := leftAlone.tracks.exists_working placed
  obtain rfl : found = again := Option.some.inj (present.symm.trans present')
  have idle := leftAlone.restrains found (List.mem_of_getElem? present) working.scope
  let popped : State := { history.state with ready := history.state.ready.erase (.task task) }
  have there : popped.tasks[task]? = some found := present
  have told := attended.done?_eq leftAlone.sound.punctual present (by simp [works])
  obtain ⟨live, ended⟩ := State.mem_met there idle told here
  exact ⟨task, found, placed, present, live, working.scope ▸ ended⟩

theorem reported_cancellation {order : List Settled} {failure : Failure}
    (first : reported order = some failure) (canceled : failure.isCancellation = true) :
    ∃ early entry late, order = early ++ entry :: late ∧ failures early = [] ∧
      entry.outcome = some failure := by
  have all := ((exists_reported_cancellation order).mp ⟨failure, first, canceled⟩).1
  induction order with
  | nil => cases first
  | cons entry rest ih =>
      cases outcome : entry.outcome with
      | none =>
          have same : failures (entry :: rest) = failures rest :=
            failures_cons_of_none rest outcome
          have later : reported rest = some failure := by
            rw [← first, reported, reported, same]
          obtain ⟨early, found, late, rfl, unfailed, own⟩ := ih later (same ▸ all)
          exact ⟨entry :: early, found, late, rfl,
            (failures_cons_of_none early outcome).trans unfailed, own⟩
      | some head =>
          have same : failures (entry :: rest) = head :: failures rest :=
            failures_cons_of_some rest outcome
          have none_other : (failures rest).find? (fun failure => !failure.isCancellation) = none :=
            List.find?_eq_none.mpr fun other member => by
              simpa using all other (same ▸ List.mem_cons_of_mem _ member)
          have flag : head.isCancellation = true := all head (same ▸ List.mem_cons_self)
          have only : reported (entry :: rest) = some head := by
            simp [reported, same, flag, none_other]
          exact ⟨[], entry, rest, rfl, rfl, outcome.trans (only.symm.trans first)⟩

/-- A body that is live has not been joined, and so if it is the first to fail, then nothing has
failed yet. -/
theorem unfailed_of_live {joined more early late : List Settled} {entry : Settled}
    (same : joined ++ more = early ++ entry :: late) (unfailed : failures early = [])
    (absent : entry ∉ joined) : failures joined = [] := by
  rcases List.append_eq_append_iff.mp same with ⟨between, rfl, _⟩ | ⟨between, rfl, rest⟩
  · rw [failures_append] at unfailed
    exact (List.append_eq_nil_iff.mp unfailed).1
  · cases between with
    | nil => rwa [List.append_nil]
    | cons head tail =>
        obtain ⟨rfl, _⟩ := List.cons.inj rest
        exact absurd (by simp) absent

/-! ## The context at the end of a call -/

theorem State.exists_cause_of_ended {state : State} {id : CallId} {call : Call}
    (found : state.calls[id]? = some call) (done : (state.cause? call.context).isSome = true)
    (told : ∀ time cause?, call.ended = some (time, cause?) → cause?.isSome = true)
    (moves : List Move) :
    ∃ after, (state.play moves).calls[id]? = some after ∧
      ∀ time cause?, after.ended = some (time, cause?) → cause?.isSome = true := by
  induction moves generalizing state call with
  | nil => exact ⟨call, found, told⟩
  | cons move moves ih =>
      obtain ⟨next, advances⟩ := State.exists_advances move found
      have still : ((state.apply move).cause? next.context).isSome = true := by
        rw [advances.continues.context]
        exact (State.apply_extends state move).cause_isSome (State.clock_le_apply state move) done
      refine ih advances.found still fun time cause? ended => ?_
      rcases advances.ended with same | ⟨_, _, _, now⟩
      · exact told time cause? (same ▸ ended)
      · obtain ⟨_, rfl⟩ := Prod.mk.inj (Option.some.inj (ended.symm.trans now))
        rw [← advances.continues.context]
        exact still

namespace State

/-- A body that has ended in the run has done so in a turn, with what its script says or with what
it met in that turn. -/
theorem exists_source {state : State} (wired : state.Wired) {moves : List Move} {id : TaskId}
    {early late : Task} {time : Nat} {ending : Ending} (found : state.tasks[id]? = some early)
    (reached : (state.play moves).tasks[id]? = some late) (life : late.life = .ended time ending) :
    early.life = .ended time ending ∨
      ∃ first rest, moves = first ++ .turn (.task id) :: rest ∧ .task id ∈ (state.play first).ready ∧
        (∃ before, (state.play first).tasks[id]? = some before ∧ before.duty = early.duty) ∧
        ending.ComesFrom early.script (State.met
          { state.play first with ready := (state.play first).ready.erase (.task id) } id) := by
  induction moves generalizing state early with
  | nil =>
      obtain rfl : early = late := Option.some.inj (found.symm.trans reached)
      exact .inl life
  | cons move moves ih =>
      obtain ⟨next, becomes⟩ := exists_becomes wired move found
      have scripts := becomes.evolves.script_subset
      rcases ih (wired.apply move) becomes.found reached with ended | ⟨first, rest, split, inLine,
        ⟨before, present, duty⟩, source⟩
      · cases becomes.evolves with
        | same same _ _ => exact .inl (same ▸ ended)
        | doomed _ doomed _ _ _ => simp [doomed] at ended
        | dropped _ dropped _ => simp [dropped] at ended
        | worked turn inLine live worked =>
            subst turn
            cases worked with
            | blocked life _ _ _ => simp [life] at ended
            | ended ending' life' _ source =>
                obtain ⟨_, rfl⟩ := Life.ended.inj (life'.symm.trans ended)
                exact .inr ⟨[], moves, rfl, inLine, ⟨early, found, rfl⟩, source⟩
      · exact .inr ⟨move :: first, rest, by rw [split, List.cons_append], inLine,
          ⟨before, present, duty.trans becomes.duty⟩,
          source.mono scripts (List.Subset.refl _)⟩

end State

theorem Occasion.task_opened (occasion : Occasion) {steps : List (String × Script)}
    {position : Nat} {task : TaskId}
    (placed : (occasion.opening.state.newCall occasion.context steps).tasks[position]? = some task) :
    ∃ step, steps[position]? = some step ∧ (occasion.opened steps).state.tasks[task]? =
      some (Task.new occasion.scope (some ⟨occasion.id, position⟩) step.2
        occasion.opening.state.clock) := by
  have opened := State.opened_openCall occasion.opening.state occasion.context steps
  have roster : (occasion.opening.state.newCall occasion.context steps).tasks =
      List.range' occasion.opening.state.tasks.length steps.length := rfl
  rw [roster] at placed
  obtain ⟨bound, numbered⟩ := List.getElem?_eq_some_iff.mp placed
  rw [List.length_range'] at bound
  rw [List.getElem_range', Nat.one_mul] at numbered
  refine ⟨steps[position], List.getElem?_eq_getElem bound, ?_⟩
  have tasks : (occasion.opened steps).state.tasks = _ := opened.tasks
  rw [tasks, ← numbered, List.getElem?_append_right (Nat.le_add_right _ _),
    Nat.add_sub_cancel_left, State.getElem?_stepTasks]
  simp [List.getElem?_eq_getElem bound, scope, id]

/-- A body of the call that has ended did so with what its script says or with what it met. -/
theorem Occasion.exists_ending_source (occasion : Occasion) {steps : List (String × Script)}
    (nonempty : steps ≠ []) {task : TaskId} {found : Task} {position time : Nat} {ending : Ending}
    (reached : (occasion.history steps).state.tasks[task]? = some found)
    (works : found.duty = some ⟨occasion.id, position⟩) (life : found.life = .ended time ending) :
    ∃ step met, steps[position]? = some step ∧ ending.ComesFrom step.2 met ∧
      ∀ cause ∈ met, ∃ first, (occasion.opened steps).state.Meets occasion.after first
        ⟨⟨occasion.id, position⟩, cause⟩ := by
  have tracks := occasion.sound_opening.tracks_openCall occasion.context nonempty
  have sound := occasion.sound_opening.add (.openCall occasion.context steps)
  obtain ⟨call, tracked, continues⟩ := tracks.play sound occasion.after
  obtain ⟨known, present, placed⟩ :=
    ((sound.play occasion.after).wired task occasion.id position).mp ⟨found, reached, works⟩
  obtain rfl : call = known := Option.some.inj (tracked.found.symm.trans present)
  obtain ⟨step, named, early⟩ := occasion.task_opened (continues.tasks ▸ placed)
  rw [← occasion.play_opened, History.state_play] at reached
  rcases State.exists_source sound.wired early reached life with already | ⟨first, rest, split, inLine,
    ⟨before, there, duty⟩, source⟩
  · cases already
  · exact ⟨step, _, named, source, fun cause member => ⟨first, .turn (.task task), rest, split,
      State.mem_meetings_of_turn there inLine duty member⟩⟩

/-- Bodies that never return a cancellation of their own making are honest in every run. -/
theorem Occasion.honest_of_plain (occasion : Occasion) {steps : List (String × Script)}
    (nonempty : steps ≠ [])
    (plain : ∀ step ∈ steps, ∀ action ∈ step.2, ∀ failure, action.failure? = some failure →
      failure.cancellation = none) :
    (occasion.opened steps).state.Honest occasion.id occasion.after := by
  intro task found position time ending failure cause reached works life outcome canceled
  rw [← History.state_play, occasion.play_opened] at reached
  obtain ⟨step, met, named, source, meets⟩ :=
    occasion.exists_ending_source nonempty reached works life
  match ending, outcome, source with
  | .returned _ _, rfl, .inl ⟨action, listed, fails⟩ =>
      rw [plain step (List.mem_of_getElem? named) action listed failure fails] at canceled
      cases canceled
  | .returned _ _, rfl, .inr ⟨other, found, same⟩ =>
      rw [same] at canceled
      obtain rfl : other = cause := Option.some.inj canceled
      exact meets other found
  | .crashed _, rfl, _ => cases canceled

theorem Occasion.attended (occasion : Occasion) (steps : List (String × Script))
    (moves : List Move) : ((occasion.opened steps).play moves).state.Attended
      fun _ duty => duty.isSome = true := by
  have opening := State.attended_play_start occasion.limiter
    (occasion.before ++ .openCall occasion.context steps :: moves)
  rw [State.play_append, State.play_cons] at opening
  rw [History.state_play]
  have same : (occasion.opened steps).state =
      ((State.start occasion.limiter).play occasion.before).apply (.openCall occasion.context steps) := by
    rw [opened, History.add, Occasion.opening, History.state_play]
    rfl
  exact same ▸ opening

/-- A failure is that of a step, and whatever the body of the step met, it met while the context of
the call had ended for the same cause. -/
structure Traced (occasion : Occasion) (steps : List (String × Script)) (call : Call)
    (failure : Failure) (position : Nat) : Prop where
  source : ∃ (task : TaskId) (found : Task) (time : Nat) (ending : Ending),
    call.tasks[position]? = some task ∧ (occasion.history steps).state.tasks[task]? = some found ∧
      found.life = .ended time ending ∧ ending.outcome = some failure
  context : ∀ first cause,
    (occasion.opened steps).state.Meets occasion.after first ⟨⟨occasion.id, position⟩, cause⟩ →
      ((occasion.opened steps).state.play first).cause? occasion.context = some cause

namespace Occasion

variable {occasion : Occasion} {steps : List (String × Script)}

/-- What everybody else and the bodies have to keep to, so that only the call cancels its scope. -/
structure Discreet (occasion : Occasion) (steps : List (String × Script)) : Prop where
  known : occasion.context < occasion.scope
  bodies : ∀ step ∈ steps, .cancel ∉ step.2
  others : ∀ move ∈ occasion.before ++ occasion.after, move.LeavesAlone occasion.scope

theorem Discreet.exists_leftAlone (discreet : occasion.Discreet steps) (nonempty : steps ≠ [])
    {first rest : List Move} (split : occasion.after = first ++ rest) :
    ∃ call, LeftAlone ((occasion.opened steps).play first) occasion.id steps call ∧
      (occasion.opening.state.newCall occasion.context steps).Continues call := by
  refine (occasion.leftAlone_opened nonempty discreet.known discreet.bodies fun move member =>
    discreet.others move (List.mem_append_left _ member)).play first fun move member => ?_
  exact discreet.others move (List.mem_append_right _ (split ▸ List.mem_append_left _ member))

theorem Discreet.exists_traced (discreet : occasion.Discreet steps) (nonempty : steps ≠ [])
    {call : Call} (found : occasion.call? steps = some call) {failure : Failure}
    (reports : call.tally.report.error = some failure) (canceled : failure.isCancellation = true) :
    ∃ position, Traced occasion steps call failure position := by
  obtain ⟨last, leftAlone, continues⟩ :=
    discreet.exists_leftAlone nonempty (List.append_nil occasion.after).symm
  have tracks : Tracks (occasion.history steps) occasion.id steps last := leftAlone.tracks
  obtain rfl : call = last := Option.some.inj (found.symm.trans tracks.found)
  rw [tracks.error_eq] at reports
  obtain ⟨early, entry, late, order, unfailed, outcome⟩ := reported_cancellation reports canceled
  obtain ⟨task, stopped, time, ending, placed, _, present, life, record⟩ :=
    tracks.joined entry (order ▸ by simp)
  have same : ending.outcome = some failure := by
    rw [record] at outcome
    exact outcome
  refine ⟨entry.position, ⟨task, stopped, time, ending, placed, present, life, same⟩, ?_⟩
  rintro first cause ⟨move, rest, split, member⟩
  rw [← History.state_play] at member ⊢
  obtain ⟨before, leftAlone', continues'⟩ := discreet.exists_leftAlone nonempty split
  obtain ⟨again, live, placed', present', life', ended⟩ :=
    leftAlone'.of_meeting (occasion.attended steps first) member
  -- The step that failed first is still at work here, and so nothing has failed.
  have absent : entry ∉ ((occasion.opened steps).play first).joinedBy occasion.id := by
    intro joined
    obtain ⟨other, known, _, _, placed'', _, present'', life'', _⟩ :=
      leftAlone'.tracks.joined entry joined
    obtain rfl : again = other := Option.some.inj (placed'.symm.trans placed'')
    obtain rfl : live = known := Option.some.inj (present'.symm.trans present'')
    rw [life'] at life''
    cases life''
  obtain ⟨more, joined⟩ := History.exists_joinedBy_play ((occasion.opened steps).play first)
    occasion.id (move :: rest)
  rw [← History.play_append, ← split, play_opened, order] at joined
  have agrees := leftAlone'.agrees (unfailed_of_live joined.symm unfailed absent)
  rw [State.cause?, agrees.cause_eq] at ended
  have context : before.context = occasion.context := continues'.context
  rwa [context] at ended

/-- If a body of the call has met the end of its scope while the context had ended, then the
context is found ended when the call ends. -/
theorem Discreet.cause_of_meeting (discreet : occasion.Discreet steps) (nonempty : steps ≠ [])
    {call : Call} (found : occasion.call? steps = some call) {first : List Move} {position : Nat}
    {cause : Cause}
    (meets : (occasion.opened steps).state.Meets occasion.after first
      ⟨⟨occasion.id, position⟩, cause⟩)
    (done : ((occasion.opened steps).state.play first).cause? occasion.context = some cause)
    {time : Nat} {cause? : Option Cause} (ended : call.ended = some (time, cause?)) :
    cause?.isSome = true := by
  obtain ⟨move, rest, split, member⟩ := meets
  rw [← History.state_play] at member done
  obtain ⟨before, leftAlone, continues⟩ := discreet.exists_leftAlone nonempty split
  obtain ⟨task, live, placed, present, life, _⟩ := leftAlone.of_meeting (occasion.attended steps first) member
  have going : ∀ time cause?, before.ended = some (time, cause?) → cause?.isSome = true := by
    intro time cause? halted
    obtain ⟨step, _, named, _⟩ := leftAlone.tracks.exists_working placed
    obtain ⟨_, _, _, _, placed', present', _, life', _⟩ :=
      leftAlone.tracks.report_of_task (leftAlone.tracks.ended.mp (by simp [halted])) named
    obtain rfl := Option.some.inj (placed.symm.trans placed')
    obtain rfl := Option.some.inj (present.symm.trans present')
    rw [life] at life'
    cases life'
  have context : before.context = occasion.context := continues.context
  obtain ⟨after, reached, told⟩ := State.exists_cause_of_ended leftAlone.tracks.found
    (by rw [context, done]; rfl) going (move :: rest)
  rw [← History.state_play, ← History.play_append, ← split, play_opened] at reached
  obtain rfl : call = after := Option.some.inj (found.symm.trans reached)
  exact told time cause? ended

end Occasion

theorem exists_cause_of_isCancellation {failure : Failure}
    (canceled : failure.isCancellation = true) : ∃ cause, failure.cancellation = some cause :=
  Option.isSome_iff_exists.mp canceled

end Schedule

/-- If all bodies are honest, nobody reaches into the scope of a call and no body cancels it, then
the cancellation that the call reports comes from a step whose body met its cause while the context
of the call had ended for that cause, and the context is found ended when the call ends. So it is
if any step is canceled and none has failed. -/
theorem Pipeline.cancellation_genuine {ρ : Type} (pipeline : Pipeline ρ) (request : ρ)
    (occasion : Occasion) (discreet : occasion.Discreet (pipeline.scripts request))
    (honest : (occasion.opened (pipeline.scripts request)).state.Honest occasion.id occasion.after) :
    ∃ call, occasion.call? (pipeline.scripts request) = some call ∧
      ∀ time cause?, call.ended = some (time, cause?) →
        (∀ failure cause, call.tally.report.error = some failure →
          failure.cancellation = some cause → cause?.isSome = true ∧
          ∃ position, Traced occasion (pipeline.scripts request) call failure position ∧
            ∃ first, (occasion.opened (pipeline.scripts request)).state.Meets occasion.after first
              ⟨⟨occasion.id, position⟩, cause⟩) ∧
        ((∃ step ∈ call.tally.report.steps, step.status = .canceled) →
          (∃ step ∈ call.tally.report.steps, step.status = .error) ∨ cause?.isSome = true) := by
  have nonempty : pipeline.scripts request ≠ [] := by
    simpa [Pipeline.scripts] using pipeline.nonempty
  obtain ⟨call, leftAlone, _⟩ :=
    discreet.exists_leftAlone nonempty (List.append_nil occasion.after).symm
  have tracks : Tracks (occasion.history (pipeline.scripts request)) occasion.id
      (pipeline.scripts request) call := leftAlone.tracks
  have found : occasion.call? (pipeline.scripts request) = some call := tracks.found
  refine ⟨call, found, fun time cause? ended => ?_⟩
  have genuine (failure : Failure) (cause : Cause)
      (reports : call.tally.report.error = some failure)
      (canceled : failure.cancellation = some cause) : cause?.isSome = true ∧
        ∃ position, Traced occasion (pipeline.scripts request) call failure position ∧
          ∃ first, (occasion.opened (pipeline.scripts request)).state.Meets occasion.after first
            ⟨⟨occasion.id, position⟩, cause⟩ := by
    obtain ⟨position, traced⟩ :=
      discreet.exists_traced nonempty found reports (by simp [Failure.isCancellation, canceled])
    obtain ⟨task, stopped, ending_time, ending, placed, present, life, outcome⟩ := traced.source
    obtain ⟨_, again, _, present', working⟩ := tracks.exists_working placed
    obtain rfl : stopped = again := Option.some.inj (present.symm.trans present')
    have reached : ((occasion.opened (pipeline.scripts request)).state.play
        occasion.after).tasks[task]? = some stopped := by
      rw [← History.state_play]
      exact present
    obtain ⟨first, meets⟩ := honest task stopped position ending_time ending failure cause reached
      working.duty life outcome canceled
    exact ⟨discreet.cause_of_meeting nonempty found meets (traced.context first cause meets) ended,
      position, traced, first, meets⟩
  refine ⟨genuine, fun canceled => ?_⟩
  have coherent := tracks.coherent (tracks.ended.mp (by simp [ended]))
  by_cases failed : ∃ step ∈ call.tally.report.steps, step.status = .error
  · exact .inl failed
  · obtain ⟨failure, reports, isCanceled⟩ := coherent.cancellation_iff.mpr
      ⟨fun step member error => failed ⟨step, member, error⟩, canceled⟩
    obtain ⟨cause, known⟩ := exists_cause_of_isCancellation isCanceled
    exact .inr (genuine failure cause reports known).1

/-- A body that sleeps through the end of its scope and returns then what it met. -/
def Pipeline.late : Pipeline Unit where
  steps :=
    [{ name := "late"
       body := fun _ => [.swallow, .sleep 30, .fail (.within "late" (.cancelled .deadline))]
       named := by decide }]
  nonempty := by decide
  distinct := by decide

def Schedule.Occasion.late : Occasion where
  limiter := .new 1
  before := [.addBackground, .derive 0 (some 20)]
  context := 1
  after :=
    [.turn (.task 0), .jump 20, .turn (.task 0), .jump 50, .turn (.task 0), .turn (.call 0)]

theorem Schedule.Occasion.honest_late :
    (Occasion.late.opened (Pipeline.late.scripts ())).state.Honest Occasion.late.id
      Occasion.late.after := by
  intro task found position time ending failure cause present works life outcome canceled
  have tasks : ((Occasion.late.opened (Pipeline.late.scripts ())).state.play
      Occasion.late.after).tasks.map (fun task => (task.duty, task.life)) =
        [(some ⟨0, 0⟩, .ended 50 (.returned 50 (some (.within "late" (.cancelled .deadline)))))] := by
    rfl
  have member := List.mem_map_of_mem (f := fun task : Task => (task.duty, task.life))
    (List.mem_of_getElem? present)
  rw [tasks, works, life, List.mem_singleton] at member
  simp only [Prod.mk.injEq, Option.some.injEq, Duty.mk.injEq, Life.ended.injEq] at member
  obtain ⟨⟨_, rfl⟩, rfl, rfl⟩ := member
  obtain rfl := Option.some.inj outcome
  obtain rfl : Cause.deadline = cause := Option.some.inj canceled
  refine ⟨[.turn (.task 0), .jump 20], .turn (.task 0),
    [.jump 50, .turn (.task 0), .turn (.call 0)], rfl, ?_⟩
  have meetings : (State.play (Occasion.late.opened (Pipeline.late.scripts ())).state
      [.turn (.task 0), .jump 20]).meetings (.turn (.task 0)) = [⟨⟨0, 0⟩, .deadline⟩] := by rfl
  rw [meetings]
  exact List.mem_singleton.mpr rfl

theorem Schedule.Occasion.discreet_late : Occasion.late.Discreet (Pipeline.late.scripts ()) := by
  refine ⟨by decide +kernel, by simp [Pipeline.late, Pipeline.scripts], ?_⟩
  simp [Occasion.late, Move.LeavesAlone]

theorem Pipeline.cancellation_genuine_late :
    ∃ call, Occasion.late.call? (Pipeline.late.scripts ()) = some call ∧
      call.ended = some (50, some .deadline) ∧
      call.tally.report.error = some (.within "late" (.cancelled .deadline)) ∧
      ∃ position first,
        (Occasion.late.opened (Pipeline.late.scripts ())).state.Meets Occasion.late.after first
          ⟨⟨0, position⟩, .deadline⟩ ∧
        ((Occasion.late.opened (Pipeline.late.scripts ())).state.play first).cause? 1 =
          some .deadline := by
  obtain ⟨call, found, genuine⟩ := Pipeline.late.cancellation_genuine () .late
    Occasion.discreet_late Occasion.honest_late
  have result : (Occasion.late.call? (Pipeline.late.scripts ())).map
      (fun call => (call.ended, call.tally.report.error)) =
        some (some (50, some .deadline), some (.within "late" (.cancelled .deadline))) := by rfl
  rw [found, Option.map_some, Option.some.injEq, Prod.mk.injEq] at result
  obtain ⟨ended, reports⟩ := result
  obtain ⟨_, position, traced, first, meets⟩ := (genuine 50 _ ended).1 _ .deadline reports rfl
  exact ⟨call, found, ended, reports, position, first, meets, traced.context first _ meets⟩

def Pipeline.selfish : Pipeline Unit where
  steps := [{ name := "a", body := fun _ => [.cancel, .wait 10], named := by decide }]
  nonempty := by decide
  distinct := by decide

def Schedule.Occasion.selfish : Occasion where
  limiter := .new 5
  before := [.addBackground]
  context := 0
  after := [.turn (.task 0), .turn (.call 0)]

/-- The body meets the cancellation that it reports, but the context of the call never ends. -/
theorem Pipeline.cancellation_of_own_making :
    (Occasion.selfish.opened (Pipeline.selfish.scripts ())).state.Honest Occasion.selfish.id
      Occasion.selfish.after ∧
    (∀ move ∈ Occasion.selfish.before ++ Occasion.selfish.after,
      move.LeavesAlone Occasion.selfish.scope) ∧
    ∃ call, Occasion.selfish.call? (Pipeline.selfish.scripts ()) = some call ∧
      call.ended = some (0, none) ∧
      call.tally.report.error = some (.cancelled .canceled) ∧
      (∃ step ∈ call.tally.report.steps, step.status = .canceled) ∧
      (∀ step ∈ call.tally.report.steps, step.status ≠ .error) ∧
      ∀ first rest, Occasion.selfish.after = first ++ rest →
        ((Occasion.selfish.opened (Pipeline.selfish.scripts ())).state.play first).cause? 0 =
          none := by
  refine ⟨Occasion.selfish.honest_of_plain (by decide +kernel) ?_, ?_, ?_⟩
  · simp [Pipeline.selfish, Pipeline.scripts, Action.failure?]
  · simp [Occasion.selfish, Move.LeavesAlone]
  · have result : (Occasion.selfish.call? (Pipeline.selfish.scripts ())).map
        (fun call => (call.ended, call.tally.report.error, call.tally.report.steps)) =
          some (some (0, none), some (.cancelled .canceled),
            [{ name := "a", status := .canceled, duration := ⟨0⟩, detail := "" }]) := by rfl
    obtain ⟨call, found, same⟩ := Option.map_eq_some_iff.mp result
    obtain ⟨ended, reports, steps⟩ : call.ended = _ ∧ call.tally.report.error = _ ∧
        call.tally.report.steps = _ := by simpa only [Prod.mk.injEq] using same
    refine ⟨call, found, ended, reports, by simp [steps], by simp [steps], ?_⟩
    intro first rest split
    have all : ∀ count < 3, ((Occasion.selfish.opened (Pipeline.selfish.scripts ())).state.play
        (Occasion.selfish.after.take count)).cause? 0 = none := by
      decide +kernel
    have bound := congrArg List.length split
    have early := all first.length (by simp [Occasion.selfish] at bound; omega)
    rwa [split, List.take_left] at early

end OrderDesk
