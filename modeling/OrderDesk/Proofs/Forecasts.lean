import OrderDesk.Pipeline
import OrderDesk.Proofs.Openings

/-! A call of timed steps comes to what its timetable says. Whatever else goes on, when everything
has settled the call has ended at the time of the forecast and with its report, and each of its
tasks has come to its fate. -/

namespace OrderDesk

open Schedule

namespace Schedule

/-! ## When everything has settled -/

theorem isSome_foldl_earlier (timers : List Timer) (time : Nat) :
    (timers.foldl (fun least timer => earlier least (some timer.due)) (some time)).isSome = true := by
  induction timers generalizing time with
  | nil => rfl
  | cons timer timers ih => exact ih (min time timer.due)

theorem State.still_settle (state : State) :
    (state.settle none).ready = [] ∧ (state.settle none).timers = [] := by
  have still := State.tick_settle none state
  unfold State.tick at still
  split at still
  · cases still
  · rename_i quiet
    refine ⟨quiet, ?_⟩
    split at still
    · rename_i never
      cases waiting : (state.settle none).timers with
      | nil => rfl
      | cons timer timers =>
          have set := isSome_foldl_earlier timers timer.due
          rw [State.nextDue, waiting] at never
          have absurd := set.symm.trans (congrArg Option.isSome never)
          cases absurd
    · simp at still

end Schedule

namespace OnCourse

variable {course : Course} {elapsed : Nat} {history : History} {call : Call}

theorem life_of_still (onCourse : OnCourse course elapsed history call)
    (quiet : history.state.ready = []) (still : history.state.timers = []) {position : Nat}
    {step : TimedStep} (placed : course.steps[position]? = some step) :
    ∃ task, history.state.tasks[course.first + position]? = some task ∧
      task.life = .ended (course.start + (course.fate step).1)
        (.returned (course.fate step).1 (course.fate step).2) := by
  obtain ⟨task, found, stands⟩ := onCourse.standing position step placed
  refine ⟨task, found, ?_⟩
  cases stands with
  | fresh _ _ inLine => simp [quiet] at inLine
  | waiting same =>
      have set := (onCourse.quiet_waiting quiet placed found (by rw [same]; rfl)).2.1
      simp [still] at set
  | done life => exact life

theorem ended_of_still (onCourse : OnCourse course elapsed history call)
    (quiet : history.state.ready = []) (still : history.state.timers = []) :
    ∃ cause, call.ended = some (course.start + callSpan course.deadline course.steps, cause) := by
  have ended : call.ended.isSome = true := by
    refine onCourse.tracks.ended_of_quiet onCourse.going quiet fun outcome member => ?_
    obtain ⟨task, known, rfl⟩ := List.mem_map.mp member
    obtain ⟨position, there⟩ := List.getElem?_of_mem known
    obtain ⟨step, placed, rfl⟩ := onCourse.placed_iff.mp there
    obtain ⟨found, present, life⟩ := onCourse.life_of_still quiet still placed
    simp [present, life, Life.outcome?]
  obtain ⟨⟨time, cause⟩, same⟩ := Option.isSome_iff_exists.mp ended
  exact ⟨cause, by rw [same, onCourse.ended time cause same]⟩

theorem foreseen (onCourse : OnCourse course elapsed history call) (none_left : call.left = 0) :
    Foreseen course.deadline course.steps (history.joinedBy course.call) := by
  constructor
  · have size : course.scripts.length = course.steps.length := by simp [Course.scripts]
    exact size ▸ onCourse.tracks.joined_perm none_left
  · intro entry member
    obtain ⟨step, placed, outcome, _⟩ := onCourse.outcome_of_joined member
    exact ⟨step, placed, outcome⟩
  · obtain ⟨ids, last, lined⟩ := onCourse.lined
    have turns := lined.turns
    rw [Course.settled, List.append_assoc, List.filter_append, List.pairwise_append] at turns
    have numbered : (history.joinedBy course.call).map (fun entry => course.first + entry.position) =
        ((history.joinedBy course.call).map Settled.position).map (course.first + ·) := by
      rw [List.map_map]
      rfl
    have sorted := turns.1
    rw [numbered, List.filter_map, List.pairwise_map] at sorted
    have same : ((fun id => isCulprit course.deadline course.steps (id - course.first)) ∘
        (course.first + ·)) = isCulprit course.deadline course.steps := by
      funext position
      simp
    rw [same] at sorted
    exact sorted.imp fun before => Nat.lt_of_add_lt_add_left before

theorem report_eq (onCourse : OnCourse course elapsed history call) (none_left : call.left = 0) :
    call.tally.report = forecast course.deadline course.steps := by
  have steps : call.tally.report.steps = (forecast course.deadline course.steps).steps := by
    apply List.ext_getElem?
    intro position
    simp only [forecast, List.getElem?_map]
    cases placed : course.steps[position]? with
    | none =>
        have beyond := List.getElem?_eq_none_iff.mp placed
        refine List.getElem?_eq_none ?_
        rw [onCourse.tracks.length_report]
        simpa [Course.scripts] using beyond
    | some step =>
        have named : course.scripts[position]? = some (step.name, step.body) := by
          simp [Course.scripts, placed]
        obtain ⟨task, found, time, ending, there, present, _, life, report⟩ :=
          onCourse.tracks.report_of_task none_left named
        obtain ⟨again, placed', rfl⟩ := onCourse.placed_iff.mp there
        obtain ⟨_, rfl, _⟩ := onCourse.fate_of_ended placed present life
        exact report
  have error : call.tally.report.error = (forecast course.deadline course.steps).error := by
    rw [onCourse.tracks.error_eq, (onCourse.foreseen none_left).reported_eq]
    rfl
  generalize call.tally.report = report at steps error
  cases report
  cases steps
  cases error
  rfl

end OnCourse

namespace Schedule.Occasion

def course (occasion : Occasion) (steps : List TimedStep) : Course :=
  occasion.opening.state.course occasion.context steps

/-- Workers take their turns in line and time passes when it can. The call is not given up, nobody
else works in its scope or cancels it, and its context is never canceled. -/
structure Undisturbed (occasion : Occasion) (steps : List TimedStep) : Prop where
  limiter : ∃ requested, occasion.limiter = .new requested
  follows : (State.start occasion.limiter).Follows
    (occasion.before ++ .openCall occasion.context (TimedStep.scripts steps) :: occasion.after)
  permitted : ∀ move ∈ occasion.after, (occasion.course steps).realm.Permits move
  clear : ((occasion.history (TimedStep.scripts steps)).state.settle none).isCanceled
    occasion.context = false

theorem Undisturbed.exists_onCourse {occasion : Occasion} {steps : List TimedStep}
    (undisturbed : occasion.Undisturbed steps) (nonempty : steps ≠ []) :
    ∃ elapsed history call, OnCourse (occasion.course steps) elapsed history call ∧
      history.state = (occasion.history (TimedStep.scripts steps)).state.settle none := by
  obtain ⟨requested, limiter⟩ := undisturbed.limiter
  have nobody : occasion.limiter.line = [] := by rw [limiter]; rfl
  have opening : occasion.opening.state = (State.start occasion.limiter).play occasion.before :=
    History.state_play _ _
  obtain ⟨follows, known, continued⟩ :=
    (State.follows_append _ _ _).mp undisturbed.follows
  have wired := (History.sound_start occasion.limiter).wired
  have closed := (State.closed_start nobody).play wired follows
  have balanced := (State.balanced_start (by rw [limiter]; rfl) nobody).play
    (occasion.before ++ [.openCall occasion.context (TimedStep.scripts steps)])
  rw [State.play_append, ← opening] at balanced
  rw [← opening] at closed continued known
  obtain ⟨inner, settling, settled, kinds⟩ :=
    State.exists_follows_of_settle none (occasion.history (TimedStep.scripts steps)).state
  have reached : ((occasion.opening.add
      (.openCall occasion.context (TimedStep.scripts steps))).play (occasion.after ++ inner)).state =
        (occasion.history (TimedStep.scripts steps)).state.settle none := by
    rw [History.play_append, History.state_play, ← settled]
    rfl
  have clear : occasion.opening.state.isCanceled occasion.context = false := by
    by_contra canceled
    have grows := (State.apply_extends occasion.opening.state
      (.openCall occasion.context (TimedStep.scripts steps))).trans
        (State.play_extends _ (occasion.after ++ inner))
    have stays := State.isCanceled_of_extends grows (Bool.not_eq_false _ ▸ canceled)
    have never := undisturbed.clear
    rw [← reached, History.state_play] at never
    exact Bool.false_ne_true (never.symm.trans stays)
  have sound := occasion.sound_opening
  have opened := sound.onCourse_openCall closed known clear nonempty
  have permitted : ∀ move ∈ occasion.after ++ inner, (occasion.course steps).realm.Permits move := by
    intro move member
    rcases List.mem_append.mp member with outer | member
    · exact undisturbed.permitted move outer
    · rcases kinds move member with ⟨worker, rfl⟩ | ⟨time, rfl⟩
      · trivial
      · trivial
  have follows_on : (occasion.opening.add (.openCall occasion.context
      (TimedStep.scripts steps))).state.Follows (occasion.after ++ inner) := by
    refine (State.follows_append _ _ _).mpr ⟨continued, ?_⟩
    have same : (occasion.opening.add (.openCall occasion.context
        (TimedStep.scripts steps))).state.play occasion.after =
          (occasion.history (TimedStep.scripts steps)).state := (History.state_play _ _).symm
    rw [same]
    exact settling
  obtain ⟨elapsed, call, onCourse⟩ := opened.play (sound.add _) balanced
    (closed.secludes_openCall known) permitted follows_on (reached ▸ undisturbed.clear)
  exact ⟨elapsed, _, call, onCourse, reached⟩

end Schedule.Occasion

/-- When everything has settled, a call of timed steps has ended at the time and with the report
that the timetable foresees, and so have its tasks. -/
theorem Pipeline.report_forecast {ρ : Type} (pipeline : Pipeline ρ) (request : ρ)
    {steps : List TimedStep} (timed : pipeline.scripts request = TimedStep.scripts steps)
    (occasion : Occasion) (undisturbed : occasion.Undisturbed steps) :
    let final := (occasion.history (pipeline.scripts request)).state.settle none
    let course := occasion.course steps
    ∃ call cause, final.calls[occasion.id]? = some call ∧
      call.ended = some (course.start + callSpan course.deadline steps, cause) ∧
      call.tally.report = forecast course.deadline steps ∧
      ∀ (position : Nat) (step : TimedStep), steps[position]? = some step →
        ∃ (id : TaskId) (task : Task), call.tasks[position]? = some id ∧
          final.tasks[id]? = some task ∧
          task.life = .ended (course.start + (course.fate step).1)
            (.returned (course.fate step).1 (course.fate step).2) := by
  intro final course
  have nonempty : steps ≠ [] := by
    rintro rfl
    have empty : pipeline.scripts request = [] := timed
    simp [Pipeline.scripts, pipeline.nonempty] at empty
  obtain ⟨elapsed, history, call, onCourse, same⟩ := undisturbed.exists_onCourse nonempty
  have reached : history.state = final := by rw [same, ← timed]
  obtain ⟨quiet, still⟩ := State.still_settle (occasion.history (pipeline.scripts request)).state
  have quiet : history.state.ready = [] := reached ▸ quiet
  have still : history.state.timers = [] := reached ▸ still
  obtain ⟨cause, ended⟩ := onCourse.ended_of_still quiet still
  have none_left := onCourse.tracks.ended.mp (by simp [ended])
  refine ⟨call, cause, reached ▸ onCourse.tracks.found, ended, onCourse.report_eq none_left, ?_⟩
  intro position step placed
  obtain ⟨task, found, life⟩ := onCourse.life_of_still quiet still placed
  exact ⟨_, task, onCourse.placed_iff.mpr ⟨step, placed, rfl⟩, reached ▸ found, life⟩

def TimedStep.mixed : List TimedStep :=
  [{ name := "first", millis := 30, outcome := none, plain := by decide },
    { name := "second", millis := 20, outcome := some (.other (.plain "two")), plain := by decide },
    { name := "third", millis := 20, outcome := some (.other (.plain "three")), plain := by decide },
    { name := "fourth", millis := 10, outcome := none, plain := by decide }]

def Pipeline.mixed : Pipeline Unit where
  steps :=
    [{ name := "first", body := fun _ => [.wait 30], named := by decide },
      { name := "second", body := fun _ => [.wait 20, .fail (.other (.plain "two"))]
        named := by decide },
      { name := "third", body := fun _ => [.wait 20, .fail (.other (.plain "three"))]
        named := by decide },
      { name := "fourth", body := fun _ => [.wait 10], named := by decide }]
  nonempty := by decide
  distinct := by decide

/-- The context has a deadline, and a scope derived from it is canceled between two turns. -/
def Schedule.Occasion.mixed : Occasion where
  limiter := .new 1
  before := [.addBackground, .derive 0 (some 50)]
  context := 1
  after := [.turn (.task 0), .derive 1 none, .cancel 3, .turn (.task 1)]

theorem Schedule.Occasion.undisturbed_mixed : Occasion.mixed.Undisturbed TimedStep.mixed := by
  refine ⟨⟨1, rfl⟩, by decide +kernel, ?_, by cbv⟩
  have scope : (Occasion.mixed.course TimedStep.mixed).realm.scope = 2 := by decide +kernel
  simp [Occasion.mixed, Realm.Permits] at scope ⊢
  rw [scope]
  decide

theorem Pipeline.report_forecast_mixed :
    ∃ call cause,
      ((Occasion.mixed.history (Pipeline.mixed.scripts ())).state.settle none).calls[0]? =
        some call ∧
      call.ended = some (20, cause) ∧
      call.tally.report.error = some (.other (.plain "two")) ∧
      call.tally.report.steps.map StepReport.verdict =
        [("first", .canceled, ""), ("second", .error, ""), ("third", .error, ""),
          ("fourth", .ok, "")] := by
  obtain ⟨call, cause, found, ended, report, _⟩ :=
    Pipeline.mixed.report_forecast () rfl .mixed Occasion.undisturbed_mixed
  have span : (Occasion.mixed.course TimedStep.mixed).start +
      callSpan (Occasion.mixed.course TimedStep.mixed).deadline TimedStep.mixed = 20 := by
    decide +kernel
  have forecast : forecast (Occasion.mixed.course TimedStep.mixed).deadline TimedStep.mixed =
      { steps :=
          [{ name := "first", status := .canceled, duration := .ofMillis 20, detail := "" },
            { name := "second", status := .error, duration := .ofMillis 20, detail := "" },
            { name := "third", status := .error, duration := .ofMillis 20, detail := "" },
            { name := "fourth", status := .ok, duration := .ofMillis 10, detail := "" }]
        error := some (.other (.plain "two")) } := by
    rfl
  rw [span] at ended
  rw [forecast] at report
  exact ⟨call, cause, found, ended, by rw [report], by rw [report]; rfl⟩

end OrderDesk
