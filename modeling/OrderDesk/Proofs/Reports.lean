import OrderDesk.Pipeline
import OrderDesk.Proofs.Tallies
import OrderDesk.Proofs.Tracked

/-! The report of a call. In whatever order its tasks end, each body runs once, each place of the
report is written once, and what stands there is about the task of that place. -/

namespace OrderDesk

open Schedule

def StepReport.verdict (report : StepReport) : String × StepStatus × String :=
  (report.name, report.status, report.detail)

namespace Schedule

def Life.outcome? : Life → Option Outcome
  | .ended _ ending => some ending.outcome
  | _ => none

def State.outcomes (state : State) (call : Call) : List (Option Outcome) :=
  call.tasks.map fun task => state.tasks[task]?.bind fun found => found.life.outcome?

/-- What is true of a call that has ended. -/
structure Returned (history : History) (id : CallId) (steps : List (String × Script))
    (call : Call) : Prop where
  /-- Each body has run exactly once, and began when the call did. -/
  bodies : ∀ (position : Nat) (step : String × Script), steps[position]? = some step →
    history.beginnings ⟨id, position⟩ = [(call.started, step.2)]
  /-- Each place was written exactly once. -/
  places : ((history.joinedBy id).map Settled.position).Perm (List.range steps.length)
  size : call.tally.report.steps.length = steps.length
  /-- The report of a step is on the task of that step: on its outcome, and on the time from its
  start to its end. -/
  reports : ∀ (position : Nat) (step : String × Script), steps[position]? = some step →
    ∃ (task : TaskId) (found : Task) (time : Nat) (ending : Ending),
      call.tasks[position]? = some task ∧ history.state.tasks[task]? = some found ∧
      found.duty = some ⟨id, position⟩ ∧ found.started = call.started ∧
      found.life = .ended time ending ∧
      ending.millis call.started time = time - found.started ∧
      call.tally.report.steps[position]? =
        some (classify step.1 (ending.millis call.started time) ending.outcome)
  /-- A crash is an error without a tag, and took from the start of the call. -/
  crashes : ∀ (position : Nat) (task : TaskId) (found : Task) (time : Nat) (message : String),
    call.tasks[position]? = some task → history.state.tasks[task]? = some found →
      found.life = .ended time (.crashed message) →
        ∃ report, call.tally.report.steps[position]? = some report ∧
          report.status = .error ∧ report.detail = "" ∧
          report.duration = .ofMillis (time - call.started)

/-- What is true of a call at any time. -/
structure Faithful (history : History) (id : CallId) (steps : List (String × Script))
    (call : Call) : Prop where
  /-- Every task that the call joins is one of its own. -/
  known : call.aborted = false → ∀ task ∈ call.finished, ∃ entry,
    history.state.settled? call task = some entry ∧ call.tasks[entry.position]? = some task
  /-- No body has run twice. -/
  bodies : ∀ (position : Nat) (step : String × Script), steps[position]? = some step →
    history.beginnings ⟨id, position⟩ = [] ∨
      history.beginnings ⟨id, position⟩ = [(call.started, step.2)]
  places : ((history.joinedBy id).map Settled.position).Nodup
  /-- A place that nobody has written is as it was at first. -/
  pending : ∀ (position : Nat) (step : String × Script), steps[position]? = some step →
    position ∉ (history.joinedBy id).map Settled.position →
      call.tally.report.steps[position]? = some (.pending step.1)
  written : ∀ entry ∈ history.joinedBy id, ∃ step, steps[entry.position]? = some step ∧
    call.tally.report.steps[entry.position]? =
      some (classify step.1 entry.millis entry.outcome)
  detail : ∀ report ∈ call.tally.report.steps, report.detail ≠ "" → report.status = .error
  /-- When all tasks have ended and nobody is in line, the call has ended. -/
  ends : call.aborted = false → history.state.ready = [] →
    (∀ outcome ∈ history.state.outcomes call, outcome.isSome) → call.ended.isSome
  returned : call.ended.isSome → Returned history id steps call

namespace Tracks

variable {history : History} {id : CallId} {steps : List (String × Script)} {call : Call}

theorem report_of_joined (tracks : Tracks history id steps call) {entry : Settled}
    (member : entry ∈ history.joinedBy id) :
    ∃ step, steps[entry.position]? = some step ∧
      call.tally.report.steps[entry.position]? =
        some (classify step.1 entry.millis entry.outcome) := by
  obtain ⟨task, _, _, _, placed, _⟩ := tracks.joined entry member
  obtain ⟨step, _, named, _⟩ := tracks.exists_working placed
  refine ⟨step, named, ?_⟩
  have there : (Tally.start (steps.map Prod.fst)).steps[entry.position]? =
      some (.pending step.1) := by
    simp [Tally.steps_start, named]
  simp only [Tally.report, tracks.tally]
  exact Tally.steps_foldl_of_mem _ tracks.distinct member there

theorem report_of_not_joined (tracks : Tracks history id steps call) {position : Nat}
    {step : String × Script} (named : steps[position]? = some step)
    (absent : position ∉ (history.joinedBy id).map Settled.position) :
    call.tally.report.steps[position]? = some (.pending step.1) := by
  simp only [Tally.report, tracks.tally]
  rw [Tally.steps_foldl_of_not_mem _ absent, Tally.steps_start]
  simp [named]

theorem length_report (tracks : Tracks history id steps call) :
    call.tally.report.steps.length = steps.length := by
  simp [Tally.report, tracks.tally, Tally.length_steps_foldl, Tally.start]

theorem detail_of_report (tracks : Tracks history id steps call) :
    ∀ report ∈ call.tally.report.steps, report.detail ≠ "" → report.status = .error := by
  intro report member detailed
  obtain ⟨position, there⟩ := List.getElem?_of_mem member
  obtain ⟨bound, _⟩ := List.getElem?_eq_some_iff.mp there
  by_cases written : position ∈ (history.joinedBy id).map Settled.position
  · obtain ⟨entry, joined, rfl⟩ := List.mem_map.mp written
    obtain ⟨step, _, known⟩ := tracks.report_of_joined joined
    obtain rfl := Option.some.inj (known.symm.trans there)
    exact status_classify_of_detail_ne detailed
  · have named := List.getElem?_eq_getElem (tracks.length_report ▸ bound)
    have known := tracks.report_of_not_joined named written
    obtain rfl := Option.some.inj (known.symm.trans there)
    exact absurd rfl detailed

theorem beginnings_cases (tracks : Tracks history id steps call) {position : Nat}
    {step : String × Script} (named : steps[position]? = some step) :
    history.beginnings ⟨id, position⟩ = [] ∨
      history.beginnings ⟨id, position⟩ = [(call.started, step.2)] := by
  obtain ⟨bound, _⟩ := List.getElem?_eq_some_iff.mp named
  have placed := List.getElem?_eq_getElem (tracks.size ▸ bound : position < call.tasks.length)
  obtain ⟨found, _, working⟩ := tracks.working position _ step placed named
  by_cases fresh : found.isFresh = true
  · exact .inl (working.fresh fresh).1
  · rcases working.begun (by simpa using fresh) with once | ⟨never, _⟩
    · exact .inr once
    · exact .inl never

theorem ended_of_quiet (tracks : Tracks history id steps call) (going : call.aborted = false)
    (quiet : history.state.ready = [])
    (stopped : ∀ outcome ∈ history.state.outcomes call, outcome.isSome = true) :
    call.ended.isSome = true := by
  by_contra unended
  have unended : call.ended = none := by simpa using unended
  have nothing_waits : call.finished = [] := by
    by_contra waiting
    have inLine := tracks.told waiting going unended
    simp [quiet] at inLine
  have every (position : Nat) (below : position < steps.length) :
      position ∈ (history.joinedBy id).map Settled.position := by
    have placed := List.getElem?_eq_getElem (tracks.size ▸ below : position < call.tasks.length)
    obtain ⟨step, found, named, present, working⟩ := tracks.exists_working placed
    have settled := stopped (found.life.outcome?) (by
      refine List.mem_map.mpr ⟨_, List.mem_of_getElem? placed, ?_⟩
      simp [present])
    cases life : found.life with
    | ended time ending =>
        have entry := working.recorded time ending life (by simp [nothing_waits])
        exact List.mem_map.mpr ⟨_, entry, rfl⟩
    | live => simp [life, Life.outcome?] at settled
    | doomed => simp [life, Life.outcome?] at settled
    | dropped => simp [life, Life.outcome?] at settled
  have counted := (List.subperm_of_subset List.nodup_range fun position member =>
    every position (List.mem_range.mp member)).length_le
  simp only [List.length_range, List.length_map] at counted
  have total := tracks.left
  have none_left : call.left = 0 := by omega
  simpa [unended] using tracks.ended.mpr none_left

theorem exists_joined (tracks : Tracks history id steps call) (none_left : call.left = 0)
    {position : Nat} (below : position < steps.length) :
    ∃ entry ∈ history.joinedBy id, entry.position = position :=
  List.mem_map.mp ((tracks.joined_perm none_left).mem_iff.mpr (List.mem_range.mpr below))

theorem report_of_task (tracks : Tracks history id steps call) (none_left : call.left = 0)
    {position : Nat} {step : String × Script} (named : steps[position]? = some step) :
    ∃ (task : TaskId) (found : Task) (time : Nat) (ending : Ending),
      call.tasks[position]? = some task ∧ history.state.tasks[task]? = some found ∧
      Working history id call step.2 position task found ∧ found.life = .ended time ending ∧
      call.tally.report.steps[position]? =
        some (classify step.1 (ending.millis call.started time) ending.outcome) := by
  obtain ⟨bound, _⟩ := List.getElem?_eq_some_iff.mp named
  obtain ⟨entry, member, rfl⟩ := tracks.exists_joined none_left bound
  obtain ⟨task, found, time, ending, placed, _, present, life, known⟩ := tracks.joined entry member
  obtain ⟨again, present', working⟩ := tracks.working entry.position task step placed named
  obtain rfl : found = again := Option.some.inj (present.symm.trans present')
  obtain ⟨step', named', report⟩ := tracks.report_of_joined member
  obtain rfl : step = step' := Option.some.inj (named.symm.trans named')
  refine ⟨task, found, time, ending, placed, present, working, life, ?_⟩
  rw [report, known]
  rfl

theorem returned (tracks : Tracks history id steps call) (ended : call.ended.isSome = true) :
    Returned history id steps call := by
  have none_left := tracks.ended.mp ended
  refine ⟨?_, tracks.joined_perm none_left, tracks.length_report, ?_, ?_⟩
  · intro position step named
    obtain ⟨task, found, time, ending, _, _, working, life, _⟩ :=
      tracks.report_of_task none_left named
    rcases working.begun (by simp [Task.isFresh, life]) with once | ⟨_, doomed | dropped⟩
    · exact once
    · simp [life] at doomed
    · simp [life] at dropped
  · intro position step named
    obtain ⟨task, found, time, ending, placed, present, working, life, report⟩ :=
      tracks.report_of_task none_left named
    refine ⟨task, found, time, ending, placed, present, working.duty, working.started, life, ?_,
      report⟩
    rw [working.started]
    exact (working.timed time ending life).millis_eq
  · intro position task found time message placed present life
    obtain ⟨step, _, named, _⟩ := tracks.exists_working placed
    obtain ⟨task', again, time', ending, placed', present', _, life', report⟩ :=
      tracks.report_of_task none_left named
    obtain rfl : task = task' := Option.some.inj (placed.symm.trans placed')
    obtain rfl : found = again := Option.some.inj (present.symm.trans present')
    obtain ⟨rfl, rfl⟩ := Life.ended.inj (life.symm.trans life')
    exact ⟨_, report, rfl, rfl, rfl⟩

theorem faithful (tracks : Tracks history id steps call) : Faithful history id steps call := by
  constructor
  · intro going task waiting
    obtain ⟨position, found, ending, placed, _, _, entry⟩ :=
      tracks.settled?_of_finished going waiting
    exact ⟨_, entry, placed⟩
  · exact fun position step named => tracks.beginnings_cases named
  · exact tracks.distinct
  · exact fun position step named absent => tracks.report_of_not_joined named absent
  · exact fun entry member => tracks.report_of_joined member
  · exact tracks.detail_of_report
  · exact tracks.ended_of_quiet
  · exact tracks.returned

end Tracks

theorem verdict_classify (name : String) (millis : Nat) (outcome : Outcome) :
    (classify name millis outcome).verdict = (classify name 0 outcome).verdict := by
  cases outcome with
  | none => simp only [classify, StepReport.verdict]
  | some failure =>
      by_cases canceled : failure.isCancellation = true
      · simp only [classify, canceled, if_true, StepReport.verdict]
      · simp only [classify, canceled, Bool.false_eq_true, if_false, StepReport.verdict]

/-- The verdicts follow from the names and the outcomes alone. -/
theorem Returned.verdicts_eq {history : History} {id : CallId} {steps : List (String × Script)}
    {call : Call} (returned : Returned history id steps call) :
    call.tally.report.steps.map StepReport.verdict =
      List.zipWith (fun name outcome => (classify name 0 (outcome.getD none)).verdict)
        (steps.map Prod.fst) (history.state.outcomes call) := by
  apply List.ext_getElem?
  intro position
  rw [List.getElem?_zipWith, List.getElem?_map, List.getElem?_map]
  cases named : steps[position]? with
  | none =>
      have beyond := List.getElem?_eq_none_iff.mp named
      rw [List.getElem?_eq_none (returned.size ▸ beyond)]
      rfl
  | some step =>
      obtain ⟨task, found, time, ending, placed, present, _, _, life, _, report⟩ :=
        returned.reports position step named
      have outcome : (history.state.outcomes call)[position]? = some (some ending.outcome) := by
        simp [State.outcomes, placed, present, life, Life.outcome?]
      rw [report, outcome]
      exact congrArg some (verdict_classify step.1 _ ending.outcome)

end Schedule

/-- A call runs every body once and enters every outcome once, each in its own place, whatever
else goes on and in whatever order the tasks end. Two calls whose steps had the same outcomes
return the same verdicts. -/
theorem Pipeline.report_faithful {ρ : Type} (pipeline : Pipeline ρ) (request : ρ)
    (occasion : Occasion) :
    (∃ call, occasion.call? (pipeline.scripts request) = some call ∧
      call.context = occasion.context ∧ call.started = occasion.opening.state.clock ∧
      Faithful (occasion.history (pipeline.scripts request)) occasion.id
        (pipeline.scripts request) call) ∧
    ∀ (again : ρ) (other : Occasion) (first second : Call),
      occasion.call? (pipeline.scripts request) = some first → first.ended.isSome →
      other.call? (pipeline.scripts again) = some second → second.ended.isSome →
      (occasion.history (pipeline.scripts request)).state.outcomes first =
        (other.history (pipeline.scripts again)).state.outcomes second →
      first.tally.report.steps.map StepReport.verdict =
        second.tally.report.steps.map StepReport.verdict := by
  have nonempty (input : ρ) : pipeline.scripts input ≠ [] := by
    simpa [Pipeline.scripts] using pipeline.nonempty
  have names (input : ρ) : (pipeline.scripts input).map Prod.fst = pipeline.names := by
    simp [Pipeline.scripts, Pipeline.names]
  have returned (input : ρ) (setting : Occasion) (call : Call)
      (found : setting.call? (pipeline.scripts input) = some call)
      (ended : call.ended.isSome = true) :
      Returned (setting.history (pipeline.scripts input)) setting.id (pipeline.scripts input)
        call := by
    obtain ⟨tracked, tracks, _⟩ := setting.exists_tracks (nonempty input)
    obtain rfl : tracked = call := Option.some.inj (tracks.found.symm.trans found)
    exact tracks.returned ended
  constructor
  · obtain ⟨call, tracks, continues⟩ := occasion.exists_tracks (nonempty request)
    exact ⟨call, tracks.found, continues.context, continues.started, tracks.faithful⟩
  · intro again other first second found ended found' ended' same
    rw [(returned request occasion first found ended).verdicts_eq,
      (returned again other second found' ended').verdicts_eq, names, names, same]

def Pipeline.crashing : Pipeline Unit where
  steps :=
    [{ name := "broken", body := fun _ => [.crash "oh"], named := by decide },
      { name := "whole", body := fun _ => [], named := by decide }]
  nonempty := by decide
  distinct := by decide

/-- Tasks take their turns in the given order, and then the call does. -/
def Schedule.Occasion.ofTasks (tasks : List TaskId) : Occasion where
  limiter := .new 1
  before := [.addBackground]
  context := 0
  after := tasks.map (fun task => .turn (.task task)) ++ [.turn (.call 0)]

theorem Pipeline.report_faithful_crashing :
    let steps := Pipeline.crashing.scripts ()
    ∃ first second, (Occasion.ofTasks [0, 1]).call? steps = some first ∧
      (Occasion.ofTasks [1, 0]).call? steps = some second ∧
      first.tally.report.steps.map StepReport.verdict =
        second.tally.report.steps.map StepReport.verdict := by
  obtain ⟨⟨first, found, _⟩, same⟩ := Pipeline.crashing.report_faithful () (.ofTasks [0, 1])
  obtain ⟨⟨second, found', _⟩, _⟩ := Pipeline.crashing.report_faithful () (.ofTasks [1, 0])
  refine ⟨first, second, found, found', same () (.ofTasks [1, 0]) first second found ?_ found' ?_ ?_⟩
  · have ended : ((Occasion.ofTasks [0, 1]).call? (Pipeline.crashing.scripts ())).all
        (fun call => call.ended.isSome) = true := by decide +kernel
    simpa [found] using ended
  · have ended : ((Occasion.ofTasks [1, 0]).call? (Pipeline.crashing.scripts ())).all
        (fun call => call.ended.isSome) = true := by decide +kernel
    simpa [found'] using ended
  · have outcomes : ((Occasion.ofTasks [0, 1]).call? (Pipeline.crashing.scripts ())).map
        ((Occasion.ofTasks [0, 1]).history (Pipeline.crashing.scripts ())).state.outcomes =
        some [some (some (.other (.crash "oh"))), some none] := by rfl
    have outcomes' : ((Occasion.ofTasks [1, 0]).call? (Pipeline.crashing.scripts ())).map
        ((Occasion.ofTasks [1, 0]).history (Pipeline.crashing.scripts ())).state.outcomes =
        some [some (some (.other (.crash "oh"))), some none] := by rfl
    rw [found, Option.map_some, Option.some.injEq] at outcomes
    rw [found', Option.map_some, Option.some.injEq] at outcomes'
    rw [outcomes, outcomes']

end OrderDesk
