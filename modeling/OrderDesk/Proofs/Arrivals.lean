import OrderDesk.Proofs.TimedCalls

/-! The course of a call of timed steps from its opening to its end: its own turn, the passing of
time, and every run in which workers take their turns in line. -/

namespace OrderDesk

open Schedule

namespace OnCourse

variable {course : Course} {elapsed : Nat} {history next : History} {call : Call}
  {rest : List Worker}

theorem fate_of_ended (onCourse : OnCourse course elapsed history call) {position : Nat}
    {step : TimedStep} (placed : course.steps[position]? = some step) {task : Task}
    (found : history.state.tasks[course.first + position]? = some task) {time : Nat}
    {ending : Ending} (life : task.life = .ended time ending) :
    time = course.start + (course.fate step).1 ∧
      ending = .returned (course.fate step).1 (course.fate step).2 ∧
      (course.fate step).1 ≤ elapsed := by
  obtain ⟨again, found', stands⟩ := onCourse.standing position step placed
  obtain rfl : task = again := Option.some.inj (found.symm.trans found')
  cases stands with
  | fresh same => simp [same, Course.fresh, Task.new] at life
  | waiting same => simp [same, Course.waiting, Course.fresh, Task.new] at life
  | done life' past =>
      obtain ⟨rfl, rfl⟩ := Life.ended.inj (life'.symm.trans life)
      exact ⟨rfl, rfl, past⟩

theorem placed_iff (onCourse : OnCourse course elapsed history call) {position : Nat}
    {task : TaskId} :
    call.tasks[position]? = some task ↔
      ∃ step, course.steps[position]? = some step ∧ task = course.first + position := by
  rw [onCourse.tasks]
  constructor
  · intro placed
    obtain ⟨bound, here⟩ := List.getElem?_eq_some_iff.mp placed
    rw [List.length_range'] at bound
    refine ⟨_, List.getElem?_eq_getElem bound, ?_⟩
    simpa using here.symm
  · rintro ⟨step, placed, rfl⟩
    have bound := (List.getElem?_eq_some_iff.mp placed).1
    simp [bound]

theorem fate_of_entry (onCourse : OnCourse course elapsed history call)
    (unended : call.ended = none) {entry : Settled}
    (member : entry ∈ history.state.entries call) :
    ∃ step, course.steps[entry.position]? = some step ∧
      course.fate step = (elapsed, entry.outcome) := by
  obtain ⟨task, found, ending, placed, _, present, life, known⟩ :=
    (onCourse.tracks.mem_entries onCourse.going unended entry).mp member
  obtain ⟨step, there, rfl⟩ := onCourse.placed_iff.mp placed
  obtain ⟨time, rfl, _⟩ := onCourse.fate_of_ended there present life
  refine ⟨step, there, ?_⟩
  have now : (course.fate step).1 = elapsed := by
    rw [onCourse.clock] at time
    omega
  have outcome : entry.outcome = (course.fate step).2 := by rw [known]; rfl
  rw [← now, outcome]

theorem outcome_of_joined (onCourse : OnCourse course elapsed history call) {entry : Settled}
    (member : entry ∈ history.joinedBy course.call) :
    ∃ step, course.steps[entry.position]? = some step ∧
      entry.outcome = (course.fate step).2 ∧ (course.fate step).1 ≤ elapsed := by
  obtain ⟨task, found, time, ending, placed, _, present, life, known⟩ :=
    onCourse.tracks.joined entry member
  obtain ⟨step, there, rfl⟩ := onCourse.placed_iff.mp placed
  obtain ⟨_, rfl, past⟩ := onCourse.fate_of_ended there present life
  exact ⟨step, there, by rw [known]; rfl, past⟩

theorem map_entries (onCourse : OnCourse course elapsed history call)
    (unended : call.ended = none) :
    ((history.state.entries call).map fun entry => course.first + entry.position) =
      call.finished := by
  rw [State.entries_of_going history.state onCourse.going unended, List.map_filterMap]
  refine (List.filterMap_congr fun task waiting => ?_).trans List.filterMap_some
  obtain ⟨position, _, ending, placed, _, _, known⟩ :=
    onCourse.tracks.settled?_of_finished onCourse.going waiting
  obtain ⟨_, _, rfl⟩ := onCourse.placed_iff.mp placed
  rw [known]
  rfl

theorem failure_of_entry (onCourse : OnCourse course elapsed history call)
    (unended : call.ended = none) (failed : failures (history.state.entries call) ≠ [])
    (in_time : course.deadline ≠ some elapsed) : course.failure = some elapsed := by
  obtain ⟨failure, member⟩ := List.exists_mem_of_ne_nil _ failed
  obtain ⟨entry, known, outcome⟩ := mem_failures.mp member
  obtain ⟨step, placed, fate⟩ := onCourse.fate_of_entry unended known
  rcases step.fate_cases course.deadline course.failure with
    ⟨own, same⟩ | ⟨time, due, _, _, same⟩ | ⟨time, due, _, _, same⟩
  · have same := same.symm.trans fate
    obtain ⟨now, result⟩ := Prod.mk.inj same
    have first := firstFailure_of_isOwn (List.mem_of_getElem? placed) own
      (by simp [result, outcome])
    rw [← now]
    exact first
  · obtain ⟨rfl, _⟩ := Prod.mk.inj (same.symm.trans fate)
    exact absurd due in_time
  · obtain ⟨rfl, _⟩ := Prod.mk.inj (same.symm.trans fate)
    exact due

theorem callSpan_of_stop (onCourse : OnCourse course elapsed history call)
    (unended : call.ended = none) (some_joined : history.state.entries call ≠ []) {after : Call}
    (tracks : Tracks next course.call course.scripts after)
    (tasks : next.state.tasks = history.state.tasks) (same : after.tasks = call.tasks)
    (none_left : after.left = 0) : callSpan course.deadline course.steps = elapsed := by
  obtain ⟨entry, member⟩ := List.exists_mem_of_ne_nil _ some_joined
  obtain ⟨step, placed, fate⟩ := onCourse.fate_of_entry unended member
  have now : (course.fate step).1 = elapsed := by rw [fate]
  rw [← now]
  refine callSpan_eq (List.mem_of_getElem? placed) fun other known => ?_
  obtain ⟨position, placed'⟩ := List.getElem?_of_mem known
  have bound : position < course.scripts.length := by
    simpa [Course.scripts] using (List.getElem?_eq_some_iff.mp placed').1
  obtain ⟨entry', member', rfl⟩ := tracks.exists_joined none_left bound
  obtain ⟨task, found, time, ending, there, _, present, life, _⟩ := tracks.joined entry' member'
  rw [same] at there
  obtain ⟨again, placed'', rfl⟩ := onCourse.placed_iff.mp there
  rw [tasks] at present
  exact now ▸ (onCourse.fate_of_ended placed' present life).2.2

theorem unstirred (onCourse : OnCourse course elapsed history call)
    (head : history.state.ready = .call course.call :: rest) {position : Nat} {step : TimedStep}
    (placed : course.steps[position]? = some step) :
    .task (course.first + position) ∉ history.state.ready := by
  intro inLine
  obtain ⟨ids, last, lined⟩ := onCourse.lined
  have member := lined.mem (Course.hasTask_of_placed placed) inLine
  rw [(lined.head_call head).1] at member
  cases member

/-- When the call hears of a failure, it is the first one, and all that still wait are late. -/
theorem late_of_waiting (onCourse : OnCourse course elapsed history call)
    (head : history.state.ready = .call course.call :: rest) (unended : call.ended = none)
    (failed : failures (history.state.entries call) ≠ []) {position : Nat} {step : TimedStep}
    (placed : course.steps[position]? = some step) {task : Task}
    (stands : course.Stands history.state elapsed position step task)
    (waits : task.isWaiting = true) :
    course.failure = some elapsed ∧ elapsed < step.millis := by
  have absent := onCourse.unstirred head placed
  cases stands with
  | fresh _ _ inLine => exact absurd inLine absent
  | waiting same _ early _ _ _ _ _ reasons _ =>
      have in_time : course.deadline ≠ some elapsed := fun due =>
        absent (reasons (.inr (.inr due)))
      exact ⟨onCourse.failure_of_entry unended failed in_time,
        Nat.lt_of_le_of_ne early fun due => absent (reasons (.inr (.inl due)))⟩
  | done life => simp [Schedule.Task.isWaiting, life] at waits

theorem stands_canceled (onCourse : OnCourse course elapsed history call)
    (head : history.state.ready = .call course.call :: rest) (unended : call.ended = none)
    (failed : failures (history.state.entries call) ≠ []) {state : State}
    (timers : state.timers = history.state.timers)
    (listeners : state.listeners = history.state.listeners)
    (stirred : ∀ id, (id, course.scope) ∈ history.state.listeners → .task id ∈ state.ready)
    {position : Nat} {step : TimedStep} (placed : course.steps[position]? = some step)
    {task : Task} (stands : course.Stands history.state elapsed position step task) :
    course.Stands state elapsed position step task := by
  have late := onCourse.late_of_waiting head unended failed placed stands
  cases stands with
  | fresh _ _ inLine => exact absurd inLine (onCourse.unstirred head placed)
  | waiting same positive early before_deadline before_failure timer alarm hears _ _ =>
      refine .waiting same positive early before_deadline before_failure ?_ ?_ ?_
        (fun _ => stirred _ hears) fun _ => late (by rw [same]; rfl)
      · rw [timers]
        exact timer
      · rw [timers]
        exact alarm
      · rw [listeners]
        exact hears
  | done life past => exact .done life past

theorem not_culprit_of_waiting (onCourse : OnCourse course elapsed history call)
    (head : history.state.ready = .call course.call :: rest) (unended : call.ended = none)
    (failed : failures (history.state.entries call) ≠ []) {id : Nat}
    (own : course.realm.hasTask id = true)
    (waits : ∃ task, history.state.tasks[id]? = some task ∧ task.isWaiting = true) :
    isCulprit course.deadline course.steps (id - course.first) = false := by
  obtain ⟨position, step, placed, rfl⟩ := Course.hasTask_iff.mp own
  obtain ⟨task, found, stands⟩ := onCourse.standing position step placed
  obtain ⟨again, found', waiting⟩ := waits
  obtain rfl : task = again := Option.some.inj (found.symm.trans found')
  obtain ⟨first, late⟩ := onCourse.late_of_waiting head unended failed placed stands waiting
  have different : elapsed ≠ step.millis := by omega
  have failure : firstFailure course.deadline course.steps = some elapsed := first
  simp [isCulprit, placed, failure, different]

theorem turn_ended (onCourse : OnCourse course elapsed history call)
    (sound : history.Sound) (turn : next = history.add (.turn (.call course.call)))
    (head : history.state.ready = .call course.call :: rest) (ended : call.ended.isSome = true) :
    OnCourse course elapsed next call := by
  obtain ⟨ids, last, lined⟩ := onCourse.lined
  obtain ⟨rfl, nobody⟩ := lined.head_call head
  have still : next.state = { history.state with ready := rest } := by
    rw [turn]
    refine (State.apply_turn_head head).trans ?_
    exact State.runCall_of_over onCourse.tracks.found (by simp [ended])
  have joined : next.joinedBy course.call = history.joinedBy course.call := by
    rw [turn, Tracks.joinedBy_of_turn_call onCourse.tracks.found (by simp [head])]
    simp [State.entries, ended]
  obtain ⟨after, tracks, continues⟩ := onCourse.tracks.add sound (.turn (.call course.call))
  rw [← turn] at tracks
  have known : next.state.calls[course.call]? = some call := by
    rw [still]
    exact onCourse.tracks.found
  obtain rfl : call = after := Option.some.inj (known.symm.trans tracks.found)
  refine onCourse.turned tracks continues rfl rfl joined (by rw [still]) (by rw [still]) ?_ ?_ ?_
    ?_ ?_
  · intro position step placed
    obtain ⟨task, found, stands⟩ := onCourse.standing position step placed
    refine ⟨task, by rw [still]; exact found, stands.congr ?_ ?_ ?_ ?_⟩
    · rw [still]
      exact mem_rest head (by simp)
    · simp [still]
    · simp [still]
    · simp [still, State.isCanceled]
  · refine ⟨[], [], by rw [still]; simpa using nobody, .inl rfl, List.Pairwise.nil, ?_⟩
    rw [Course.settled_congr joined]
    exact lined.turns
  · rw [still]
    exact onCourse.timers.congr fun _ _ => rfl
  · rw [still]
    exact onCourse.listeners.congr fun _ _ => rfl
  · rw [still]
    exact onCourse.heard

theorem lined_canceled (onCourse : OnCourse course elapsed history call)
    (head : history.state.ready = .call course.call :: rest) (unended : call.ended = none)
    (failed : failures (history.state.entries call) ≠ []) {after : Call}
    (settled : course.settled next after = course.settled history call)
    (ready : next.state.ready =
      (State.cancelScope { history.state with ready := rest } course.scope).ready) :
    ∃ ids last, course.Lined next after ids last := by
  obtain ⟨ids, last, lined⟩ := onCourse.lined
  obtain ⟨rfl, nobody⟩ := lined.head_call head
  let heard := (history.state.listeners.filter fun listener =>
    history.state.scopes.isWithin listener.2 course.scope).map Prod.fst
  have fewer : (heard.filter course.realm.hasTask).Sublist
      ((history.state.listeners.filter fun listener =>
        course.realm.hasTask listener.1).map Prod.fst) := by
    simp only [heard, List.filter_map]
    exact (List.filter_sublist.filter _).map _
  let canceled : State :=
    { history.state with ready := rest, scopes := history.state.scopes.cancel course.scope }
  have line : canceled.ready.filter course.realm.has = ([] : List Nat).map Worker.task := nobody
  obtain ⟨woken, line, sorted, members⟩ := State.exists_woken heard line List.Pairwise.nil
    (onCourse.listeners.sorted.sublist fewer) (by simp)
  refine ⟨woken, [], ?_, .inl rfl, sorted, ?_⟩
  · rw [ready, List.append_nil]
    exact line
  · have clear : woken.filter (fun id =>
        isCulprit course.deadline course.steps (id - course.first)) = [] := by
      refine List.filter_eq_nil_iff.mpr fun id member => ?_
      obtain absurd | ⟨listed, own⟩ := (members id).mp member
      · cases absurd
      · have registered := fewer.subset (List.mem_filter.mpr ⟨listed, own⟩)
        simp [onCourse.not_culprit_of_waiting head unended failed own
          (onCourse.listeners.waits id registered)]
    rw [settled, List.filter_append, clear, List.append_nil]
    simpa using lined.turns

theorem stands_heard (onCourse : OnCourse course elapsed history call)
    (head : history.state.ready = .call course.call :: rest) (unended : call.ended = none)
    {state : State} (timers : state.timers = history.state.timers)
    (listeners : state.listeners = history.state.listeners)
    (scopes : state.scopes = if failures (history.state.entries call) = [] then
      history.state.scopes else history.state.scopes.cancel course.scope)
    (ready : state.ready = (State.hearing { history.state with ready := rest } course.scope
      (history.state.entries call)).ready)
    {position : Nat} {step : TimedStep} (placed : course.steps[position]? = some step)
    {task : Task} (stands : course.Stands history.state elapsed position step task) :
    course.Stands state elapsed position step task := by
  by_cases failed : failures (history.state.entries call) = []
  · rw [if_pos failed] at scopes
    rw [State.hearing, if_pos failed] at ready
    refine stands.congr ?_ (by simp [timers]) (by simp [listeners]) ?_
    · rw [ready]
      exact fun inLine => mem_rest head (by simp) inLine
    · rw [State.isCanceled, scopes]
      rfl
  · refine onCourse.stands_canceled head unended failed timers listeners ?_ placed stands
    intro id hears
    obtain ⟨own, there, self, _⟩ := onCourse.scope
    have within : history.state.scopes.isWithin course.scope course.scope = true := by
      simp [Scopes.isWithin, there, self]
    rw [ready, State.hearing, if_neg failed]
    exact State.mem_ready_wakeAll _ _ _
      (List.mem_map.mpr ⟨_, List.mem_filter.mpr ⟨hears, within⟩, rfl⟩)

theorem lined_heard (onCourse : OnCourse course elapsed history call)
    (head : history.state.ready = .call course.call :: rest) (unended : call.ended = none)
    {after : Call} (settled : course.settled next after = course.settled history call)
    (ready : next.state.ready = (State.hearing { history.state with ready := rest } course.scope
      (history.state.entries call)).ready) :
    ∃ ids last, course.Lined next after ids last := by
  by_cases failed : failures (history.state.entries call) = []
  · rw [State.hearing, if_pos failed] at ready
    obtain ⟨ids, last, lined⟩ := onCourse.lined
    obtain ⟨rfl, nobody⟩ := lined.head_call head
    refine ⟨[], [], ?_, .inl rfl, List.Pairwise.nil, settled ▸ lined.turns⟩
    rw [ready]
    simpa using nobody
  · rw [State.hearing, if_neg failed] at ready
    exact onCourse.lined_canceled head unended failed settled ready

theorem turn_going (onCourse : OnCourse course elapsed history call) (sound : history.Sound)
    (turn : next = history.add (.turn (.call course.call)))
    (head : history.state.ready = .call course.call :: rest) (unended : call.ended = none) :
    ∃ after, OnCourse course elapsed next after := by
  obtain ⟨after, tracks, continues⟩ := onCourse.tracks.add sound (.turn (.call course.call))
  rw [← turn] at tracks
  have joined : next.joinedBy course.call =
      history.joinedBy course.call ++ history.state.entries call := by
    rw [turn]
    exact Tracks.joinedBy_of_turn_call onCourse.tracks.found (by simp [head])
  let popped : State := { history.state with ready := rest }
  have found : popped.calls[course.call]? = some call := onCourse.tracks.found
  have ran : next.state = popped.runCall course.call := by
    rw [turn]
    exact State.apply_turn_head head
  obtain ⟨stop, joins⟩ : ∃ stop, popped.Joins course.call call
      (history.state.entries call) stop next.state :=
    ran ▸ State.joins_runCall found onCourse.going unended
  have same : after = call.joining (history.state.entries call) stop := by
    have known := tracks.found
    rw [joins.calls, List.getElem?_set_self (List.getElem?_eq_some_iff.mp found).1] at known
    exact (Option.some.inj known).symm
  subst same
  have settled : course.settled next (call.joining (history.state.entries call) stop) =
      course.settled history call := by
    simp only [Course.settled, joined, List.map_append, onCourse.map_entries unended,
      Call.joining, List.append_nil]
  rw [State.runCall_of_going found onCourse.going unended] at ran
  have timers : next.state.timers = history.state.timers := by
    rw [ran]
    exact State.timers_hearing _ _ _
  have listeners : next.state.listeners = history.state.listeners := by
    rw [ran]
    exact State.listeners_hearing _ _ _
  have ready : next.state.ready =
      (popped.hearing course.scope (history.state.entries call)).ready := by
    rw [ran, ← onCourse.place]
    rfl
  have scopes := joins.scopes
  rw [onCourse.place] at scopes
  obtain ⟨own, there, self, deadline⟩ := onCourse.scope
  refine ⟨call.joining (history.state.entries call) stop, ?_⟩
  constructor
  · exact tracks
  · exact onCourse.place
  · exact onCourse.started
  · exact onCourse.tasks
  · exact onCourse.going
  · exact joins.clock.trans onCourse.clock
  · rw [scopes]
    split
    · exact ⟨own, there, self, deadline⟩
    · exact ⟨_, Scopes.canceled_cancel there self, self, deadline⟩
  · intro position step placed
    obtain ⟨task, found, stands⟩ := onCourse.standing position step placed
    exact ⟨task, joins.tasks ▸ found,
      onCourse.stands_heard head unended timers listeners scopes ready placed stands⟩
  · exact onCourse.lined_heard head unended settled ready
  · rw [timers]
    exact onCourse.timers.congr fun id _ => by rw [joins.tasks]
  · rw [listeners]
    exact onCourse.listeners.congr fun id _ => by rw [joins.tasks]
  · rw [listeners]
    exact onCourse.heard
  · intro some_failure
    by_cases failed : failures (history.state.entries call) = []
    · rw [if_pos failed] at scopes
      rw [joined, failures_append, failed, List.append_nil] at some_failure
      rw [State.isCanceled, scopes]
      exact onCourse.failed some_failure
    · rw [if_neg failed] at scopes
      rw [State.isCanceled, scopes, Scopes.canceled_cancel there self]
      rfl
  · intro time cause ended
    have none_left : (call.joining (history.state.entries call) stop).left = 0 :=
      tracks.ended.mp (by simp [ended])
    have some_left : call.left ≠ 0 := fun zero => by
      simpa [unended] using onCourse.tracks.ended.mpr zero
    have some_joined : history.state.entries call ≠ [] := by
      rintro nothing
      simp only [Call.joining, nothing, List.length_nil] at none_left
      omega
    rw [onCourse.callSpan_of_stop unended some_joined tracks joins.tasks rfl none_left]
    exact (joins.time time cause ended).trans onCourse.clock

theorem turn_call (onCourse : OnCourse course elapsed history call) (sound : history.Sound)
    (turn : next = history.add (.turn (.call course.call)))
    (head : history.state.ready = .call course.call :: rest) :
    ∃ after, OnCourse course elapsed next after := by
  cases ended : call.ended with
  | some stop => exact ⟨call, onCourse.turn_ended sound turn head (by simp [ended])⟩
  | none => exact onCourse.turn_going sound turn head ended

/-! ## The passing of time -/

theorem quiet_waiting (onCourse : OnCourse course elapsed history call)
    (quiet : history.state.ready = []) {position : Nat} {step : TimedStep}
    (placed : course.steps[position]? = some step) {task : Task}
    (found : history.state.tasks[course.first + position]? = some task)
    (waits : task.isWaiting = true) :
    history.state.isCanceled course.scope = false ∧
      ⟨course.start + step.millis, course.first + position⟩ ∈ history.state.timers ∧
      ∀ time ∈ course.deadline,
        ⟨course.start + time, course.first + position⟩ ∈ history.state.timers := by
  obtain ⟨again, found', stands⟩ := onCourse.standing position step placed
  obtain rfl : task = again := Option.some.inj (found.symm.trans found')
  cases stands with
  | fresh _ _ inLine => simp [quiet] at inLine
  | waiting _ _ early before_deadline _ timer alarm _ reasons _ =>
      have unstirred := mt reasons (by simp [quiet])
      simp only [not_or, Bool.not_eq_true] at unstirred
      obtain ⟨clear, undue, open_still⟩ := unstirred
      refine ⟨clear, timer (Nat.lt_of_le_of_ne early undue), fun time due => ?_⟩
      refine alarm time due (Nat.lt_of_le_of_ne (before_deadline time due) fun same => ?_)
      exact open_still (same ▸ due)
  | done life => simp [Schedule.Task.isWaiting, life] at waits

theorem quiet_finished (onCourse : OnCourse course elapsed history call)
    (quiet : history.state.ready = []) : call.finished = [] := by
  by_contra waiting
  cases ended : call.ended with
  | none =>
      have told := onCourse.tracks.told waiting onCourse.going ended
      simp [quiet] at told
  | some stop =>
      exact waiting (onCourse.tracks.finished_eq_nil
        (onCourse.tracks.ended.mp (by simp [ended])))

/-- With nobody in line, a step that fails when the first failure comes still waits, unless the
scope is canceled. -/
theorem quiet_culprit (onCourse : OnCourse course elapsed history call)
    (quiet : history.state.ready = []) (clear : history.state.isCanceled course.scope = false)
    {position : Nat} {step : TimedStep} (placed : course.steps[position]? = some step)
    (fails : step.outcome.isSome = true) (first : course.failure = some step.millis) :
    ∃ task, history.state.tasks[course.first + position]? = some task ∧
      task.isWaiting = true := by
  obtain ⟨task, found, stands⟩ := onCourse.standing position step placed
  refine ⟨task, found, ?_⟩
  cases stands with
  | fresh _ _ inLine => simp [quiet] at inLine
  | waiting same => rw [same]; rfl
  | done life past =>
      have fate : course.fate step = (step.millis, step.outcome) :=
        TimedStep.fate_of_isOwn (isOwn_of_firstFailure first)
      have there := onCourse.placed_iff.mpr ⟨step, placed, rfl⟩
      obtain ⟨_, again, _, present, working⟩ := onCourse.tracks.exists_working there
      obtain rfl : task = again := Option.some.inj (found.symm.trans present)
      have joined := working.recorded _ _ life (by simp [onCourse.quiet_finished quiet])
      obtain ⟨failure, outcome⟩ := Option.isSome_iff_exists.mp fails
      have member : failure ∈ failures (history.joinedBy course.call) :=
        mem_failures.mpr ⟨_, joined, by rw [fate]; exact outcome⟩
      rw [onCourse.failed (List.ne_nil_of_mem member)] at clear
      cases clear

theorem time_le (onCourse : OnCourse course elapsed history call) {time : Nat}
    (possible : history.state.canJump time = true) {position : Nat} {step : TimedStep}
    (placed : course.steps[position]? = some step) {task : Task}
    (found : history.state.tasks[course.first + position]? = some task)
    (waits : task.isWaiting = true) :
    time ≤ course.start + step.millis ∧
      (∀ due ∈ course.deadline, time ≤ course.start + due) ∧
      ∀ due ∈ course.failure, time ≤ course.start + due := by
  simp only [State.canJump, Bool.and_eq_true, List.isEmpty_iff, List.all_eq_true,
    decide_eq_true_eq] at possible
  obtain ⟨quiet, passes⟩ := possible
  obtain ⟨clear, timer, alarms⟩ := onCourse.quiet_waiting quiet placed found waits
  refine ⟨passes _ timer, fun due limited => passes _ (alarms due limited), fun due failed => ?_⟩
  obtain ⟨⟨culprit, member, fails, _, rfl⟩, _⟩ :=
    firstFailure_eq_some.mp (Option.mem_def.mp failed)
  obtain ⟨index, placed'⟩ := List.getElem?_of_mem member
  obtain ⟨other, there, waits'⟩ := onCourse.quiet_culprit quiet clear placed' fails failed
  exact passes _ (onCourse.quiet_waiting quiet placed' there waits').2.1

theorem quiet_settled (onCourse : OnCourse course elapsed history call)
    (quiet : history.state.ready = []) (clear : history.state.isCanceled course.scope = false) :
    (course.settled history call).filter (fun id =>
      isCulprit course.deadline course.steps (id - course.first)) = [] := by
  rw [Course.settled, onCourse.quiet_finished quiet, List.append_nil]
  refine List.filter_eq_nil_iff.mpr fun id member culprit => ?_
  obtain ⟨entry, joined, rfl⟩ := List.mem_map.mp member
  obtain ⟨step, placed, outcome, _⟩ := onCourse.outcome_of_joined joined
  simp only [isCulprit, Nat.add_sub_cancel_left, placed, Option.any_some, Bool.and_eq_true,
    beq_iff_eq] at culprit
  obtain ⟨fails, first⟩ := culprit
  have fate : course.fate step = (step.millis, step.outcome) :=
    TimedStep.fate_of_isOwn (isOwn_of_firstFailure first)
  obtain ⟨failure, known⟩ := Option.isSome_iff_exists.mp fails
  have member : failure ∈ failures (history.joinedBy course.call) :=
    mem_failures.mpr ⟨entry, joined, by rw [outcome, fate]; exact known⟩
  rw [onCourse.failed (List.ne_nil_of_mem member)] at clear
  cases clear

theorem stands_jump (onCourse : OnCourse course elapsed history call) {time later : Nat}
    (possible : history.state.canJump time = true)
    (now : max history.state.clock time = course.start + later) {position : Nat}
    {step : TimedStep} (placed : course.steps[position]? = some step) {task : Task}
    (found : history.state.tasks[course.first + position]? = some task)
    (stands : course.Stands history.state elapsed position step task) :
    course.Stands (history.state.jump time) later position step task := by
  have clock := onCourse.clock
  have passed : elapsed ≤ later := by omega
  have quiet : history.state.ready = [] := by
    simp only [State.canJump, Bool.and_eq_true, List.isEmpty_iff] at possible
    exact possible.1
  have canceled : (history.state.jump time).isCanceled course.scope =
      history.state.isCanceled course.scope := by
    rw [State.isCanceled, State.scopes_jump]
    rfl
  have stays (due : Nat) (ahead : later < due)
      (set : ⟨course.start + due, course.first + position⟩ ∈ history.state.timers) :
      ⟨course.start + due, course.first + position⟩ ∈ (history.state.jump time).timers := by
    rw [State.timers_jump]
    refine List.mem_filter.mpr ⟨set, ?_⟩
    simp only [Bool.not_eq_true', decide_eq_false_iff_not]
    omega
  have fires (due : Nat) (ahead : elapsed ≠ due) (come : later = due)
      (set : ⟨course.start + due, course.first + position⟩ ∈ history.state.timers) :
      .task (course.first + position) ∈ (history.state.jump time).ready := by
    refine State.mem_ready_wakeAll _ _ _ (List.mem_map.mpr ⟨_, List.mem_filter.mpr ⟨set, ?_⟩, rfl⟩)
    simp only [decide_eq_true_eq]
    omega
  cases stands with
  | fresh _ _ inLine => simp [quiet] at inLine
  | waiting same positive early before_deadline before_failure timer alarm hears reasons cut =>
      have waits : task.isWaiting = true := by rw [same]; rfl
      obtain ⟨clear, set, alarms⟩ := onCourse.quiet_waiting quiet placed found waits
      obtain ⟨due_time, due_deadline, due_failure⟩ := onCourse.time_le possible placed found waits
      have unstirred := mt reasons (by simp [quiet])
      simp only [not_or] at unstirred
      obtain ⟨_, undue, unexpired⟩ := unstirred
      have clear' := canceled.trans clear
      refine .waiting same positive (by omega) ?_ ?_ (fun ahead => stays _ ahead set)
        (fun due limited ahead => stays _ ahead (alarms due limited)) ?_ ?_ ?_
      · intro due limited
        have bound := before_deadline due limited
        have passes := due_deadline due limited
        omega
      · intro due failed
        have bound := before_failure due failed
        have passes := due_failure due failed
        omega
      · rw [State.listeners_jump]
        exact hears
      · rintro (stopped | come | expired)
        · rw [clear'] at stopped
          cases stopped
        · exact fires _ undue come set
        · refine fires later (fun same => ?_) rfl (alarms later expired)
          exact unexpired (same ▸ expired)
      · intro stopped
        rw [clear'] at stopped
        cases stopped
  | done life past => exact .done life (by omega)

/-- The line when time has passed: those that are due, in their order. -/
theorem lined_jump (onCourse : OnCourse course elapsed history call) {time : Nat}
    (possible : history.state.canJump time = true)
    (state : next.state = history.state.jump time)
    (joined : next.joinedBy course.call = history.joinedBy course.call) :
    ∃ ids last, course.Lined next call ids last := by
  have quiet : history.state.ready = [] := by
    simp only [State.canJump, Bool.and_eq_true, List.isEmpty_iff] at possible
    exact possible.1
  obtain ⟨_, _, lined⟩ := onCourse.lined
  let fired := (history.state.timers.filter fun timer => timer.due ≤ time).map Timer.task
  have fewer : (fired.filter course.realm.hasTask).Sublist
      ((history.state.timers.filter fun timer => course.realm.hasTask timer.task).map
        Timer.task) := by
    simp only [fired, List.filter_map]
    exact (List.filter_sublist.filter _).map _
  let passed : State :=
    { history.state with
      clock := max history.state.clock time
      timers := history.state.timers.filter fun timer => !(timer.due ≤ time) }
  have line : passed.ready.filter course.realm.has = ([] : List Nat).map Worker.task := by
    simp [passed, quiet]
  obtain ⟨woken, line, sorted, members⟩ := State.exists_woken fired line List.Pairwise.nil
    (onCourse.timers.sorted.sublist fewer) (by simp)
  refine ⟨woken, [], ?_, .inl rfl, sorted, ?_⟩
  · rw [state, List.append_nil]
    exact line
  · -- If nobody is woken the order is the old one.
    rw [Course.settled_congr joined, List.filter_append]
    cases woken with
    | nil =>
        rw [List.filter_nil, List.append_nil]
        exact lined.turns.sublist ((List.sublist_append_left _ _).filter _)
    | cons first others =>
        -- Who still waits shows that nothing has failed so far, so the order starts afresh.
        obtain absurd | ⟨listed, own⟩ := (members first).mp List.mem_cons_self
        · cases absurd
        · obtain ⟨position, step, placed, same⟩ := Course.hasTask_iff.mp own
          obtain ⟨task, found, waits⟩ := onCourse.timers.waits first
            (fewer.subset (List.mem_filter.mpr ⟨listed, own⟩))
          have clear := (onCourse.quiet_waiting quiet placed (same ▸ found) waits).1
          rw [onCourse.quiet_settled quiet clear, List.nil_append]
          exact sorted.sublist List.filter_sublist

theorem jump (onCourse : OnCourse course elapsed history call) {time : Nat}
    (possible : history.state.canJump time = true) :
    ∃ later, OnCourse course later (history.add (.jump time)) call := by
  have tracks := onCourse.tracks.jump possible
  have state : (history.add (.jump time)).state = history.state.jump time := by
    simp only [History.add, State.apply, possible, if_true]
  have joined : (history.add (.jump time)).joinedBy course.call =
      history.joinedBy course.call := history.joinedBy_add_of_ne (by simp)
  have lined := onCourse.lined_jump possible state joined
  have bound := onCourse.clock
  obtain ⟨later, now⟩ : ∃ later, max history.state.clock time = course.start + later :=
    ⟨max history.state.clock time - course.start, by omega⟩
  refine ⟨later, ?_⟩
  constructor
  · exact tracks
  · exact onCourse.place
  · exact onCourse.started
  · exact onCourse.tasks
  · exact onCourse.going
  · rw [state, State.clock_jump]
    exact now
  · rw [state, State.scopes_jump]
    exact onCourse.scope
  · intro position step placed
    obtain ⟨task, found, stands⟩ := onCourse.standing position step placed
    rw [state, State.tasks_jump]
    exact ⟨task, found, onCourse.stands_jump possible now placed found stands⟩
  · exact lined
  · rw [state, State.timers_jump]
    refine onCourse.timers.mono ((List.filter_sublist.filter _).map _) (fun id _ => ?_) ?_
    · rw [State.tasks_jump]
    · intro id task _ found _
      rw [State.tasks_jump] at found
      exact found
  · rw [state, State.listeners_jump]
    exact onCourse.listeners.congr fun id _ => by rw [State.tasks_jump]
  · rw [state, State.listeners_jump]
    exact onCourse.heard
  · rw [joined, State.isCanceled, state, State.scopes_jump]
    exact onCourse.failed
  · exact onCourse.ended

end OnCourse

end OrderDesk
