import Mathlib.Data.List.Permutation
import OrderDesk.Proofs.Tracking

/-! Every move keeps track of a call: the moves that happen elsewhere, the turns of its tasks, its
own turn, and giving it up. So does every run, and an opened call is tracked from the start. -/

namespace OrderDesk.Schedule

namespace Tracks

variable {history next : History} {id : CallId} {steps : List (String × Script)} {call : Call}

theorem place_unique (tracks : Tracks history id steps call) {first second : Nat} {task : TaskId}
    (one : call.tasks[first]? = some task) (other : call.tasks[second]? = some task) :
    first = second := by
  obtain ⟨_, found, _, present, working⟩ := tracks.exists_working one
  obtain ⟨_, again, _, present', working'⟩ := tracks.exists_working other
  obtain rfl : found = again := Option.some.inj (present.symm.trans present')
  have same := working.duty.symm.trans working'.duty
  exact (Duty.mk.inj (Option.some.inj same)).2

theorem joined_subset (tracks : Tracks history id steps call) :
    (history.joinedBy id).map Settled.position ⊆ List.range steps.length := by
  intro position member
  obtain ⟨settled, known, rfl⟩ := List.mem_map.mp member
  obtain ⟨task, _, _, _, placed, _⟩ := tracks.joined settled known
  obtain ⟨bound, _⟩ := List.getElem?_eq_some_iff.mp placed
  exact List.mem_range.mpr (tracks.size ▸ bound)

theorem joined_perm (tracks : Tracks history id steps call) (none_left : call.left = 0) :
    ((history.joinedBy id).map Settled.position).Perm (List.range steps.length) := by
  refine (List.subperm_of_subset tracks.distinct tracks.joined_subset).perm_of_length_le ?_
  have counted := tracks.left
  simp only [List.length_map, List.length_range]
  omega

theorem finished_eq_nil (tracks : Tracks history id steps call) (none_left : call.left = 0) :
    call.finished = [] := by
  refine List.eq_nil_iff_forall_not_mem.mpr fun task waiting => ?_
  obtain ⟨position, placed⟩ := List.getElem?_of_mem (tracks.finished.2 task waiting)
  obtain ⟨bound, _⟩ := List.getElem?_eq_some_iff.mp placed
  have member : position ∈ (history.joinedBy id).map Settled.position :=
    (tracks.joined_perm none_left).mem_iff.mpr (List.mem_range.mpr (tracks.size ▸ bound))
  obtain ⟨settled, known, rfl⟩ := List.mem_map.mp member
  obtain ⟨other, _, _, _, placed', outside, _⟩ := tracks.joined settled known
  obtain rfl : task = other := Option.some.inj (placed.symm.trans placed')
  exact outside waiting

theorem beginnings_of_turn {duty : Duty} {task : TaskId} {found : Task}
    (present : history.state.tasks[task]? = some found) (works : found.duty = some duty)
    (inLine : .task task ∈ history.state.ready) :
    (history.add (.turn (.task task))).beginnings duty = history.beginnings duty ++
      if found.isFresh then [(history.state.clock, found.script)] else [] := by
  rw [History.beginnings_add]
  by_cases fresh : found.isFresh = true
  · simp [State.begun, present, works, inLine, fresh]
  · simp [State.begun, present, fresh]

theorem beginnings_of_turn_elsewhere {duty : Duty} {task : TaskId}
    (other : ∀ found, history.state.tasks[task]? = some found → found.duty ≠ some duty) :
    (history.add (.turn (.task task))).beginnings duty = history.beginnings duty := by
  rw [History.beginnings_add]
  simp only [List.append_right_eq_self, List.map_eq_nil_iff, List.filter_eq_nil_iff, beq_iff_eq]
  intro beginning member same
  cases present : history.state.tasks[task]? with
  | none => simp [State.begun, present] at member
  | some found =>
      simp only [State.begun, present] at member
      split at member
      · simp only [Option.mem_toList, Option.map_eq_some_iff] at member
        obtain ⟨known, works, rfl⟩ := member
        exact other found present (same ▸ works)
      · cases member

theorem joinedBy_of_turn_task (task : TaskId) :
    (history.add (.turn (.task task))).joinedBy id = history.joinedBy id := by
  simp [History.joinedBy_add, State.joined]

theorem took (tracks : Tracks history id steps call) {position : Nat} {task : TaskId}
    {step : String × Script} {found after : Task} {more : List TaskId}
    (placed : call.tasks[position]? = some task) (named : steps[position]? = some step)
    (present : history.state.tasks[task]? = some found)
    (took : { history.state with ready := history.state.ready.erase (.task task) }.Took task found
      after next.state)
    (alive : ∀ time ending, found.life ≠ .ended time ending)
    (known : next.state.calls[id]? = some { call with finished := call.finished ++ more })
    (told : more = [] ∨ more = [task] ∧ .call id ∈ next.state.ready)
    (joined : next.joinedBy id = history.joinedBy id)
    (begun : ∀ other, other ≠ position →
      next.beginnings ⟨id, other⟩ = history.beginnings ⟨id, other⟩)
    (working : Working next id { call with finished := call.finished ++ more } step.2 position task
      after) :
    Tracks next id steps { call with finished := call.finished ++ more } := by
  have outside : task ∉ call.finished := by
    intro member
    obtain ⟨before, present', working'⟩ := tracks.working position task step placed named
    obtain rfl : found = before := Option.some.inj (present.symm.trans present')
    obtain ⟨time, ending, life, _⟩ := working'.pending member
    exact alive time ending life
  have only : ∀ other ∈ more, other = task := by
    rcases told with none_more | ⟨one_more, _⟩
    · simp [none_more]
    · simp [one_more]
  have elsewhere (other : TaskId) (different : other ≠ task) :
      next.state.tasks[other]? = history.state.tasks[other]? := by
    rw [took.tasks]
    exact List.getElem?_set_ne different.symm
  have unmoved (other : TaskId) (different : other ≠ task)
      (inLine : .task other ∈ history.state.ready) : .task other ∈ next.state.ready :=
    took.ready _ ((List.mem_erase_of_ne (by simpa using different)).mpr inLine)
  constructor
  · exact known
  · exact tracks.nonempty
  · exact tracks.size
  · intro other id' step' placed' named'
    by_cases same : other = position
    · subst same
      obtain rfl : task = id' := Option.some.inj (placed.symm.trans placed')
      obtain rfl : step = step' := Option.some.inj (named.symm.trans named')
      refine ⟨after, ?_, working⟩
      rw [took.tasks]
      exact List.getElem?_set_self (List.getElem?_eq_some_iff.mp present).1
    · have different : id' ≠ task := by
        intro equal
        subst equal
        exact same (tracks.place_unique placed' placed)
      obtain ⟨found', present', working'⟩ := tracks.working other id' step' placed' named'
      refine ⟨found', (elsewhere id' different).trans present', working'.frame
        ⟨rfl, rfl, rfl, rfl⟩ rfl took.clock (begun other same)
        (fun _ => unmoved id' different) ?_ ?_⟩
      · intro member
        rcases List.mem_append.mp member with old | new
        · exact old
        · exact absurd (only id' new) different
      · intro time ending life unfinished
        rw [joined]
        exact working'.recorded time ending life fun old =>
          unfinished (List.mem_append_left _ old)
  · constructor
    · rcases told with none_more | ⟨one_more, _⟩
      · simpa [none_more] using tracks.finished.1
      · subst one_more
        refine List.nodup_append'.mpr ⟨tracks.finished.1, List.nodup_singleton task, ?_⟩
        simpa using outside
    · intro other member
      rcases List.mem_append.mp member with old | new
      · exact tracks.finished.2 other old
      · exact only other new ▸ List.mem_of_getElem? placed
  · rw [joined]
    exact tracks.distinct
  · intro settled member
    rw [joined] at member
    obtain ⟨other, found', time, ending, placed', unfinished, present', life, entry⟩ :=
      tracks.joined settled member
    have different : other ≠ task := by
      intro equal
      subst equal
      obtain rfl : found = found' := Option.some.inj (present.symm.trans present')
      exact alive time ending life
    refine ⟨other, found', time, ending, placed', ?_, (elsewhere other different).trans present',
      life, entry⟩
    intro later
    rcases List.mem_append.mp later with old | new
    · exact unfinished old
    · exact different (only other new)
  · rw [joined]
    exact tracks.left
  · rw [joined]
    exact tracks.tally
  · exact tracks.ended
  · intro some_finished going unended
    rcases told with none_more | ⟨_, inLine⟩
    · subst none_more
      simp only [List.append_nil, ne_eq] at some_finished
      have waiting := tracks.told some_finished going unended
      exact took.ready _ ((List.mem_erase_of_ne (by simp)).mpr waiting)
    · exact inLine

theorem begun_of_live {position : Nat} {task : TaskId} {found : Task} {body : Script}
    (working : Working history id call body position task found)
    (present : history.state.tasks[task]? = some found)
    (inLine : .task task ∈ history.state.ready) (live : found.life = .live) :
    (history.add (.turn (.task task))).beginnings ⟨id, position⟩ = [(call.started, body)] := by
  rw [beginnings_of_turn present working.duty inLine]
  by_cases fresh : found.isFresh = true
  · obtain ⟨unbegun, script, _, now⟩ := working.fresh fresh
    simp [fresh, unbegun, script, now]
  · rcases working.begun (by simpa using fresh) with once | ⟨_, doomed | dropped⟩
    · simp [fresh, once]
    · rw [live] at doomed
      cases doomed
    · rw [live] at dropped
      cases dropped

section Turn

variable {position : Nat} {task : TaskId} {found after : Task} {body : Script}

theorem working_of_blocked (working : Working history id call body position task found)
    (present : history.state.tasks[task]? = some found)
    (inLine : .task task ∈ history.state.ready) (live : found.life = .live)
    (took : { history.state with ready := history.state.ready.erase (.task task) }.Took task found
      after next.state)
    (turn : next = history.add (.turn (.task task))) (life : after.life = .live)
    (waits : after.waits = true) :
    Working next id { call with finished := call.finished ++ [] } body position task after := by
  have once := begun_of_live working present inLine live
  constructor
  · exact took.duty.trans working.duty
  · exact took.scope.trans working.scope
  · exact took.started.trans working.started
  · intro fresh
    simp [Task.isFresh, life, waits] at fresh
  · exact fun _ => .inl (turn ▸ once)
  · simp [life]
  · simp [life]
  · intro member
    obtain ⟨time, ending, stopped, _⟩ := working.pending (by simpa using member)
    rw [live] at stopped
    cases stopped
  · simp [life]
  · exact fun aborted => absurd live (working.given aborted)
  · simp [life]

theorem working_of_ended (working : Working history id call body position task found)
    (present : history.state.tasks[task]? = some found)
    (inLine : .task task ∈ history.state.ready) (live : found.life = .live)
    (took : { history.state with ready := history.state.ready.erase (.task task) }.Took task found
      after next.state)
    (turn : next = history.add (.turn (.task task))) {ending : Ending}
    (life : after.life = .ended history.state.clock ending)
    (timed : ending.Timed history.state.clock found.started) :
    Working next id { call with finished := call.finished ++ [task] } body position task after := by
  have once := begun_of_live working present inLine live
  constructor
  · exact took.duty.trans working.duty
  · exact took.scope.trans working.scope
  · exact took.started.trans working.started
  · intro fresh
    simp [Task.isFresh, life] at fresh
  · exact fun _ => .inl (turn ▸ once)
  · simp [life]
  · intro time ending' same
    obtain ⟨rfl, rfl⟩ := Life.ended.inj (life.symm.trans same)
    exact working.started ▸ timed
  · exact fun _ => ⟨_, ending, life, fun _ => took.clock.symm⟩
  · intro time ending' _ outside
    simp at outside
  · simp [life]
  · simp [life]

theorem working_of_dropped (working : Working history id call body position task found)
    (present : history.state.tasks[task]? = some found)
    (inLine : .task task ∈ history.state.ready) (doomed : found.life = .doomed)
    (took : { history.state with ready := history.state.ready.erase (.task task) }.Took task found
      after next.state)
    (turn : next = history.add (.turn (.task task))) (life : after.life = .dropped) :
    Working next id { call with finished := call.finished ++ [] } body position task after := by
  have stale : found.isFresh = false := by simp [Task.isFresh, doomed]
  constructor
  · exact took.duty.trans working.duty
  · exact took.scope.trans working.scope
  · exact took.started.trans working.started
  · intro fresh
    simp [Task.isFresh, life] at fresh
  · intro _
    rw [turn, beginnings_of_turn present working.duty inLine]
    rcases working.begun stale with once | ⟨never, _⟩
    · exact .inl (by simp [stale, once])
    · exact .inr ⟨by simp [stale, never], .inr life⟩
  · simp [life]
  · simp [life]
  · intro member
    obtain ⟨time, ending, stopped, _⟩ := working.pending (by simpa using member)
    rw [doomed] at stopped
    cases stopped
  · simp [life]
  · simp [life]
  · simp [life]

end Turn

theorem turn_task (tracks : Tracks history id steps call) {position : Nat} {task : TaskId}
    (placed : call.tasks[position]? = some task) (inLine : .task task ∈ history.state.ready) :
    ∃ after, Tracks (history.add (.turn (.task task))) id steps after ∧ call.Continues after := by
  obtain ⟨step, found, named, present, working⟩ := tracks.exists_working placed
  have turned := State.turned_runTask
    { history.state with ready := history.state.ready.erase (.task task) } task
  have state : (history.add (.turn (.task task))).state =
      State.runTask { history.state with ready := history.state.ready.erase (.task task) } task := by
    simp only [History.add, State.apply, inLine, if_true, State.run]
  have begun (other : Nat) (different : other ≠ position) :
      (history.add (.turn (.task task))).beginnings ⟨id, other⟩ =
        history.beginnings ⟨id, other⟩ := by
    refine beginnings_of_turn_elsewhere fun again present' works => ?_
    obtain rfl : found = again := Option.some.inj (present.symm.trans present')
    have same := works.symm.trans working.duty
    exact different (Duty.mk.inj (Option.some.inj same)).2
  rw [← state] at turned
  cases turned with
  | idle stale same =>
      refine ⟨call, tracks.apart ?_ (joinedBy_of_turn_task task) fun other => ?_, .refl call⟩
      · rw [same]
        refine State.apart_pop history.state (.task task) id (by simp) ?_
        intro other again _ equal present' _
        obtain rfl : task = other := Worker.task.inj equal
        exact stale again present'
      · by_cases different : other = position
        · subst different
          rw [beginnings_of_turn present working.duty inLine, (stale found present).1]
          simp
        · exact begun other different
  | blocked again after present' live took life waits calls =>
      obtain rfl : found = again := Option.some.inj (present.symm.trans present')
      have known : (history.add (.turn (.task task))).state.calls[id]? =
          some { call with finished := call.finished ++ [] } := by
        rw [calls, List.append_nil]
        exact tracks.found
      exact ⟨_, tracks.took placed named present took (by simp [live]) known (.inl rfl)
        (joinedBy_of_turn_task task) begun
        (working_of_blocked working present inLine live took rfl life waits), ⟨rfl, rfl, rfl, rfl⟩⟩
  | ended again after ending present' live took life timed calls told =>
      obtain rfl : found = again := Option.some.inj (present.symm.trans present')
      have known : (history.add (.turn (.task task))).state.calls[id]? =
          some { call with finished := call.finished ++ [task] } := by
        rw [calls, working.duty]
        simp [tracks.found]
      exact ⟨_, tracks.took placed named present took (by simp [live]) known
        (.inr ⟨rfl, told _ working.duty⟩) (joinedBy_of_turn_task task) begun
        (working_of_ended working present inLine live took rfl life timed), ⟨rfl, rfl, rfl, rfl⟩⟩
  | dropped again after present' doomed took life calls =>
      obtain rfl : found = again := Option.some.inj (present.symm.trans present')
      have known : (history.add (.turn (.task task))).state.calls[id]? =
          some { call with finished := call.finished ++ [] } := by
        rw [calls, List.append_nil]
        exact tracks.found
      exact ⟨_, tracks.took placed named present took (by simp [doomed]) known (.inl rfl)
        (joinedBy_of_turn_task task) begun
        (working_of_dropped working present inLine doomed took rfl life), ⟨rfl, rfl, rfl, rfl⟩⟩

theorem settled?_of_finished (tracks : Tracks history id steps call)
    (going : call.aborted = false) {task : TaskId} (waiting : task ∈ call.finished) :
    ∃ position found ending, call.tasks[position]? = some task ∧
      history.state.tasks[task]? = some found ∧
      found.life = .ended history.state.clock ending ∧
      history.state.settled? call task =
        some (ending.settled position call.started history.state.clock) := by
  obtain ⟨position, placed⟩ := List.getElem?_of_mem (tracks.finished.2 task waiting)
  obtain ⟨step, found, _, present, working⟩ := tracks.exists_working placed
  obtain ⟨time, ending, life, now⟩ := working.pending waiting
  obtain rfl := now going
  refine ⟨position, found, ending, placed, present, life, ?_⟩
  simp only [State.settled?, present, working.duty, life, Option.bind_eq_bind, Option.bind_some]
  cases ending <;> rfl

theorem mem_entries (tracks : Tracks history id steps call) (going : call.aborted = false)
    (unended : call.ended = none) (settled : Settled) :
    settled ∈ history.state.entries call ↔
      ∃ task found ending, call.tasks[settled.position]? = some task ∧ task ∈ call.finished ∧
        history.state.tasks[task]? = some found ∧
        found.life = .ended history.state.clock ending ∧
        settled = ending.settled settled.position call.started history.state.clock := by
  rw [State.entries_of_going history.state going unended, List.mem_filterMap]
  constructor
  · rintro ⟨task, waiting, entry⟩
    obtain ⟨position, found, ending, placed, present, life, known⟩ :=
      tracks.settled?_of_finished going waiting
    obtain rfl := Option.some.inj (known.symm.trans entry)
    exact ⟨task, found, ending, placed, waiting, present, life, rfl⟩
  · rintro ⟨task, found, ending, placed, waiting, present, life, entry⟩
    refine ⟨task, waiting, ?_⟩
    obtain ⟨position, again, ending', placed', present', life', known⟩ :=
      tracks.settled?_of_finished going waiting
    obtain rfl := Option.some.inj (present.symm.trans present')
    obtain ⟨_, rfl⟩ := Life.ended.inj (life.symm.trans life')
    rw [known, tracks.place_unique placed' placed]
    exact congrArg some entry.symm

theorem nodup_entries (tracks : Tracks history id steps call) (going : call.aborted = false)
    (unended : call.ended = none) :
    ((history.state.entries call).map Settled.position).Nodup := by
  rw [State.entries_of_going history.state going unended, List.map_filterMap, List.Nodup,
    List.pairwise_filterMap]
  refine tracks.finished.1.imp_of_mem fun {first second} one other different => ?_
  obtain ⟨position, _, _, placed, _, _, known⟩ := tracks.settled?_of_finished going one
  obtain ⟨position', _, _, placed', _, _, known'⟩ := tracks.settled?_of_finished going other
  simp only [known, known', Option.map_some, Option.some.injEq, Ending.settled, forall_eq']
  rintro rfl
  exact different (Option.some.inj (placed.symm.trans placed'))

theorem joinedBy_of_turn_call (found : history.state.calls[id]? = some call)
    (inLine : .call id ∈ history.state.ready) :
    (history.add (.turn (.call id))).joinedBy id =
      history.joinedBy id ++ history.state.entries call := by
  rw [History.joinedBy_add]
  simp [State.joined, found, inLine, List.filter_map, Function.comp_def]

theorem beginnings_of_turn_call (other : CallId) (duty : Duty) :
    (history.add (.turn (.call other))).beginnings duty = history.beginnings duty := by
  simp [History.beginnings_add, State.begun]

theorem distinct_join (tracks : Tracks history id steps call) (going : call.aborted = false)
    (unended : call.ended = none) :
    ((history.joinedBy id ++ history.state.entries call).map Settled.position).Nodup := by
  rw [List.map_append]
  refine List.nodup_append'.mpr ⟨tracks.distinct, tracks.nodup_entries going unended, ?_⟩
  intro position old new
  obtain ⟨settled, known, rfl⟩ := List.mem_map.mp old
  obtain ⟨entry, waiting, same⟩ := List.mem_map.mp new
  obtain ⟨task, _, _, _, placed, outside, _⟩ := tracks.joined settled known
  obtain ⟨other, _, _, placed', inside, _⟩ := (tracks.mem_entries going unended entry).mp waiting
  rw [same] at placed'
  obtain rfl : task = other := Option.some.inj (placed.symm.trans placed')
  exact outside inside

theorem length_entries_le (tracks : Tracks history id steps call) (going : call.aborted = false)
    (unended : call.ended = none) : (history.state.entries call).length ≤ call.left := by
  have subset : (history.joinedBy id ++ history.state.entries call).map Settled.position ⊆
      List.range steps.length := by
    intro position member
    rw [List.map_append] at member
    rcases List.mem_append.mp member with old | new
    · exact tracks.joined_subset old
    · obtain ⟨entry, waiting, rfl⟩ := List.mem_map.mp new
      obtain ⟨_, _, _, placed, _⟩ := (tracks.mem_entries going unended entry).mp waiting
      obtain ⟨bound, _⟩ := List.getElem?_eq_some_iff.mp placed
      exact List.mem_range.mpr (tracks.size ▸ bound)
  have counted := (List.subperm_of_subset (tracks.distinct_join going unended) subset).length_le
  simp only [List.map_append, List.length_append, List.length_map, List.length_range] at counted
  have total := tracks.left
  omega

theorem turn_call (tracks : Tracks history id steps call) (inLine : .call id ∈ history.state.ready)
    (going : call.aborted = false) (unended : call.ended = none) :
    ∃ after, Tracks (history.add (.turn (.call id))) id steps after ∧ call.Continues after := by
  obtain ⟨ended, turned⟩ : ∃ ended,
      State.Joins { history.state with ready := history.state.ready.erase (.call id) } id call
        (history.state.entries call) ended
        (State.runCall { history.state with ready := history.state.ready.erase (.call id) } id) :=
    State.joins_runCall tracks.found going unended
  have state : (history.add (.turn (.call id))).state =
      State.runCall { history.state with ready := history.state.ready.erase (.call id) } id := by
    simp only [History.add, State.apply, inLine, if_true, State.run]
  rw [← state] at turned
  have joined := joinedBy_of_turn_call tracks.found inLine
  have bound := tracks.length_entries_le going unended
  have left := tracks.left
  have waits (task : TaskId) (waiting : .task task ∈ history.state.ready) :
      .task task ∈ (history.add (.turn (.call id))).state.ready :=
    turned.ready _ ((List.mem_erase_of_ne (by simp)).mpr waiting)
  refine ⟨call.joining (history.state.entries call) ended, ?_, ⟨rfl, rfl, rfl, rfl⟩⟩
  constructor
  · rw [turned.calls]
    exact List.getElem?_set_self (List.getElem?_eq_some_iff.mp tracks.found).1
  · exact tracks.nonempty
  · exact tracks.size
  · intro position task step placed named
    obtain ⟨found, present, working⟩ := tracks.working position task step placed named
    refine ⟨found, turned.tasks ▸ present, working.frame ⟨rfl, rfl, rfl, rfl⟩ rfl turned.clock
      (beginnings_of_turn_call id _) (fun _ => waits task) (fun member => by cases member) ?_⟩
    intro time ending life _
    rw [joined, List.mem_append]
    by_cases waiting : task ∈ call.finished
    · right
      obtain ⟨time', ending', life', now⟩ := working.pending waiting
      obtain ⟨rfl, rfl⟩ := Life.ended.inj (life.symm.trans life')
      obtain rfl := now going
      exact (tracks.mem_entries going unended _).mpr
        ⟨task, found, ending, placed, waiting, present, life, rfl⟩
    · exact .inl (working.recorded time ending life waiting)
  · exact ⟨List.nodup_nil, by simp [Call.joining]⟩
  · rw [joined]
    exact tracks.distinct_join going unended
  · intro settled member
    rw [joined] at member
    rw [turned.tasks]
    rcases List.mem_append.mp member with old | new
    · obtain ⟨task, found, time, ending, placed, _, present, life, entry⟩ :=
        tracks.joined settled old
      exact ⟨task, found, time, ending, placed, by simp [Call.joining], present, life, entry⟩
    · obtain ⟨task, found, ending, placed, _, present, life, entry⟩ :=
        (tracks.mem_entries going unended settled).mp new
      exact ⟨task, found, _, ending, placed, by simp [Call.joining], present, life, entry⟩
  · rw [joined, List.length_append]
    simp only [Call.joining]
    omega
  · rw [joined, List.foldl_append, ← tracks.tally]
    rfl
  · exact turned.stops
  · intro some_finished
    exact absurd rfl some_finished

theorem joinedBy_add_of_joined_eq_nil {move : Move} (quiet : history.state.joined move = []) :
    (history.add move).joinedBy id = history.joinedBy id := by
  simp [History.joinedBy_add, quiet]

theorem beginnings_add_of_begun_eq_nil {move : Move} (quiet : history.state.begun move = [])
    (duty : Duty) : (history.add move).beginnings duty = history.beginnings duty := by
  simp [History.beginnings_add, quiet]

theorem working_of_doomed {position : Nat} {task : TaskId} {found : Task} {body : Script}
    (working : Working history id call body position task found) (live : found.life = .live)
    (inLine : .task task ∈ next.state.ready)
    (begun : next.beginnings ⟨id, position⟩ = history.beginnings ⟨id, position⟩) :
    Working next id { call with aborted := true } body position task
      { found with life := .doomed } := by
  constructor
  · exact working.duty
  · exact working.scope
  · exact working.started
  · intro fresh
    simp [Task.isFresh] at fresh
  · intro _
    rw [begun]
    by_cases fresh : found.isFresh = true
    · exact .inr ⟨(working.fresh fresh).1, .inl rfl⟩
    · rcases working.begun (by simpa using fresh) with once | ⟨never, _⟩
      · exact .inl once
      · exact .inr ⟨never, .inl rfl⟩
  · exact fun _ => inLine
  · simp
  · intro member
    obtain ⟨time, ending, stopped, _⟩ := working.pending member
    rw [live] at stopped
    cases stopped
  · simp
  · simp
  · intro _
    rw [begun]
    cases waits : found.waits with
    | false => exact (working.fresh (by simp [Task.isFresh, live, waits])).1
    | true =>
        rcases working.begun (by simp [Task.isFresh, live, waits]) with
          once | ⟨_, doomed | dropped⟩
        · exact once
        · rw [live] at doomed
          cases doomed
        · rw [live] at dropped
          cases dropped

theorem abort (tracks : Tracks history id steps call)
    (going : (call.aborted || call.ended.isSome) = false) :
    Tracks (history.add (.abortCall id)) id steps { call with aborted := true } := by
  have doomed := State.abortCall_of_going tracks.found going
  have state : (history.add (.abortCall id)).state = history.state.abortCall id := rfl
  rw [← state] at doomed
  have joined : (history.add (.abortCall id)).joinedBy id = history.joinedBy id :=
    joinedBy_add_of_joined_eq_nil rfl
  have begun (duty : Duty) :
      (history.add (.abortCall id)).beginnings duty = history.beginnings duty :=
    beginnings_add_of_begun_eq_nil rfl duty
  constructor
  · rw [doomed.calls]
    exact List.getElem?_set_self (List.getElem?_eq_some_iff.mp tracks.found).1
  · exact tracks.nonempty
  · exact tracks.size
  · intro position task step placed named
    obtain ⟨found, present, working⟩ := tracks.working position task step placed named
    by_cases live : found.life = .live
    · obtain ⟨present', inLine⟩ :=
        doomed.live task (List.mem_of_getElem? placed) found present live
      exact ⟨_, present', working_of_doomed working live inLine (begun _)⟩
    · have present' := doomed.other task found present fun _ => live
      refine ⟨found, present', ?_⟩
      constructor
      · exact working.duty
      · exact working.scope
      · exact working.started
      · intro fresh
        unfold Task.isFresh at fresh
        split at fresh
        · rename_i living
          exact absurd living live
        · cases fresh
      · rw [begun]
        exact working.begun
      · exact fun told => doomed.ready _ (working.doomed told)
      · exact working.timed
      · intro member
        obtain ⟨time, ending, stopped, _⟩ := working.pending member
        exact ⟨time, ending, stopped, by simp⟩
      · rw [joined]
        exact working.recorded
      · exact fun _ => live
      · rw [begun]
        exact working.interrupted
  · exact tracks.finished
  · rw [joined]
    exact tracks.distinct
  · intro settled member
    rw [joined] at member
    obtain ⟨task, found, time, ending, placed, outside, present, life, entry⟩ :=
      tracks.joined settled member
    exact ⟨task, found, time, ending, placed, outside,
      doomed.other task found present (by simp [life]), life, entry⟩
  · rw [joined]
    exact tracks.left
  · rw [joined]
    exact tracks.tally
  · exact tracks.ended
  · simp

/-- Time passes only when every body has begun and all that has ended is joined. -/
theorem jump (tracks : Tracks history id steps call) {time : Nat}
    (possible : history.state.canJump time = true) :
    Tracks (history.add (.jump time)) id steps call := by
  have empty : history.state.ready = [] := by
    simp only [State.canJump, Bool.and_eq_true, List.isEmpty_iff] at possible
    exact possible.1
  have state : (history.add (.jump time)).state = history.state.jump time := by
    simp only [History.add, State.apply, possible, if_true]
  have joined : (history.add (.jump time)).joinedBy id = history.joinedBy id :=
    joinedBy_add_of_joined_eq_nil rfl
  have begun (duty : Duty) : (history.add (.jump time)).beginnings duty = history.beginnings duty :=
    beginnings_add_of_begun_eq_nil rfl duty
  have tasks : (history.add (.jump time)).state.tasks = history.state.tasks := by
    rw [state]
    exact State.tasks_wakeAll _ _
  have calls : (history.add (.jump time)).state.calls = history.state.calls := by
    rw [state]
    exact State.calls_wakeAll _ _
  have all_joined (going : call.aborted = false) : call.finished = [] := by
    by_cases none_left : call.left = 0
    · exact tracks.finished_eq_nil none_left
    · by_contra waiting
      have unended : call.ended = none := by
        rw [← tracks.ended] at none_left
        simpa using none_left
      have inLine := tracks.told waiting going unended
      simp [empty] at inLine
  constructor
  · rw [calls]
    exact tracks.found
  · exact tracks.nonempty
  · exact tracks.size
  · intro position task step placed named
    obtain ⟨found, present, working⟩ := tracks.working position task step placed named
    refine ⟨found, tasks ▸ present, ?_⟩
    constructor
    · exact working.duty
    · exact working.scope
    · exact working.started
    · intro fresh
      have inLine := (working.fresh fresh).2.2.1
      simp [empty] at inLine
    · rw [begun]
      exact working.begun
    · intro doomed
      have inLine := working.doomed doomed
      simp [empty] at inLine
    · exact working.timed
    · intro member
      obtain ⟨time', ending, life, _⟩ := working.pending member
      refine ⟨time', ending, life, fun going => ?_⟩
      simp [all_joined going] at member
    · rw [joined]
      exact working.recorded
    · exact working.given
    · rw [begun]
      exact working.interrupted
  · exact tracks.finished
  · rw [joined]
    exact tracks.distinct
  · rw [joined, tasks]
    exact tracks.joined
  · rw [joined]
    exact tracks.left
  · rw [joined]
    exact tracks.tally
  · exact tracks.ended
  · intro waiting going
    exact absurd (all_joined going) waiting

theorem turn_any_task (tracks : Tracks history id steps call) (sound : history.Sound)
    (task : TaskId) (inLine : .task task ∈ history.state.ready) :
    ∃ after, Tracks (history.add (.turn (.task task))) id steps after ∧ call.Continues after := by
  by_cases own : ∃ found position, history.state.tasks[task]? = some found ∧
      found.duty = some ⟨id, position⟩
  · obtain ⟨found, position, present, works⟩ := own
    obtain ⟨other, known, placed⟩ := (sound.wired task id position).mp ⟨found, present, works⟩
    obtain rfl : call = other := Option.some.inj (tracks.found.symm.trans known)
    exact tracks.turn_task placed inLine
  · have other (found : Task) (present : history.state.tasks[task]? = some found)
        (position : Nat) : found.duty ≠ some ⟨id, position⟩ :=
      fun works => own ⟨found, position, present, works⟩
    refine ⟨call, tracks.apart ?_ (joinedBy_of_turn_task task) fun position =>
      beginnings_of_turn_elsewhere fun found present => other found present position, .refl call⟩
    simp only [History.add, State.apply, inLine, if_true, State.run]
    refine State.Apart.trans (State.apart_pop history.state (.task task) id (by simp) ?_)
      ((State.turned_runTask _ task).apart id other)
    intro again found position same present works
    obtain rfl := Worker.task.inj same
    exact absurd works (other found present position)

theorem turn_any_call (tracks : Tracks history id steps call) (other : CallId)
    (inLine : .call other ∈ history.state.ready) :
    ∃ after, Tracks (history.add (.turn (.call other))) id steps after ∧ call.Continues after := by
  have state : (history.add (.turn (.call other))).state =
      State.runCall { history.state with ready := history.state.ready.erase (.call other) }
        other := by
    simp only [History.add, State.apply, inLine, if_true, State.run]
  by_cases same : other = id
  · subst same
    by_cases stopped : (call.aborted || call.ended.isSome) = true
    · have still :
          State.runCall { history.state with ready := history.state.ready.erase (.call other) }
            other = { history.state with ready := history.state.ready.erase (.call other) } :=
        State.runCall_of_over tracks.found stopped
      refine ⟨call, tracks.apart ?_ ?_ fun position => beginnings_of_turn_call other _,
        .refl call⟩
      · rw [state, still]
        refine ⟨rfl, rfl, fun _ _ _ _ present => present, ?_, ?_⟩
        · exact fun task _ _ _ _ _ waiting => (List.mem_erase_of_ne (by simp)).mpr waiting
        · intro known present going unended _
          obtain rfl := Option.some.inj (tracks.found.symm.trans present)
          simp [going, unended] at stopped
      · rw [joinedBy_of_turn_call tracks.found inLine]
        simp [State.entries, stopped]
    · simp only [Bool.or_eq_true, not_or, Bool.not_eq_true, Option.isSome_eq_false_iff,
        Option.isNone_iff_eq_none] at stopped
      exact tracks.turn_call inLine stopped.1 stopped.2
  · refine ⟨call, tracks.apart ?_ ?_ fun position => beginnings_of_turn_call other _, .refl call⟩
    · rw [state]
      exact State.Apart.trans
        (State.apart_pop history.state (.call other) id (by simpa using same) (by simp))
        (State.apart_runCall _ same)
    · rw [History.joinedBy_add]
      simp only [List.append_right_eq_self, List.map_eq_nil_iff, List.filter_eq_nil_iff,
        beq_iff_eq]
      intro entry member equal
      cases found : history.state.calls[other]? with
      | none => simp [State.joined, found] at member
      | some known =>
          simp only [State.joined, found, inLine, if_true, List.mem_map] at member
          obtain ⟨settled, _, rfl⟩ := member
          exact same equal

theorem add (tracks : Tracks history id steps call) (sound : history.Sound) (move : Move) :
    ∃ after, Tracks (history.add move) id steps after ∧ call.Continues after := by
  have known : id < history.state.calls.length := (List.getElem?_eq_some_iff.mp tracks.found).1
  have elsewhere (apart : history.state.Apart (history.add move).state id)
      (joined : history.state.joined move = []) (begun : history.state.begun move = []) :
      ∃ after, Tracks (history.add move) id steps after ∧ call.Continues after :=
    ⟨call, tracks.apart apart (joinedBy_add_of_joined_eq_nil joined)
      fun position => beginnings_add_of_begun_eq_nil begun _, .refl call⟩
  have still := (State.Stirs.refl history.state).apart id
  cases move with
  | addBackground => exact elsewhere ⟨rfl, rfl, still.tasks, still.waiting, still.told⟩ rfl rfl
  | derive parent deadline =>
      exact elsewhere ⟨rfl, rfl, still.tasks, still.waiting, still.told⟩ rfl rfl
  | cancel target => exact elsewhere ((State.stirs_cancelScope _ _).apart id) rfl rfl
  | openCall context others => exact elsewhere (State.apart_openCall _ _ _ known) rfl rfl
  | spawn scope script => exact elsewhere (State.apart_spawn _ _ _ id) rfl rfl
  | doom task =>
      refine elsewhere ?_ rfl rfl
      simp only [History.add, State.apply]
      split
      · rename_i loose
        exact State.apart_doom _ task id loose
      · exact still
  | release task =>
      refine elsewhere ?_ rfl rfl
      simp only [History.add, State.apply]
      split
      · rename_i loose
        exact State.apart_release _ task id loose
      · exact still
  | abortCall other =>
      by_cases same : other = id
      · subst same
        by_cases stopped : (call.aborted || call.ended.isSome) = true
        · refine elsewhere ?_ rfl rfl
          simp only [History.add, State.apply, State.abortCall_of_over tracks.found stopped]
          exact still
        · exact ⟨_, tracks.abort (Bool.not_eq_true _ ▸ stopped), ⟨rfl, rfl, rfl, rfl⟩⟩
      · exact elsewhere (State.apart_abortCall sound.wired same) rfl rfl
  | jump time =>
      by_cases possible : history.state.canJump time = true
      · exact ⟨call, tracks.jump possible, .refl call⟩
      · refine elsewhere ?_ rfl rfl
        simp only [History.add, State.apply, possible, Bool.false_eq_true, if_false]
        exact still
  | turn worker =>
      by_cases inLine : worker ∈ history.state.ready
      · cases worker with
        | task task => exact tracks.turn_any_task sound task inLine
        | call other => exact tracks.turn_any_call other inLine
      · refine elsewhere ?_ ?_ ?_
        · simp only [History.add, State.apply, inLine, if_false]
          exact still
        · cases worker <;> simp only [State.joined, inLine, if_false]
          split <;> rfl
        · cases worker <;> simp only [State.begun, inLine, false_and, if_false]
          split <;> rfl

theorem play (tracks : Tracks history id steps call) (sound : history.Sound) (moves : List Move) :
    ∃ after, Tracks (history.play moves) id steps after ∧ call.Continues after := by
  induction moves generalizing history call with
  | nil => exact ⟨call, tracks, .refl call⟩
  | cons move moves ih =>
      obtain ⟨next, tracks', continues⟩ := tracks.add sound move
      obtain ⟨after, tracked, continued⟩ := ih tracks' (sound.add move)
      exact ⟨after, tracked, continues.trans continued⟩

end Tracks

/-! ## The beginning -/

theorem History.Sound.tracks_openCall {history : History} (sound : history.Sound)
    (context : ScopeId) {steps : List (String × Script)} (nonempty : steps ≠ []) :
    Tracks (history.add (.openCall context steps)) history.state.calls.length steps
      (history.state.newCall context steps) := by
  have opened := State.opened_openCall history.state context steps
  have state : (history.add (.openCall context steps)).state =
      (history.state.openCall context steps).1 := rfl
  rw [← state] at opened
  have joined : (history.add (.openCall context steps)).joinedBy history.state.calls.length = [] :=
    (Tracks.joinedBy_add_of_joined_eq_nil rfl).trans (sound.joinedBy_eq_nil (Nat.le_refl _))
  have begun (position : Nat) : (history.add (.openCall context steps)).beginnings
      ⟨history.state.calls.length, position⟩ = [] :=
    (Tracks.beginnings_add_of_begun_eq_nil rfl _).trans
      (sound.beginnings_eq_nil (Nat.le_refl _))
  have size : (history.state.newCall context steps).tasks.length = steps.length := by
    simp [State.newCall, Call.new]
  constructor
  · rw [opened.calls]
    exact List.getElem?_concat_length
  · exact nonempty
  · exact size
  · intro position task step placed named
    obtain ⟨bound, here⟩ := List.getElem?_eq_some_iff.mp placed
    have numbered : history.state.tasks.length + position = task := by
      simpa [State.newCall, Call.new] using here
    subst numbered
    refine ⟨Task.new history.state.scopes.length
      (some ⟨history.state.calls.length, position⟩) step.2 history.state.clock, ?_, ?_⟩
    · rw [opened.tasks, List.getElem?_append_right (Nat.le_add_right _ _), Nat.add_sub_cancel_left,
        State.getElem?_stepTasks]
      simp [named]
    · constructor
      · rfl
      · rfl
      · rfl
      · exact fun _ => ⟨begun position, rfl,
          opened.inLine _ (List.mem_of_getElem? placed), opened.clock⟩
      · simp [Task.isFresh, Task.new]
      · simp [Task.new]
      · simp [Task.new]
      · simp [State.newCall, Call.new]
      · simp [Task.new]
      · simp [State.newCall, Call.new]
      · simp [Task.new]
  · simp [State.newCall, Call.new]
  · simp [joined]
  · simp [joined]
  · simp [joined, State.newCall, Call.new]
  · simp [joined, State.newCall, Call.new]
  · simpa [State.newCall, Call.new] using nonempty
  · simp [State.newCall, Call.new]

/-- All that is not up to a call: what has happened before it is opened, in which context that is,
and what happens from then on, the order of turns included. -/
structure Occasion where
  limiter : Limiter
  before : List Move
  context : ScopeId
  after : List Move

namespace Occasion

def opening (occasion : Occasion) : History :=
  (History.start occasion.limiter).play occasion.before

def id (occasion : Occasion) : CallId :=
  occasion.opening.state.calls.length

def history (occasion : Occasion) (steps : List (String × Script)) : History :=
  occasion.opening.play (.openCall occasion.context steps :: occasion.after)

def call? (occasion : Occasion) (steps : List (String × Script)) : Option Call :=
  (occasion.history steps).state.calls[occasion.id]?

theorem sound_opening (occasion : Occasion) : occasion.opening.Sound :=
  (History.sound_start occasion.limiter).play occasion.before

/-- A call is tracked through every run after its opening. -/
theorem exists_tracks (occasion : Occasion) {steps : List (String × Script)}
    (nonempty : steps ≠ []) :
    ∃ call, Tracks (occasion.history steps) occasion.id steps call ∧
      (occasion.opening.state.newCall occasion.context steps).Continues call :=
  (occasion.sound_opening.tracks_openCall occasion.context nonempty).play
    (occasion.sound_opening.add _) occasion.after

end Occasion

end OrderDesk.Schedule
