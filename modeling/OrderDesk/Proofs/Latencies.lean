import OrderDesk.Proofs.StepStages

/-! How the bodies of the steps of an order keep to their time. None is over in no time, whatever
the order says. From when it has set to work, a body takes as long as its step says and then comes to
an end of its own, unless its scope has ended by then. So it neither succeeds nor fails once its
scope has ended, and if that was so when it was entered, it never gets as far as to have a slot. -/

namespace OrderDesk

open Schedule

namespace Leg

variable {leg : Leg} {state opened : State} {id : TaskId} {scope : ScopeId} {task next : Task}
  {duty : Duty} {total : Nat} {move : Move} {since : List Move}

/-- The body sets to work with the move: when it gets its slot if it needs one, and else when it is
entered. -/
def isStart (leg : Leg) (id : TaskId) : State → Move → Bool :=
  if leg.isCourier then State.isGrant id else State.isEntrance id

def starts (leg : Leg) (opened : State) (id : TaskId) (moves : List Move) : List Nat :=
  opened.timesOf (leg.isStart id) moves

inductive Concludes (leg : Leg) (opened : State) (id : TaskId) (scope : ScopeId)
    (moves first : List Move) (time : Nat) : Outcome → Prop
  | own (begun : Nat) (starts : leg.starts opened id moves = [begun])
      (due : time = begun + leg.millis) (unended : (opened.play first).cause? scope = none) :
      leg.Concludes opened id scope moves first time leg.outcome
  | refused (cause : Cause) (ended : (opened.play first).cause? scope = some cause) :
      leg.Concludes opened id scope moves first time (some (.cancelled cause))

inductive Stands (leg : Leg) (opened : State) (id : TaskId) (scope : ScopeId) (since : List Move)
    (task : Task) : Prop
  | idles (idles : leg.Idles task) (starts : leg.starts opened id since = [])
      (slotless : opened.Slotless id since)
  | queues (queues : leg.Queues task)
      (starts : leg.starts opened id since =
        bif (opened.play since).hasSlot id then [(opened.play since).clock] else [])
  | works (begun : Nat) (works : leg.Works (opened.play since) id task (begun + leg.millis))
      (starts : leg.starts opened id since = [begun])
  | ended (first : List Move) (time millis : Nat) (outcome : Outcome)
      (life : task.life = .ended time (.returned millis outcome)) (nothing : task.slots = 0)
      (ends : opened.EndsAfter id since first time (.returned millis outcome))
      (concludes : leg.Concludes opened id scope since first time outcome)
  | lost (life : task.life = .doomed ∨ task.life = .dropped)

theorem starts_concat (leg : Leg) (opened : State) (id : TaskId) (since : List Move) (move : Move) :
    leg.starts opened id (since ++ [move]) = leg.starts opened id since ++
      bif leg.isStart id (opened.play since) move then [(opened.play since).clock] else [] :=
  State.timesOf_concat (leg.isStart id) opened since move

theorem isStart_of_same (leg : Leg) (balanced : state.IsBalanced total)
    (found : state.tasks[id]? = some task)
    (kept : (state.apply move).tasks[id]? = some task) (unqueued : task.isQueued = false)
    (unentered : State.isEntrance id state move = false) : leg.isStart id state move = false := by
  have before := State.hasSlot_of_unqueued balanced found unqueued
  have after := State.hasSlot_of_unqueued (State.balanced_apply balanced move) kept unqueued
  unfold isStart
  split
  · simp [State.isGrant, before, after]
  · exact unentered

theorem isStart_of_works (balanced : state.IsBalanced total) (found : state.tasks[id]? = some task)
    (works : task.duty = some duty) (idles : leg.Idles task) (inLine : .task id ∈ state.ready)
    {due : Nat} (there : (state.apply (.turn (.task id))).tasks[id]? = some next)
    (busy : leg.Works (state.apply (.turn (.task id))) id next due) :
    leg.isStart id state (.turn (.task id)) = true := by
  have before := State.hasSlot_of_unqueued balanced found idles.unqueued
  have after := State.hasSlot_of_unqueued (State.balanced_apply balanced (.turn (.task id))) there
    (isQueued_of_core busy.script)
  unfold isStart
  split
  · rename_i needs
    simp [State.isGrant, before, after, idles.nothing, busy.slots, needs]
  · refine (State.isEntrance_iff found works).mpr ⟨inLine, ?_⟩
    simp [Task.isFresh, idles.live, idles.idle]

theorem isEntrance_of_begun (found : state.tasks[id]? = some task)
    (works : task.duty = some duty) (begun : task.isFresh = false) :
    State.isEntrance id state move = false := by
  by_contra entered
  obtain rfl := State.eq_turn_of_isEntrance (Bool.not_eq_false _ ▸ entered)
  have fresh := ((State.isEntrance_iff found works).mp (Bool.not_eq_false _ ▸ entered)).2
  simp [begun] at fresh

theorem Works.isStart_eq_false {due : Nat} (busy : leg.Works state id task due)
    (balanced : state.IsBalanced total) (found : state.tasks[id]? = some task)
    (works : task.duty = some duty) (move : Move) : leg.isStart id state move = false := by
  have slot := State.hasSlot_of_unqueued balanced found (isQueued_of_core busy.script)
  unfold isStart
  split
  · rename_i needs
    simp [State.isGrant, slot, busy.slots, needs]
  · exact isEntrance_of_begun found works (by simp [Task.isFresh, busy.live, busy.waits])

theorem Concludes.append {first : List Move} {time : Nat} {outcome : Outcome}
    (concludes : leg.Concludes opened id scope since first time outcome)
    (still : leg.isStart id (opened.play since) move = false) :
    leg.Concludes opened id scope (since ++ [move]) first time outcome := by
  cases concludes with
  | own begun starts due unended =>
      refine .own begun ?_ due unended
      rw [starts_concat, still, starts]
      rfl
  | refused cause ended => exact .refused cause ended

theorem Stands.stay (stands : leg.Stands opened id scope since task)
    (balanced : (opened.play since).IsBalanced total) (tended : (opened.play since).Tended none)
    (found : (opened.play since).tasks[id]? = some task)
    (kept : ((opened.play since).apply move).tasks[id]? = some task)
    (idle : task.life = .live →
      move ≠ .turn (.task id) ∨ (opened.play since).apply move = opened.play since)
    (unentered : State.isEntrance id (opened.play since) move = false) :
    leg.Stands opened id scope (since ++ [move]) task := by
  have reached := State.play_concat opened since move
  cases stands with
  | idles idles starts slotless =>
      have still := isStart_of_same leg balanced found kept idles.unqueued unentered
      refine .idles idles ?_ (slotless.concat ?_)
      · rw [starts_concat, still, starts]
        rfl
      · rw [reached, State.hasSlot_of_unqueued (State.balanced_apply balanced move) kept
          idles.unqueued]
        simp [idles.nothing]
  | queues queues starts =>
      have before := State.hasSlot_of_nothing found queues.nothing
      have after := State.hasSlot_of_nothing kept queues.nothing
      refine .queues queues ?_
      rw [starts_concat, starts, reached]
      simp only [isStart, queues.needs, if_true, State.isGrant, before, after]
      by_cases granted : id ∈ ((opened.play since).apply move).limiter.granted
      · -- Whether it has been granted before or just now, the clock stands still.
        rw [State.clock_of_granted tended granted]
        cases (opened.play since).limiter.granted.contains id <;> simp [granted]
      · have ungranted : id ∉ (opened.play since).limiter.granted := by
          intro already
          rcases idle queues.live with foreign | same
          · exact granted (State.granted_foreign balanced already foreign)
          · exact granted (same.symm ▸ already)
        simp [granted, ungranted]
  | works begun busy starts =>
      have still := isStart_of_same leg balanced found kept (isQueued_of_core busy.script)
        unentered
      refine .works begun ⟨busy.live, busy.waits, busy.script, busy.slots, ?_⟩ ?_
      · rw [reached]
        rcases idle busy.live with foreign | same
        · exact busy.wakes.apply busy.live busy.waits foreign
        · exact same.symm ▸ busy.wakes
      · rw [starts_concat, still, starts]
        rfl
  | ended first time millis outcome life nothing ends concludes =>
      have finished : task.life ≠ .live ∧ task.life ≠ .doomed := by simp [life]
      have unqueued := State.isQueued_of_over finished
      have still := isStart_of_same leg balanced found kept unqueued unentered
      exact .ended first time millis outcome life nothing (ends.append [move])
        (concludes.append still)
  | lost life => exact .lost life

theorem stands_of_yielded (live : task.life = .live)
    (found : (opened.play since).tasks[id]? = some task)
    (there : ((opened.play since).apply (.turn (.task id))).tasks[id]? = some next)
    (yielded : next.Yielded (opened.play since) scope) :
    leg.Stands opened id scope (since ++ [.turn (.task id)]) next := by
  obtain ⟨cause, millis, ended, life, nothing⟩ := yielded
  refine .ended since _ millis _ life nothing ⟨⟨[], rfl⟩, rfl, ?_, ?_⟩ (.refused cause ended)
  · exact ⟨task, found, live⟩
  · exact ⟨next, there, life⟩

theorem Idles.turn (idles : leg.Idles task) (positive : 0 < leg.millis)
    (balanced : (opened.play since).IsBalanced total)
    (found : (opened.play since).tasks[id]? = some task) (works : task.duty = some duty)
    (place : task.scope = scope) (inLine : .task id ∈ (opened.play since).ready)
    (starts : leg.starts opened id since = []) (slotless : opened.Slotless id since) :
    ∃ next, (opened.play (since ++ [.turn (.task id)])).tasks[id]? = some next ∧
      leg.Stands opened id scope (since ++ [.turn (.task id)]) next := by
  have reached := State.play_concat opened since (.turn (.task id))
  obtain ⟨next, there, becomes⟩ := State.exists_entrance positive found works idles inLine
  refine ⟨next, reached ▸ there, ?_⟩
  rcases becomes with yielded | busy | ⟨queues, granted⟩
  · exact stands_of_yielded idles.live found there (place ▸ yielded)
  · have begins := isStart_of_works balanced found works idles inLine there busy
    refine .works (opened.play since).clock (reached ▸ busy) ?_
    rw [starts_concat, begins, starts]
    rfl
  · have before : (opened.play since).hasSlot id = false := slotless since [] (by simp)
    have after : ((opened.play since).apply (.turn (.task id))).hasSlot id = false := by
      rw [State.hasSlot_of_nothing there queues.nothing, granted]
      exact State.hasSlot_of_nothing found idles.nothing ▸ before
    refine .queues queues ?_
    rw [starts_concat, starts, reached]
    simp [isStart, queues.needs, State.isGrant, after]

theorem Queues.turn (queues : leg.Queues task) (positive : 0 < leg.millis)
    (found : (opened.play since).tasks[id]? = some task) (works : task.duty = some duty)
    (place : task.scope = scope) (inLine : .task id ∈ (opened.play since).ready)
    (told : task.isAttentive = true →
      (opened.play since).done? id task.scope = (opened.play since).cause? task.scope)
    (starts : leg.starts opened id since =
      bif (opened.play since).hasSlot id then [(opened.play since).clock] else []) :
    ∃ next, (opened.play (since ++ [.turn (.task id)])).tasks[id]? = some next ∧
      leg.Stands opened id scope (since ++ [.turn (.task id)]) next := by
  have reached := State.play_concat opened since (.turn (.task id))
  obtain ⟨next, there, becomes⟩ := State.exists_look positive found works queues inLine told
  refine ⟨next, reached ▸ there, ?_⟩
  rcases becomes with yielded | ⟨granted, busy⟩ | ⟨rfl, ungranted, same⟩
  · exact stands_of_yielded queues.live found there (place ▸ yielded)
  · have slot : (opened.play since).hasSlot id = true := State.hasSlot_of_granted granted
    refine .works (opened.play since).clock (reached ▸ busy) ?_
    rw [starts_concat, starts]
    simp [isStart, queues.needs, State.isGrant, slot]
  · have before := State.hasSlot_of_nothing found queues.nothing
    have after := State.hasSlot_of_nothing there queues.nothing
    refine .queues queues ?_
    rw [starts_concat, starts, reached]
    simp [isStart, queues.needs, State.isGrant, before, after, same, ungranted]

theorem Works.turn {begun : Nat}
    (busy : leg.Works (opened.play since) id task (begun + leg.millis))
    (balanced : (opened.play since).IsBalanced total)
    (found : (opened.play since).tasks[id]? = some task) (works : task.duty = some duty)
    (place : task.scope = scope) (inLine : .task id ∈ (opened.play since).ready)
    (told : task.isAttentive = true →
      (opened.play since).done? id task.scope = (opened.play since).cause? task.scope)
    (starts : leg.starts opened id since = [begun]) :
    ∃ next, (opened.play (since ++ [.turn (.task id)])).tasks[id]? = some next ∧
      leg.Stands opened id scope (since ++ [.turn (.task id)]) next := by
  have reached := State.play_concat opened since (.turn (.task id))
  have once : leg.starts opened id (since ++ [.turn (.task id)]) = [begun] := by
    rw [starts_concat, busy.isStart_eq_false balanced found works, starts]
    rfl
  obtain ⟨next, there, becomes⟩ := State.exists_outcome found works busy inLine told
  refine ⟨next, reached ▸ there, ?_⟩
  rcases becomes with yielded | ⟨unended, due, nothing, millis, life⟩ | busy
  · exact stands_of_yielded busy.live found there (place ▸ yielded)
  · refine .ended since _ millis _ life nothing ⟨⟨[], rfl⟩, rfl, ?_, ?_⟩ ?_
    · exact ⟨task, found, busy.live⟩
    · exact ⟨next, there, life⟩
    · exact .own begun once due.symm (place ▸ unended)
  · exact .works begun (reached ▸ busy) once

theorem Stands.turn (stands : leg.Stands opened id scope since task) (positive : 0 < leg.millis)
    (orderly : (opened.play since).Orderly total id)
    (found : (opened.play since).tasks[id]? = some task) (works : task.duty = some duty)
    (place : task.scope = scope) (inLine : .task id ∈ (opened.play since).ready) :
    ∃ next, (opened.play (since ++ [.turn (.task id)])).tasks[id]? = some next ∧
      leg.Stands opened id scope (since ++ [.turn (.task id)]) next := by
  have ⟨wired, punctual, balanced, tended, attended⟩ := orderly
  have reached := State.play_concat opened since (.turn (.task id))
  have told := attended.done?_eq punctual found rfl
  cases stands with
  | idles idles starts slotless =>
      exact idles.turn positive balanced found works place inLine starts slotless
  | queues queues starts => exact queues.turn positive found works place inLine told starts
  | works begun busy starts => exact busy.turn balanced found works place inLine told starts
  | ended first time millis outcome life nothing ends concludes =>
      have kept := State.found_apply_of_over wired found works (by simp [Task.isOver, life])
        (.turn (.task id))
      refine ⟨task, reached ▸ kept, ?_⟩
      refine Stands.stay (.ended first time millis outcome life nothing ends concludes) balanced
        tended found kept (fun live => by simp [live] at life) ?_
      exact isEntrance_of_begun found works (by simp [Task.isFresh, life])
  | lost life =>
      obtain ⟨next, becomes⟩ := State.exists_becomes wired (.turn (.task id)) found
      exact ⟨next, reached ▸ becomes.found, .lost (becomes.evolves.lost life)⟩

/-- What one move makes of a body. -/
theorem Stands.add (stands : leg.Stands opened id scope since task) (positive : 0 < leg.millis)
    (orderly : (opened.play since).Orderly total id)
    (found : (opened.play since).tasks[id]? = some task) (works : task.duty = some duty)
    (place : task.scope = scope) (move : Move) :
    ∃ next, (opened.play (since ++ [move])).tasks[id]? = some next ∧
      leg.Stands opened id scope (since ++ [move]) next := by
  have ⟨wired, _, balanced, tended, _⟩ := orderly
  have reached := State.play_concat opened since move
  by_cases own : move = .turn (.task id)
  · subst own
    by_cases inLine : .task id ∈ (opened.play since).ready
    · exact stands.turn positive orderly found works place inLine
    · have same : (opened.play since).apply (.turn (.task id)) = opened.play since := if_neg inLine
      have kept : ((opened.play since).apply (.turn (.task id))).tasks[id]? = some task :=
        same.symm ▸ found
      refine ⟨task, reached ▸ kept, stands.stay balanced tended found kept (fun _ => .inr same) ?_⟩
      by_contra entered
      exact inLine ((State.isEntrance_iff found works).mp (Bool.not_eq_false _ ▸ entered)).1
  · rcases State.found_apply_foreign wired found own fun loose => by simp [works] at loose with
      kept | ⟨⟨_, doomed⟩, _⟩
    · refine ⟨task, reached ▸ kept, stands.stay balanced tended found kept (fun _ => .inl own) ?_⟩
      by_contra entered
      exact own (State.eq_turn_of_isEntrance (Bool.not_eq_false _ ▸ entered))
    · exact ⟨_, reached ▸ doomed, .lost (.inl rfl)⟩

/-! ## What becomes of a body -/

theorem Stands.play (stands : leg.Stands opened id scope since task) (positive : 0 < leg.millis)
    (orderly : opened.Orderly total id) (known : id < opened.tasks.length)
    (found : (opened.play since).tasks[id]? = some task) (works : task.duty = some duty)
    (place : task.scope = scope) (moves : List Move) :
    ∃ next, (opened.play (since ++ moves)).tasks[id]? = some next ∧ next.duty = some duty ∧
      next.scope = scope ∧ leg.Stands opened id scope (since ++ moves) next := by
  induction moves generalizing since task with
  | nil => exact ⟨task, by simpa using found, works, place, by simpa using stands⟩
  | cons move moves ih =>
      have reached := State.play_concat opened since move
      obtain ⟨next, there, goes⟩ :=
        stands.add positive (orderly.play known since) found works place move
      obtain ⟨again, becomes⟩ := State.exists_becomes (orderly.wired.play since) move found
      obtain rfl : next = again :=
        Option.some.inj (there.symm.trans (reached ▸ becomes.found))
      obtain ⟨last, here, ends⟩ := ih goes there (becomes.duty.trans works)
        (becomes.scope.trans place)
      exact ⟨last, by simpa using here, by simpa using ends⟩

/-- A body that is entered when its scope has ended has come to its end, and never has a slot. -/
theorem Stands.refused (stands : leg.Stands opened id scope since task) (positive : 0 < leg.millis)
    (wired : opened.Wired) (balanced : opened.IsBalanced total)
    (found : (opened.play since).tasks[id]? = some task) (works : task.duty = some duty)
    (place : task.scope = scope)
    (entered : State.isEntrance id (opened.play since) (.turn (.task id)) = true) {cause : Cause}
    (ended : (opened.play since).cause? scope = some cause) (rest : List Move) :
    let moves := since ++ .turn (.task id) :: rest
    (opened.play (since ++ [.turn (.task id)])).limiter = (opened.play since).limiter ∧
      opened.Slotless id moves ∧ ∃ next millis, (opened.play moves).tasks[id]? = some next ∧
        next.life = .ended (opened.play since).clock
          (.returned millis (some (.cancelled cause))) := by
  intro moves
  obtain ⟨inLine, fresh⟩ := (State.isEntrance_iff found works).mp entered
  cases stands with
  | queues queues _ => simp [Task.isFresh, queues.live, queues.waits] at fresh
  | works _ busy _ => simp [Task.isFresh, busy.live, busy.waits] at fresh
  | ended _ _ _ _ life _ _ _ => simp [Task.isFresh, life] at fresh
  | lost life => rcases life with life | life <;> simp [Task.isFresh, life] at fresh
  | idles idles _ slotless =>
      subst place
      have split : moves = (since ++ [.turn (.task id)]) ++ rest := by simp [moves]
      have reached := State.play_concat opened since (.turn (.task id))
      obtain ⟨next, millis, there, works', life, nothing, limiter⟩ :=
        State.exists_refusal positive found works idles inLine ended
      rw [← reached] at there limiter
      have finished : next.life ≠ .live ∧ next.life ≠ .doomed := by simp [life]
      have later := State.slotless_of_over (wired.play (since ++ [.turn (.task id)]))
        (balanced.play (since ++ [.turn (.task id)])) there finished nothing rest
      refine ⟨limiter, ?_, next, millis, ?_, life⟩
      · rw [split]
        exact (slotless.concat (later [] rest rfl)).append later
      · rw [split, State.play_append]
        have stopped : next.isOver = true := by simp [Task.isOver, life]
        exact State.found_play_of_over (wired.play _) there works' stopped rest

/-- The body ends by itself at the time `time`, in the turn that follows on `first`: as long after
it has set to work as its step takes, with its scope and its context still open, and so before the
deadline of the context. -/
structure EndsInTime (leg : Leg) (opened : State) (context scope : ScopeId) (id : TaskId)
    (moves first : List Move) (time : Nat) : Prop where
  works : ∃ begun, leg.starts opened id moves = [begun] ∧ time = begun + leg.millis
  scopeOpen : (opened.play first).cause? scope = none
  contextOpen : (opened.play first).cause? context = none
  early : ∀ due, (opened.play first).scopes.deadline? context = some due → time < due

theorem Concludes.own_or_cancelled {context : ScopeId} {first : List Move} {time : Nat}
    {ending : Ending} {outcome : Outcome}
    (concludes : leg.Concludes opened id scope since first time outcome)
    (links : (opened.play first).scopes.Links context scope)
    (ends : opened.EndsAfter id since first time ending) :
    (outcome = leg.outcome ∧ leg.EndsInTime opened context scope id since first time) ∨
      ∃ cause, outcome = some (.cancelled cause) ∧
        (opened.play first).cause? scope = some cause := by
  cases concludes with
  | refused cause ended => exact .inr ⟨cause, rfl, ended⟩
  | own begun starts due unended =>
      refine .inl ⟨rfl, ⟨begun, starts, due⟩, unended, ?_, fun late set => ?_⟩
      · cases outer : (opened.play first).cause? context with
        | none => rfl
        | some cause =>
            have inner : (opened.play first).cause? scope = some cause := links.cause outer
            simp [unended] at inner
      · rw [← links.deadline_eq] at set
        exact ends.clock ▸ State.clock_lt_of_cause unended set

/-- A body at work is going to be looked after in time. -/
theorem Stands.clock_le (stands : leg.Stands opened id scope since task)
    (live : task.life = .live) :
    ∀ begun ∈ leg.starts opened id since, (opened.play since).clock ≤ begun + leg.millis := by
  intro begun member
  cases stands with
  | idles _ starts _ => simp [starts] at member
  | queues _ starts =>
      rw [starts] at member
      cases slot : (opened.play since).hasSlot id with
      | false => simp [slot] at member
      | true =>
          obtain rfl : begun = (opened.play since).clock := by simpa [slot] using member
          exact Nat.le_add_right _ _
  | works first busy starts =>
      obtain rfl : begun = first := by simpa [starts] using member
      exact busy.wakes.soon
  | ended _ _ _ _ life _ _ _ => simp [life] at live
  | lost life => simp [live] at life

end Leg

theorem Schedule.State.stands_opened (state : State) (context : ScopeId) {leg : Leg}
    {steps : List (String × Script)} {position : Nat} {name : String}
    (placed : steps[position]? = some (name, leg.body leg.isCourier)) {total : Nat}
    (balanced : state.IsBalanced total) :
    ∃ task,
      (state.apply (.openCall context steps)).tasks[state.tasks.length + position]? = some task ∧
      task.duty = some ⟨state.calls.length, position⟩ ∧ task.scope = state.scopes.length ∧
      leg.Stands (state.apply (.openCall context steps)) (state.tasks.length + position)
        state.scopes.length [] task := by
  have opened := State.opened_openCall state context steps
  let task := Task.new state.scopes.length (some ⟨state.calls.length, position⟩)
    (leg.body leg.isCourier) state.clock
  have found : (state.apply (.openCall context steps)).tasks[state.tasks.length + position]? =
      some task := by
    rw [State.apply, opened.tasks, List.getElem?_append_right (Nat.le_add_right _ _),
      Nat.add_sub_cancel_left, State.getElem?_stepTasks, List.getElem?_map, placed]
    rfl
  have idles : leg.Idles task := ⟨rfl, rfl, rfl, rfl⟩
  refine ⟨task, found, rfl, rfl, .idles idles rfl (State.slotless_nil ?_)⟩
  rw [State.hasSlot_of_unqueued (State.balanced_apply balanced _) found idles.unqueued]
  rfl

/-- Whatever an order says about the latencies of its steps, none of them is over in no time.
Whatever goes on, the body of a step works in a scope that goes with its context. It ends by itself
only while that scope and the context are open, just as long after it was entered or, if it is to
assign a courier, after its slot was granted as its latency says, and so before the deadline of the
context. A body that is entered when its scope has ended gives way to that cause at once, without
taking a slot. -/
theorem steps_take_their_time (requested : Int) (before after : List Move) {context : ScopeId}
    (known : context < ((State.start (.new requested)).play before).scopes.length) {order : Order}
    {step : Step Order} {leg : Leg} (timed : (step, leg) ∈ orderPipeline.steps.zip order.legs)
    {steps : List (String × Script)} {position : Nat} {name : String}
    (placed : steps[position]? = some (name, step.body order)) :
    let opening := (State.start (.new requested)).play before
    let opened := opening.apply (.openCall context steps)
    let id := opening.tasks.length + position
    let scope := opening.scopes.length
    0 < leg.millis ∧
    (∀ first rest, after = first ++ rest →
      (opened.play first).scopes.deadline? scope = (opened.play first).scopes.deadline? context ∧
      ∀ cause, (opened.play first).cause? context = some cause →
        (opened.play first).cause? scope = some cause) ∧
    ∃ task, (opened.play after).tasks[id]? = some task ∧ task.scope = scope ∧
      (∀ time ending, task.life = .ended time ending → ∃ first millis outcome,
        ending = .returned millis outcome ∧ opened.EndsAfter id after first time ending ∧
        (outcome = leg.outcome ∧ leg.EndsInTime opened context scope id after first time ∨
          ∃ cause, outcome = some (.cancelled cause) ∧
            (opened.play first).cause? scope = some cause)) ∧
      (∀ first rest cause, after = first ++ .turn (.task id) :: rest →
        State.isEntrance id (opened.play first) (.turn (.task id)) = true →
        (opened.play first).cause? scope = some cause →
          (∃ millis, task.life =
            .ended (opened.play first).clock (.returned millis (some (.cancelled cause)))) ∧
          (opened.play (first ++ [.turn (.task id)])).limiter = (opened.play first).limiter ∧
          opened.Slotless id after) ∧
      (task.life = .live → ∀ begun ∈ leg.starts opened id after,
        (opened.play after).clock ≤ begun + leg.millis) := by
  intro opening opened id scope
  have positive : 0 < leg.millis := order.legs_pos leg (List.of_mem_zip timed).2
  have even : opening.IsBalanced (Limiter.clamp requested) :=
    (State.balanced_start rfl rfl).play before
  have wired : opened.Wired :=
    ((History.sound_start (.new requested)).wired.play before).apply (.openCall context steps)
  have balanced : opened.IsBalanced (Limiter.clamp requested) := State.balanced_apply even _
  have tended : opened.Tended none :=
    ((State.tended_start rfl).play (State.balanced_start rfl rfl) before).apply even _
  have punctual : opening.Punctual := (State.punctual_start _).play before
  have links (first : List Move) : (opened.play first).scopes.Links context scope := by
    refine State.links_play ?_ first
    have scopes := (State.opened_openCall opening context steps).scopes
    exact scopes ▸ (Scopes.agrees_derive known).links
  have body : steps[position]? = some (name, leg.body leg.isCourier) := by
    rw [placed, Order.body_of_timed timed]
  obtain ⟨new, born, works, place, stands⟩ := opening.stands_opened context body even
  have present : id < opened.tasks.length := (List.getElem?_eq_some_iff.mp born).1
  have attended : opened.Attended fun _ duty => duty.isSome = true := by
    have run := State.attended_play_start (.new requested) (before ++ [.openCall context steps])
    rwa [State.play_append] at run
  have orderly : opened.Orderly (Limiter.clamp requested) id := by
    refine ⟨wired, punctual.apply _, balanced, tended, attended.mono ?_⟩
    rintro _ task there rfl
    obtain rfl := Option.some.inj (there.symm.trans born)
    rw [works]
    rfl
  obtain ⟨task, found, _, placed', stood⟩ :=
    stands.play positive orderly present born works place after
  rw [List.nil_append] at found stood
  refine ⟨positive, fun first rest _ => ?_, task, found, placed', ?_, ?_, ?_⟩
  · exact ⟨(links first).deadline_eq, fun cause ended => (links first).cause ended⟩
  · intro time ending life
    cases stood with
    | idles idles _ _ => simp [idles.live] at life
    | queues queues _ => simp [queues.live] at life
    | works _ busy _ => simp [busy.live] at life
    | lost gone => simp [life] at gone
    | ended first stop millis outcome finished _ ends concludes =>
        obtain ⟨rfl, rfl⟩ := Life.ended.inj (finished.symm.trans life)
        exact ⟨first, millis, outcome, rfl, ends, concludes.own_or_cancelled (links first) ends⟩
  · intro first rest cause split entered ended
    obtain ⟨middle, there, works', placed', stands'⟩ :=
      stands.play positive orderly present born works place first
    rw [List.nil_append] at there stands'
    obtain ⟨limiter, slotless, next, millis, here, life⟩ :=
      stands'.refused positive wired balanced there works' placed' entered ended rest
    rw [← split] at slotless here
    obtain rfl : task = next := Option.some.inj (found.symm.trans here)
    exact ⟨⟨millis, life⟩, limiter, slotless⟩
  · exact stood.clock_le

/-- Somebody has the only courier when a context begins that is due after a while. -/
def courierAway : List Move :=
  [.addBackground, .spawn 0 [.acquire], .turn (.task 0), .derive 0 (some 120)]

/-- A step that needs a courier is entered. Then the courier comes back and goes on to it. -/
def courierBack : List Move :=
  [.turn (.task 1), .jump 10, .release 0, .turn (.task 1), .jump 110, .turn (.task 1)]

/-- To ask for no latency at all leaves the courier with the usual one, from when it has come
back. -/
theorem steps_take_their_time_courierBack :
    let order := (Order.new "o-1" 5).withDelay "courier" 0
    let leg : Leg :=
      { name := "courier", note := "courier assign", millis := 100, problem := none }
    let opened := ((State.start (.new 1)).play courierAway).apply
      (.openCall 1 [("courier", courierStep.body order)])
    ∃ task first, (opened.play courierBack).tasks[1]? = some task ∧
      task.life = .ended 110 (.returned 110 none) ∧ leg.starts opened 1 courierBack = [10] ∧
      leg.EndsInTime opened 1 2 1 courierBack first 110 := by
  intro order leg opened
  have known : 1 < ((State.start (.new 1)).play courierAway).scopes.length := by decide
  have timed : (courierStep, leg) ∈ orderPipeline.steps.zip order.legs :=
    List.mem_of_getElem? (i := 2) rfl
  have placed : [("courier", courierStep.body order)][0]? =
      some ("courier", courierStep.body order) := rfl
  obtain ⟨_, _, task, found, _, ends, _⟩ :=
    steps_take_their_time 1 courierAway courierBack known timed placed
  have life : task.life = .ended 110 (.returned 110 none) := by
    have body : courierStep.body order = [.enter, .acquire, .wait 100] := rfl
    have there : (opened.play courierBack).tasks[1]? = some task := found
    have shown : ((((State.start (.new 1)).play courierAway).apply
        (.openCall 1 [("courier", [.enter, .acquire, .wait 100])])).play courierBack).tasks[1]?.map
          Task.life = some (.ended 110 (.returned 110 none)) := rfl
    rw [← body, there] at shown
    exact Option.some.inj shown
  obtain ⟨first, millis, outcome, same, _, own⟩ := ends _ _ life
  obtain ⟨rfl, rfl⟩ := Ending.returned.inj same
  rcases own with ⟨_, in_time⟩ | ⟨_, cancelled, _⟩
  · obtain ⟨begun, starts, due⟩ := in_time.works
    obtain rfl : begun = 10 := by
      have latency : leg.millis = 100 := rfl
      omega
    exact ⟨task, first, found, life, starts, in_time⟩
  · cases cancelled

end OrderDesk
