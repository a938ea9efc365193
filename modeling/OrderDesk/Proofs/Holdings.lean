import OrderDesk.Proofs.Fairness

/-! Where the slots are. The free slots, the slots that tasks hold and the slots that are on their
way to a waiter are always as many as the limiter has. An attempt to get a slot either holds one or
nothing: whoever has given up, because its scope has ended or because it was told to, holds nothing
from then on, also if a slot was on its way to it. -/

namespace OrderDesk.Schedule

/-- How an attempt to get one slot stands: it is pending, or it holds the slot unless that has been
taken back, or it was refused since its scope had ended, or it was told to drop everything. -/
inductive Task.Attempts (task : Task) (kept : Prop) : Prop
  | pending (life : task.life = .live ∨ task.life = .doomed) (script : task.script = [.acquire])
      (nothing : task.slots = 0)
  | succeeded (time millis : Nat) (life : task.life = .ended time (.returned millis none))
      (most : task.slots ≤ 1) (one : kept → task.slots = 1)
  | refused (time millis : Nat) (cause : Cause)
      (life : task.life = .ended time (.returned millis (some (.cancelled cause))))
      (nothing : task.slots = 0)
  | dropped (life : task.life = .dropped) (nothing : task.slots = 0)

theorem Task.Attempts.weaken {task : Task} {kept less : Prop} (attempts : task.Attempts kept)
    (fewer : less → kept) : task.Attempts less := by
  cases attempts with
  | pending life script nothing => exact .pending life script nothing
  | succeeded time millis life most one =>
      exact .succeeded time millis life most fun given => one (fewer given)
  | refused time millis cause life nothing => exact .refused time millis cause life nothing
  | dropped life nothing => exact .dropped life nothing

namespace State

variable {state : State} {id : TaskId} {task : Task} {total : Nat}

theorem found_doom_other {other : TaskId} (found : state.tasks[id]? = some task)
    (spared : other ≠ id ∨ task.life ≠ .live) : (state.doom other).tasks[id]? = some task :=
  (doomed_doom state other).other id task found fun member live =>
    spared.elim (fun apart => apart (List.mem_singleton.mp member).symm) fun finished => finished live

theorem found_release_other {other : TaskId} (found : state.tasks[id]? = some task)
    (apart : other ≠ id) : (state.release other).tasks[id]? = some task := by
  unfold release
  repeat' split
  · exact found
  · exact found
  · simpa [setTask, List.getElem?_set_ne apart] using found

/-- In a move that is not its own turn, a task stays as it is, unless it is told to drop everything
or a slot is taken back from it. -/
theorem found_apply_foreign (wired : state.Wired) (found : state.tasks[id]? = some task) {move : Move}
    (turn : move ≠ .turn (.task id)) (release : task.duty = none → move ≠ .release id) :
    (state.apply move).tasks[id]? = some task ∨
      (task.life = .live ∧ (state.apply move).tasks[id]? = some { task with life := .doomed }) ∧
        (task.duty = none → move = .doom id) := by
  have bound := (List.getElem?_eq_some_iff.mp found).1
  have loose (told : state.isLoose id = true) : task.duty = none := by
    simpa [isLoose, found] using told
  cases move with
  | addBackground => exact .inl found
  | derive parent deadline => exact .inl found
  | cancel target => exact .inl (by simpa only [State.apply, tasks_cancelScope] using found)
  | openCall context steps =>
      rw [State.apply, (opened_openCall state context steps).tasks, List.getElem?_append_left bound]
      exact .inl found
  | abortCall call =>
      cases known : state.calls[call]? with
      | none => exact .inl (by simpa only [State.apply, abortCall, known] using found)
      | some record =>
          by_cases stopped : (record.aborted || record.ended.isSome) = true
          · rw [State.apply, abortCall_of_over known stopped]
            exact .inl found
          · have doomed := abortCall_of_going known (Bool.not_eq_true _ ▸ stopped)
            by_cases told : id ∈ record.tasks ∧ task.life = .live
            · refine .inr ⟨⟨told.2, (doomed.live id told.1 task found told.2).1⟩, fun free => ?_⟩
              obtain ⟨position, placed⟩ := List.getElem?_of_mem told.1
              obtain ⟨again, present, own⟩ := (wired id call position).mpr ⟨record, known, placed⟩
              obtain rfl : task = again := Option.some.inj (found.symm.trans present)
              simp [free] at own
            · exact .inl (doomed.other id task found fun member live => told ⟨member, live⟩)
  | spawn scope script =>
      simp only [State.apply, spawn, tasks_wake]
      rw [List.getElem?_append_left bound]
      exact .inl found
  | doom other =>
      simp only [State.apply]
      split
      · by_cases own : other = id ∧ task.life = .live
        · obtain ⟨rfl, live⟩ := own
          exact .inr ⟨⟨live, ((doomed_doom state other).live other (List.mem_singleton.mpr rfl) task
            found live).1⟩, fun _ => rfl⟩
        · exact .inl (found_doom_other found (not_and_or.mp own))
      · exact .inl found
  | release other =>
      simp only [State.apply]
      split
      · refine .inl (found_release_other found fun same => ?_)
        subst same
        exact release (loose ‹_›) rfl
      · exact .inl found
  | turn worker =>
      simp only [State.apply]
      split
      · let popped : State := { state with ready := state.ready.erase worker }
        cases worker with
        | task other => exact .inl (getElem?_tasks_runTask (fun same => turn (same ▸ rfl)) found)
        | call call =>
            rcases runCall_cases popped call with same | ⟨record, known, aborted, ended⟩
            · simp only [popped] at same
              simp only [run, same]
              exact .inl found
            · obtain ⟨stop, turned⟩ := joins_runCall known aborted ended
              simp only [popped] at turned
              simp only [run, turned.tasks]
              exact .inl found
      · exact .inl found
  | jump time =>
      simp only [State.apply]
      split
      · exact .inl (by simpa [jump] using found)
      · exact .inl found

theorem found_apply_other (wired : state.Wired) (found : state.tasks[id]? = some task) {move : Move}
    (turn : move ≠ .turn (.task id)) (release : move ≠ .release id)
    (spared : task.duty = none ∧ move ≠ .doom id ∨ task.life ≠ .live) :
    (state.apply move).tasks[id]? = some task := by
  rcases found_apply_foreign wired found turn fun _ => release with same | ⟨⟨live, _⟩, told⟩
  · exact same
  · rcases spared with ⟨loose, other⟩ | finished
    · exact absurd (told loose) other
    · exact absurd live finished

theorem found_finish (bound : id < state.tasks.length) (loose : task.duty = none) (ending : Ending) :
    (state.finish id task ending).tasks[id]? = some { task with
      script := [], waits := false, wake := none, life := .ended state.clock ending } := by
  simp only [finish, loose]
  exact List.getElem?_set_self bound

theorem attempts_success (bound : id < state.tasks.length) (loose : task.duty = none)
    (one : task.slots = 1) (kept : Prop) :
    ∃ next, (state.finish id task (state.returned task none)).tasks[id]? = some next ∧
      next.duty = none ∧ next.Attempts kept :=
  ⟨_, found_finish bound loose _, loose, .succeeded _ _ rfl (Nat.le_of_eq one) fun _ => one⟩

theorem attempts_perform (bound : id < state.tasks.length) (loose : task.duty = none)
    (live : task.life = .live) (nothing : task.slots = 0) (kept : Prop) :
    ∃ next, (state.perform id task [.acquire]).tasks[id]? = some next ∧ next.duty = none ∧
      next.Attempts kept := by
  cases ended : state.cause? task.scope with
  | some cause =>
      simp only [perform, attempt, doneAtOnce?_eq, Option.or_self, ended, stopWith]
      exact ⟨_, found_finish bound loose _, loose, .refused _ _ cause rfl nothing⟩
  | none =>
      cases taken : state.limiter.take? with
      | some limiter =>
          simp only [perform, attempt, doneAtOnce?_eq, Option.or_self, ended, taken]
          refine attempts_success ?_ ?_ ?_ kept
          · exact bound
          · exact loose
          · exact congrArg (· + 1) nothing
      | none =>
          simp only [perform, attempt, doneAtOnce?_eq, Option.or_self, ended, taken]
          exact ⟨_, List.getElem?_set_self bound, loose, .pending (.inl live) rfl nothing⟩

theorem attempts_resume (found : state.tasks[id]? = some task) (loose : task.duty = none)
    (live : task.life = .live) (waits : task.waits = true) (script : task.script = [.acquire])
    (nothing : task.slots = 0) (kept : Prop) :
    ∃ next, (state.runTask id).tasks[id]? = some next ∧ next.duty = none ∧ next.Attempts kept := by
  have bound := (List.getElem?_eq_some_iff.mp found).1
  simp only [runTask, found, live, waits, script, resume]
  cases state.done? id task.scope with
  | some cause =>
      simp only [stopWith]
      refine ⟨_, found_finish ?_ loose _, loose, .refused _ _ cause rfl nothing⟩
      rw [tasks_withLimiter]
      exact bound
  | none =>
      cases granted : state.limiter.granted.contains id with
      | true =>
          simp only [if_true, perform]
          refine attempts_success ?_ ?_ ?_ kept
          · exact bound
          · exact loose
          · exact congrArg (· + 1) nothing
      | false => exact ⟨task, found, loose, .pending (.inl live) script nothing⟩

theorem attempts_own_turn (found : state.tasks[id]? = some task) (loose : task.duty = none)
    {kept : Prop} (attempts : task.Attempts kept) :
    ∃ next, (state.runTask id).tasks[id]? = some next ∧ next.duty = none ∧ next.Attempts kept := by
  have bound := (List.getElem?_eq_some_iff.mp found).1
  cases attempts with
  | succeeded time millis life most one =>
      exact ⟨task, by simp [runTask, found, life], loose, .succeeded time millis life most one⟩
  | refused time millis cause life nothing =>
      exact ⟨task, by simp [runTask, found, life], loose, .refused time millis cause life nothing⟩
  | dropped life nothing =>
      exact ⟨task, by simp [runTask, found, life], loose, .dropped life nothing⟩
  | pending life script nothing =>
      rcases life with live | doomed
      · cases waits : task.waits with
        | true => exact attempts_resume found loose live waits script nothing kept
        | false =>
            simp only [runTask, found, live, waits, script]
            exact attempts_perform bound loose live nothing kept
      · simp only [runTask, found, doomed, drop, loose]
        refine ⟨_, List.getElem?_set_self ?_, rfl, .dropped rfl nothing⟩
        rw [tasks_withLimiter]
        exact bound

theorem attempts_doom (found : state.tasks[id]? = some task) (loose : task.duty = none)
    {kept : Prop} (attempts : task.Attempts kept) :
    ∃ next, (state.doom id).tasks[id]? = some next ∧ next.duty = none ∧ next.Attempts kept := by
  have doomed := doomed_doom state id
  by_cases live : task.life = .live
  · refine ⟨_, (doomed.live id (List.mem_singleton.mpr rfl) task found live).1, loose, ?_⟩
    cases attempts with
    | pending life script nothing => exact .pending (.inr rfl) script nothing
    | succeeded _ _ life _ _ => simp [live] at life
    | refused _ _ _ life _ => simp [live] at life
    | dropped life _ => simp [live] at life
  · exact ⟨task, doomed.other id task found fun _ => live, loose, attempts⟩

theorem attempts_release (found : state.tasks[id]? = some task) (loose : task.duty = none)
    {kept : Prop} (attempts : task.Attempts kept) :
    ∃ next, (state.release id).tasks[id]? = some next ∧ next.duty = none ∧ next.Attempts False := by
  have bound := (List.getElem?_eq_some_iff.mp found).1
  simp only [release, found]
  by_cases empty : task.slots = 0
  · simp only [empty, if_true]
    exact ⟨task, found, loose, attempts.weaken False.elim⟩
  · simp only [empty, if_false, tasks_giveSlot]
    refine ⟨_, List.getElem?_set_self bound, loose, ?_⟩
    cases attempts with
    | pending _ _ nothing => exact absurd nothing empty
    | succeeded time millis life most _ =>
        exact .succeeded time millis life (Nat.le_trans (Nat.sub_le _ _) most) False.elim
    | refused _ _ _ _ nothing => exact absurd nothing empty
    | dropped _ nothing => exact absurd nothing empty

theorem attempts_apply (wired : state.Wired) (found : state.tasks[id]? = some task)
    (loose : task.duty = none) {kept : Prop} (attempts : task.Attempts kept) (move : Move) :
    ∃ next, (state.apply move).tasks[id]? = some next ∧ next.duty = none ∧
      next.Attempts (kept ∧ move ≠ .release id) := by
  have told : state.isLoose id = true := by simp [isLoose, found, loose]
  by_cases turn : move = .turn (.task id)
  · subst turn
    simp only [State.apply]
    split
    · let popped : State := { state with ready := state.ready.erase (.task id) }
      have present : popped.tasks[id]? = some task := found
      obtain ⟨next, there, still, goes⟩ := attempts_own_turn present loose attempts
      exact ⟨next, there, still, goes.weaken And.left⟩
    · exact ⟨task, found, loose, attempts.weaken And.left⟩
  · by_cases release : move = .release id
    · subst release
      obtain ⟨next, there, still, goes⟩ := attempts_release found loose attempts
      simp only [State.apply, told, if_true]
      exact ⟨next, there, still, goes.weaken fun given => given.2 rfl⟩
    · by_cases doom : move = .doom id
      · subst doom
        obtain ⟨next, there, still, goes⟩ := attempts_doom found loose attempts
        simp only [State.apply, told, if_true]
        exact ⟨next, there, still, goes.weaken And.left⟩
      · exact ⟨task, found_apply_other wired found turn release (.inl ⟨loose, doom⟩), loose,
          attempts.weaken And.left⟩

theorem attempts_play (wired : state.Wired) (found : state.tasks[id]? = some task)
    (loose : task.duty = none) {kept : Prop} (attempts : task.Attempts kept) (moves : List Move) :
    ∃ next, (state.play moves).tasks[id]? = some next ∧
      next.Attempts (kept ∧ .release id ∉ moves) := by
  induction moves generalizing state task kept with
  | nil => exact ⟨task, found, attempts.weaken And.left⟩
  | cons move moves ih =>
      obtain ⟨next, there, still, goes⟩ := attempts_apply wired found loose attempts move
      obtain ⟨last, here, ends⟩ := ih (wired.apply move) there still goes
      refine ⟨last, here, ends.weaken fun given => ?_⟩
      simp only [List.mem_cons, not_or] at given
      exact ⟨⟨given.1, fun same => given.2.1 same.symm⟩, given.2.2⟩

theorem slotsOf_apply_le_of_over (wired : state.Wired) (found : state.tasks[id]? = some task)
    (finished : task.life ≠ .live ∧ task.life ≠ .doomed) (move : Move) :
    ∃ next, (state.apply move).tasks[id]? = some next ∧
      (next.life ≠ .live ∧ next.life ≠ .doomed) ∧ next.slots ≤ task.slots := by
  by_cases turn : move = .turn (.task id)
  · subst turn
    refine ⟨task, ?_, finished, Nat.le_refl _⟩
    simp only [State.apply]
    split
    · simp only [run, runTask, found]
      split
      · exact absurd ‹_› finished.1
      · exact absurd ‹_› finished.2
      · exact found
    · exact found
  · by_cases release : move = .release id
    · subst release
      simp only [State.apply]
      split
      · simp only [State.release, found]
        split
        · exact ⟨task, found, finished, Nat.le_refl _⟩
        · refine ⟨{ task with slots := task.slots - 1 }, ?_, finished, Nat.sub_le _ _⟩
          simp only [tasks_giveSlot]
          exact List.getElem?_set_self (List.getElem?_eq_some_iff.mp found).1
      · exact ⟨task, found, finished, Nat.le_refl _⟩
    · have kept := found_apply_other wired found turn release (.inr finished.1)
      exact ⟨task, kept, finished, Nat.le_refl _⟩

theorem slotsOf_play_le_of_over (wired : state.Wired) (balanced : state.IsBalanced total)
    (found : state.tasks[id]? = some task) (finished : task.life ≠ .live ∧ task.life ≠ .doomed)
    (moves : List Move) :
    (state.play moves).slotsOf id ≤ task.slots ∧ id ∉ (state.play moves).limiter.line := by
  induction moves generalizing state task with
  | nil =>
      refine ⟨Nat.le_of_eq (slotsOf_of_found found), fun queues => ?_⟩
      obtain ⟨same, there, queued⟩ := Balanced.queued balanced id queues
      obtain rfl := Option.some.inj (found.symm.trans there)
      exact (shape_of_isQueued queued).1.elim finished.1 finished.2
  | cons move moves ih =>
      obtain ⟨next, there, still, fewer⟩ := slotsOf_apply_le_of_over wired found finished move
      obtain ⟨bound, outside⟩ := ih (wired.apply move) (balanced_apply balanced move) there still
      exact ⟨Nat.le_trans bound fewer, outside⟩

theorem exists_finish (bound : id < state.tasks.length) (ending : Ending) :
    ∃ next, (state.finish id task ending).tasks[id]? = some next ∧
      next.life = .ended state.clock ending ∧ next.slots ≤ task.slots := by
  unfold finish
  split
  · exact ⟨_, List.getElem?_set_self bound, rfl, Nat.le_refl _⟩
  · refine ⟨{ task with
      script := [], waits := false, wake := none, guards := 0, slots := 0
      life := .ended state.clock ending }, ?_, rfl, Nat.zero_le _⟩
    simp only [report, tasks_wake, setTask, tasks_giveBack]
    exact List.getElem?_set_self bound

/-- Whoever is lost is over after its turn, and has got nothing. -/
theorem over_of_lost (lost : state.IsLost id) (punctual : state.Punctual)
    (balanced : state.IsBalanced total)
    (queues : id ∈ state.limiter.line) (inLine : .task id ∈ state.ready) :
    ∃ next, (state.apply (.turn (.task id))).tasks[id]? = some next ∧
      (next.life ≠ .live ∧ next.life ≠ .doomed) ∧ next.slots ≤ state.slotsOf id := by
  obtain ⟨task, found, reason⟩ := lost
  obtain ⟨same, there, queued⟩ := Balanced.queued balanced id queues
  obtain rfl := Option.some.inj (found.symm.trans there)
  have bound := (List.getElem?_eq_some_iff.mp found).1
  rw [slotsOf_of_found found]
  let popped : State := { state with ready := state.ready.erase (.task id) }
  have kept : id < ((popped.unlisten id).withLimiter
      ((popped.unlisten id).limiter.leave id)).tasks.length := by
    rw [tasks_withLimiter]
    exact bound
  simp only [State.apply, inLine, if_true, run, runTask, found]
  rcases reason with doomed | ⟨live, canceled⟩
  · simp only [doomed, drop]
    split
    · exact ⟨_, List.getElem?_set_self kept, by simp, Nat.le_refl _⟩
    · refine ⟨{ task with
        script := [], waits := false, wake := none, life := .dropped, guards := 0, slots := 0 }, ?_,
        by simp, Nat.zero_le _⟩
      simp only [setTask, tasks_giveBack]
      exact List.getElem?_set_self kept
  · obtain ⟨_, waits, rest, script⟩ := shape_of_isQueued queued
    obtain ⟨cause, ended⟩ := Option.isSome_iff_exists.mp (punctual.done?_isSome id canceled)
    have opened : popped.done? id task.scope = some cause := ended
    simp only [popped] at opened
    simp only [live, waits, script, resume, opened, stopWith]
    obtain ⟨next, there, life, fewer⟩ := exists_finish kept _
    exact ⟨next, there, by simp [life], fewer⟩

/-! ## Every run -/

theorem countP_le_sumOf (tasks : List Task) :
    tasks.countP (fun task => decide (0 < task.slots)) ≤ sumOf Task.slots tasks := by
  induction tasks with
  | nil => exact Nat.le_refl _
  | cons task tasks ih =>
      simp only [List.countP_cons, sumOf, decide_eq_true_eq]
      split <;> omega

/-- In every run of one limiter the free slots, those held and those on their way to somebody who
waits are as many as were asked for, within the limits, so no more tasks than that hold one. An
attempt to get a slot that has come to an end holds one if it has succeeded, unless it was taken
back, and nothing otherwise. And whoever is lost while it waits, even if a slot was granted to it in
the same instant, has nothing and waits for nothing from its next turn on. -/
theorem slots_add_up (requested : Int) (moves : List Move) :
    let state := (State.start (.new requested)).play moves
    state.limiter.free + sumOf Task.slots state.tasks + state.limiter.granted.length =
        Limiter.clamp requested ∧
      (state.limiter.granted.Nodup ∧ ∀ id ∈ state.limiter.granted, ∃ task,
        state.tasks[id]? = some task ∧ task.isQueued = true) ∧
      state.tasks.countP (fun task => decide (0 < task.slots)) ≤ Limiter.clamp requested ∧
      (∀ before scope after, moves = before ++ .spawn scope [.acquire] :: after →
        ∃ id task, id = ((State.start (.new requested)).play before).tasks.length ∧
          state.tasks[id]? = some task ∧ task.Attempts (.release id ∉ after) ∧
          (task.isQueued = false → id ∉ state.limiter.line)) ∧
      ∀ id ∈ state.limiter.line, state.IsLost id → .task id ∈ state.ready →
        ∀ more, ((state.apply (.turn (.task id))).play more).slotsOf id ≤ state.slotsOf id ∧
          id ∉ ((state.apply (.turn (.task id))).play more).limiter.line := by
  intro state
  have opening : (State.start (.new requested)).Wired := (History.sound_start (.new requested)).wired
  have even : (State.start (.new requested)).IsBalanced (Limiter.clamp requested) :=
    balanced_start rfl rfl
  have balanced : state.IsBalanced (Limiter.clamp requested) := even.play moves
  have counted : state.limiter.free + state.limiter.granted.length + sumOf Task.slots state.tasks =
      Limiter.clamp requested := Balanced.slots balanced
  have held := countP_le_sumOf state.tasks
  refine ⟨by omega, ⟨?_, fun id granted => ?_⟩, by omega, ?_, ?_⟩
  · exact (List.nodup_append.mp (Balanced.distinct balanced)).1
  · exact Balanced.queued balanced id (List.mem_append_left _ granted)
  · intro before scope after split
    have earlier : State.Wired ((State.start (.new requested)).play before) := opening.play before
    let opened := ((State.start (.new requested)).play before).apply (.spawn scope [.acquire])
    have born : opened.tasks[((State.start (.new requested)).play before).tasks.length]? =
        some (Task.new scope none [.acquire] ((State.start (.new requested)).play before).clock) := by
      simp [opened, State.apply, spawn]
    have fresh : (Task.new scope none [.acquire]
        ((State.start (.new requested)).play before).clock).Attempts True :=
      .pending (.inl rfl) rfl rfl
    obtain ⟨task, found, attempts⟩ := attempts_play (earlier.apply _) born rfl fresh after
    have reached : opened.play after = state := by
      simp only [state, split, play_append, play_cons, opened]
    rw [reached] at found
    refine ⟨_, task, rfl, found, attempts.weaken fun kept => ⟨trivial, kept⟩, fun idle queues => ?_⟩
    obtain ⟨same, there, queued⟩ := Balanced.queued balanced _ queues
    obtain rfl := Option.some.inj (found.symm.trans there)
    simp [queued] at idle
  · intro id queues lost inLine more
    have wired : state.Wired := opening.play moves
    obtain ⟨next, found, finished, fewer⟩ := over_of_lost lost
      ((punctual_start _).play moves) balanced queues inLine
    obtain ⟨bound, outside⟩ := slotsOf_play_le_of_over (wired.apply (.turn (.task id)))
      (balanced_apply balanced (.turn (.task id))) found finished more
    exact ⟨Nat.le_trans bound fewer, outside⟩

/-- The waiter that was granted the slot and canceled at once has got nothing. -/
theorem lostHandover_adds_up :
    (((State.start (.new 1)).play lostHandover).apply (.turn (.task 1))).slotsOf 1 ≤ 0 ∧
      1 ∉ (((State.start (.new 1)).play lostHandover).apply (.turn (.task 1))).limiter.line := by
  have lost : ((State.start (.new 1)).play lostHandover).IsLost 1 := ⟨_, rfl, .inr ⟨rfl, by decide⟩⟩
  exact (slots_add_up 1 lostHandover).2.2.2.2 1 (by decide) lost (by decide) []

end State

end OrderDesk.Schedule
