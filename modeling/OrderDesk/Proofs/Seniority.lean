import OrderDesk.Proofs.BusyTasks
import OrderDesk.Proofs.Fairness

/-! Who comes first is served first. If an order is only taken on when nobody is in line to run, then
whoever waits for a courier comes after all who have one, and after all who were in line before. -/

namespace OrderDesk

open Schedule

namespace Schedule

namespace State

variable {state before after : State} {id other : TaskId} {task found next : Task} {leg : Leg}
  {courier : Bool} {duty : Duty} {orders : List Order} {total : Nat}

def IsOutranked (state : State) (id : TaskId) : Prop :=
  ∃ ahead behind, state.limiter.waiting = ahead ++ id :: behind ∧
    ∀ other, other ∈ ahead ∨ other ∈ state.limiter.granted ∨ 0 < state.slotsOf other → other < id

/-- Of those who wait for a courier, or have one, all who wait are younger. -/
def IsRanked (state : State) : Prop :=
  ∀ id ∈ state.limiter.waiting, state.IsOutranked id

/-- Of those who want a courier only the youngest task may not have begun. -/
def IsSettled (state : State) : Prop :=
  ∀ (id : TaskId) (task : Task) (duty : Duty), state.tasks[id]? = some task → task.stage = .fresh →
    task.duty = some duty → duty.isCourier = true → id + 1 = state.tasks.length

structure IsLined (state : State) (total : Nat) : Prop where
  tended : state.Tended none
  balanced : state.IsBalanced total
  punctual : state.Punctual
  attended : state.Attended fun _ _ => True

theorem IsRanked.congr (ranked : before.IsRanked) (limiter : after.limiter = before.limiter)
    (slots : ∀ id, after.slotsOf id ≤ before.slotsOf id) : after.IsRanked := by
  intro id waits
  rw [limiter] at waits
  obtain ⟨ahead, behind, line, older⟩ := ranked id waits
  refine ⟨ahead, behind, limiter ▸ line, fun other first => older other ?_⟩
  rw [limiter] at first
  exact first.imp_right fun having => having.imp_right fun some_slot =>
    Nat.lt_of_lt_of_le some_slot (slots other)

theorem length_tasks_turn (state : State) (worker : Worker) :
    (state.apply (.turn worker)).tasks.length = state.tasks.length := by
  have wiring : state.SameWiring (state.apply (.turn worker)) :=
    sameWiring_of_kind (by simp) (by simp) state
  have size := congrArg List.length wiring.duties
  simpa only [duties, List.length_map] using size

theorem exists_task_before_turn {worker : Worker}
    (found : (state.apply (.turn worker)).tasks[id]? = some next) :
    ∃ task, state.tasks[id]? = some task := by
  have bound := (List.getElem?_eq_some_iff.mp found).1
  rw [length_tasks_turn] at bound
  exact ⟨_, List.getElem?_eq_getElem bound⟩

theorem lt_length_of_slots (some_slot : 0 < state.slotsOf id) : id < state.tasks.length := by
  by_contra outside
  simp [slotsOf, Nat.le_of_not_lt outside] at some_slot

theorem stage_of_isQueued (suits : leg.Suits courier state.clock task) (queued : task.isQueued = true) :
    task.stage = .queued ∧ courier = true ∨ task.stage = .doomed := by
  obtain ⟨_, waiting, rest, script⟩ := shape_of_isQueued queued
  cases suits with
  | fresh live idle _ => simp [waiting] at idle
  | queued live waits wake _ needs => exact .inl ⟨by simp [Task.stage, live, waits, wake], needs⟩
  | busy due live waits wake same _ => simp [same, Leg.core] at script
  | doomed life => exact .inr (by simp [Task.stage, life])
  | finished finish stage own =>
      obtain ⟨live | doomed, _⟩ := shape_of_isQueued queued
      · cases wake : task.wake <;> simp [Task.stage, live, waiting, wake] at stage
      · simp [Task.stage, doomed] at stage

theorem isQueued_of_stage (suits : leg.Suits courier state.clock task) (stage : task.stage = .queued) :
    task.isQueued = true := by
  cases suits with
  | fresh live idle _ => simp [Task.stage, live, idle] at stage
  | queued live waits wake script needs => simp [Task.isQueued, live, script, waits]
  | busy due live waits wake _ _ => simp [Task.stage, live, waits, wake] at stage
  | doomed life => simp [Task.stage, life] at stage
  | finished finish same own => simp [same] at stage

theorem slots_of_isQueued {needs : Nat} (shaped : task.Shaped needs) (small : needs ≤ 1)
    (queued : task.isQueued = true) : task.slots = 0 := by
  obtain ⟨lives, waits, rest, script⟩ := shape_of_isQueued queued
  have going : task.isOver = false := by
    rcases lives with live | doomed
    · simp [Task.isOver, live]
    · simp [Task.isOver, doomed]
  have held := (shaped.busy going waits).2.2
  rw [script, acquires_acquire] at held
  omega

theorem needs_le_one (duty : Duty) : duty.needs ≤ 1 := by
  unfold Duty.needs
  split <;> omega

theorem life_of_stage_doomed (stage : task.stage = .doomed) : task.life = .doomed := by
  unfold Task.stage at stage
  split at stage
  · split at stage
    · cases wake : task.wake <;> simp [wake] at stage
    · cases stage
  · assumption
  · cases stage
  · cases stage

/-- Whoever has been granted a courier sets to work in its turn, unless it is too late. -/
theorem not_mem_waiting_of_granted (lined : state.IsLined total)
    (works : state.WorksFor orders id task duty leg) (present : state.tasks[id]? = some task)
    (granted : id ∈ state.limiter.granted) (inLine : .task id ∈ state.ready) :
    id ∉ (state.apply (.turn (.task id))).limiter.line := by
  obtain ⟨_, balanced, punctual, attended⟩ := lined
  have queues : id ∈ state.limiter.line := List.mem_append_left _ granted
  obtain ⟨again, there, queued⟩ := Balanced.queued balanced id queues
  obtain rfl : task = again := Option.some.inj (present.symm.trans there)
  rcases stage_of_isQueued works.suits queued with ⟨stage, needs⟩ | doomed
  · have live : task.life = .live := by
      cases life : task.life <;> simp [Task.stage, life] at stage
      rfl
    have told := attended.done?_eq punctual present trivial (isAttentive_of_isQueued queued live)
    cases cause : state.cause? task.scope with
    | some reason =>
        exact not_mem_line_of_lost ⟨task, present, .inr ⟨live, by simp [cause]⟩⟩ punctual balanced
          queues inLine
    | none =>
        intro still
        obtain ⟨next, found, queued'⟩ := Balanced.queued (balanced_apply balanced _) id still
        obtain ⟨_, waits, rest, script⟩ := shape_of_isQueued queued
        have suits := works.suits
        cases suits with
        | queued _ _ _ script' _ =>
            let popped : State := { state with ready := state.ready.erase (.task id) }
            let claimed : State := { popped.unlisten id with limiter := state.limiter.claim id }
            let awake : Task := { task with waits := false, wake := none, slots := task.slots + 1 }
            have turned : state.apply (.turn (.task id)) = claimed.perform id awake leg.core := by
              have opened : popped.done? id task.scope = none := told.trans cause
              have present' : popped.tasks[id]? = some task := present
              have granted' : popped.limiter.granted.contains id = true :=
                List.contains_iff_mem.mpr granted
              simp only [apply, if_pos inLine, run]
              rw [runTask_of_waiting present' live waits script']
              simp only [resume, opened, granted', if_true]
              rfl
            have bound : id < claimed.tasks.length := (List.getElem?_eq_some_iff.mp present).1
            have works' : awake.duty = some duty := works.works
            obtain ⟨suits', unqueued, undoomed⟩ :=
              stage_perform_core works.positive bound works' live (turned ▸ found)
            rcases stage_of_isQueued suits' queued' with ⟨queued'', _⟩ | doomed
            · exact unqueued queued''
            · exact undoomed doomed
        | fresh _ idle _ => simp [waits] at idle
        | busy _ _ _ _ same _ => simp [same, Leg.core] at script
        | doomed life => simp [live] at life
        | finished finish same _ => simp [stage] at same
  · have lost : state.IsLost id := ⟨task, present, .inl (life_of_stage_doomed doomed)⟩
    exact not_mem_line_of_lost lost punctual balanced queues inLine

theorem fresh_of_joining (works : state.WorksFor orders id task duty leg)
    (present : state.tasks[id]? = some task) (inLine : .task id ∈ state.ready)
    (unqueued : task.isQueued = false)
    (found : (state.apply (.turn (.task id))).tasks[id]? = some next) (queued : next.isQueued = true) :
    task.stage = .fresh ∧ duty.isCourier = true := by
  obtain ⟨again, goes⟩ :=
    exists_goes_turn works.positive present works.works works.suits works.alarms (.task id) False.elim
  obtain rfl : next = again := Option.some.inj (found.symm.trans goes.found)
  have clock := clock_turn state (.task id)
  have reached := stage_of_isQueued (clock.symm ▸ goes.suits) queued
  have leads := goes.leads
  cases stage : task.stage with
  | fresh =>
      rw [stage] at leads
      rcases reached with ⟨_, needs⟩ | doomed
      · exact ⟨rfl, needs⟩
      · simp [doomed, Leg.Leads] at leads
  | queued =>
      rw [isQueued_of_stage works.suits stage] at unqueued
      cases unqueued
  | busy due =>
      rw [stage] at leads
      rcases reached with ⟨again, _⟩ | again <;> simp [again, Leg.Leads] at leads
  | doomed =>
      obtain ⟨gone, tasks, _, _, dropped, _⟩ :=
        exists_tasks_drop { state with ready := state.ready.erase (.task id) } id task
      have bound := (List.getElem?_eq_some_iff.mp present).1
      have turned : (state.apply (.turn (.task id))).tasks = state.tasks.set id gone := by
        simp only [apply, if_pos inLine, run, runTask, present, life_of_stage_doomed stage]
        exact tasks
      rw [turned, List.getElem?_set_self bound] at found
      obtain rfl := Option.some.inj found
      obtain ⟨live | doomed, _⟩ := shape_of_isQueued queued
      · simp [dropped] at live
      · simp [dropped] at doomed
  | finished finish =>
      rw [stage] at leads
      rcases reached with ⟨again, _⟩ | again <;> simp [again, Leg.Leads] at leads

theorem waiting_before_turn (lined : state.IsLined total)
    (manned : state.Manned orders) (worker : Worker)
    (waits : id ∈ (state.apply (.turn worker)).limiter.waiting) :
    id ∈ state.limiter.waiting ∨
      ∃ task duty, state.tasks[id]? = some task ∧ task.stage = .fresh ∧ task.duty = some duty ∧
        duty.isCourier = true := by
  have ⟨tended, balanced, _, _⟩ := lined
  have queues : id ∈ (state.apply (.turn worker)).limiter.line := List.mem_append_right _ waits
  have balanced' := balanced_apply balanced (.turn worker)
  have distinct := (List.nodup_append.mp (Balanced.distinct balanced')).2.2
  obtain ⟨next, found, queued⟩ := Balanced.queued balanced' id queues
  obtain ⟨task, present⟩ := exists_task_before_turn found
  obtain ⟨duty, leg, works⟩ := manned.working id task present
  -- Only in its own turn does a task get in line, and then it has not begun.
  by_cases own : worker = .task id ∧ .task id ∈ state.ready
  · obtain ⟨rfl, inLine⟩ := own
    by_cases already : id ∈ state.limiter.line
    · rcases List.mem_append.mp already with granted | waiting
      · exact absurd queues (not_mem_waiting_of_granted lined works present granted inLine)
      · exact .inl waiting
    · have unqueued : task.isQueued = false := by
        by_contra still
        exact already (tended.lined id task present (by simpa using still) (by simp))
      obtain ⟨stage, needs⟩ := fresh_of_joining works present inLine unqueued found queued
      exact .inr ⟨task, duty, present, stage, works.works, needs⟩
  · have still (mine : worker = .task id) : state.apply (.turn worker) = state := by
      have outside : worker ∉ state.ready := fun inLine => own ⟨mine, mine ▸ inLine⟩
      simp only [apply, if_neg outside]
    have kept : (state.apply (.turn worker)).tasks[id]? = some task := by
      by_cases mine : worker = .task id
      · rw [still mine]
        exact present
      · exact tasks_turn_of_foreign mine present
    obtain rfl : next = task := Option.some.inj (found.symm.trans kept)
    rcases List.mem_append.mp (tended.lined id next present queued (by simp)) with granted | waiting
    · have granted' : id ∈ (state.apply (.turn worker)).limiter.granted := by
        by_cases mine : worker = .task id
        · rw [still mine]
          exact granted
        · exact granted_foreign balanced granted (by simpa using mine)
      exact absurd rfl (distinct id granted' id waits)
    · exact .inl waiting

/-- Whoever stays in line is passed by nobody. -/
theorem isOutranked_of_waiting (ranked : state.IsRanked) (lined : state.IsLined total)
    (worker : Worker) (already : id ∈ state.limiter.waiting)
    (waits : id ∈ (state.apply (.turn worker)).limiter.waiting) :
    (state.apply (.turn worker)).IsOutranked id := by
  obtain ⟨tended, balanced, punctual, attended⟩ := lined
  obtain ⟨ahead, behind, line, older⟩ := ranked id already
  by_cases own : worker = .task id
  · subst own
    by_cases inLine : .task id ∈ state.ready
    · have own : state.Attended fun other _ => other = id := attended.mono fun _ _ _ _ => trivial
      rcases limiter_own_turn balanced punctual own already with lost | ⟨limiter, tasks⟩
      · exact absurd (List.mem_append_right _ waits) (not_mem_line_of_lost lost punctual balanced
          (List.mem_append_right _ already) inLine)
      · exact ranked.congr limiter (fun other => Nat.le_of_eq (slotsOf_congr tasks other)) id waits
    · simp only [apply, if_neg inLine]
      exact ranked id already
  · have yields := yields_apply (respects_of_waiting tended balanced line)
      (show Move.turn worker ≠ .turn (.task id) by simpa using own)
    cases yields.respects with
    | granted _ _ _ gone _ => exact absurd waits gone
    | waits _ fewer late line' _ shorter _ granted =>
        refine ⟨fewer, late, line', fun other first => ?_⟩
        rcases first with before | granted' | some_slot
        · exact older other (.inl (shorter.subset before))
        · exact older other ((granted other granted').elim (fun old => .inr (.inl old)) .inl)
        · by_cases known : other ∈ state.limiter.granted ∨ other ∈ ahead
          · exact older other (known.elim (fun old => .inr (.inl old)) .inl)
          · have bound := yields.slots waits other (fun old => known (.inl old))
              fun before => known (.inr before)
            exact older other (.inr (.inr (Nat.lt_of_lt_of_le some_slot bound)))

theorem slotsOf_of_waiting (balanced : state.IsBalanced total) (staffed : state.Staffed)
    (waits : id ∈ state.limiter.waiting) : state.slotsOf id = 0 := by
  obtain ⟨task, found, queued⟩ := Balanced.queued balanced id (List.mem_append_right _ waits)
  obtain ⟨duty, _, shaped⟩ := staffed task (List.mem_of_getElem? found)
  rw [slotsOf_of_found found, slots_of_isQueued shaped (needs_le_one duty) queued]

theorem isOutranked_of_last (balanced : state.IsBalanced total) (staffed : state.Staffed)
    (last : id + 1 = state.tasks.length) (waits : id ∈ state.limiter.waiting) :
    state.IsOutranked id := by
  have distinct := List.nodup_append.mp (Balanced.distinct balanced)
  obtain ⟨ahead, behind, line⟩ := List.append_of_mem waits
  have youngest {other : TaskId} (known : other < state.tasks.length) (apart : other ≠ id) :
      other < id :=
    Nat.lt_of_le_of_ne (Nat.le_of_lt_succ (last.symm ▸ known : other < id + 1)) apart
  refine ⟨ahead, behind, line, fun other first => ?_⟩
  rcases first with before | granted | some_slot
  · have there : other ∈ state.limiter.waiting := by
      rw [line]
      exact List.mem_append_left _ before
    have once := distinct.2.1
    rw [line] at once
    refine youngest (lt_length_of_waiting balanced (List.mem_append_right _ there)) ?_
    rintro rfl
    exact (List.nodup_append.mp once).2.2 other before other List.mem_cons_self rfl
  · refine youngest (lt_length_of_waiting balanced (List.mem_append_left _ granted)) ?_
    rintro rfl
    exact distinct.2.2 other granted other waits rfl
  · refine youngest (lt_length_of_slots some_slot) ?_
    rintro rfl
    rw [slotsOf_of_waiting balanced staffed waits] at some_slot
    exact Nat.lt_irrefl 0 some_slot

theorem IsRanked.turn (ranked : state.IsRanked) (settled : state.IsSettled)
    (lined : state.IsLined total) (staffed : state.Staffed) (manned : state.Manned orders)
    (worker : Worker) : (state.apply (.turn worker)).IsRanked := by
  intro id waits
  rcases waiting_before_turn lined manned worker waits with
    already | ⟨task, duty, present, stage, works, needs⟩
  · exact isOutranked_of_waiting ranked lined worker already waits
  · have last := settled id task duty present stage works needs
    rw [← length_tasks_turn state worker] at last
    refine isOutranked_of_last (balanced_apply lined.balanced (.turn worker)) ?_ last waits
    exact staffed_apply staffed (show IsOrderly (.turn worker) from trivial)

theorem IsSettled.turn (settled : state.IsSettled) (manned : state.Manned orders) (worker : Worker) :
    (state.apply (.turn worker)).IsSettled := by
  intro id next duty found stage works needs
  obtain ⟨task, present⟩ := exists_task_before_turn found
  obtain ⟨own, leg, worksFor⟩ := manned.working id task present
  obtain ⟨again, goes⟩ := exists_goes_turn worksFor.positive present worksFor.works worksFor.suits
    worksFor.alarms worker False.elim
  obtain rfl : next = again := Option.some.inj (found.symm.trans goes.found)
  have leads := goes.leads
  rw [length_tasks_turn]
  refine settled id task duty present ?_ (goes.works.symm.trans works) needs
  rw [stage] at leads
  cases before : task.stage <;> simp [before, Leg.Leads] at leads ⊢

end State

end Schedule

end OrderDesk
