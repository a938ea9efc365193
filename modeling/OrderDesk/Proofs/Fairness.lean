import OrderDesk.Proofs.Closures
import OrderDesk.Proofs.Places
import OrderDesk.Proofs.ScopeTimers

/-! Slots go to those who wait for them, in the order in which they began to wait. As long as
somebody waits, nobody who came later gets a slot, and whoever leaves the line has been granted a
slot, or has no use for one any more. A slot that was granted to somebody who has no use for it
passes on at once, so that at the end of every instant either nobody waits or every slot is
held. -/

namespace OrderDesk.Schedule.State

variable {state : State} {ahead behind : List TaskId} {id other : TaskId} {total : Nat}

/-- Nothing will come of it that the task `id` waits: it has been told to drop everything, or its
scope has ended. -/
def IsLost (state : State) (id : TaskId) : Prop :=
  ∃ task, state.tasks[id]? = some task ∧
    (task.life = .doomed ∨ task.life = .live ∧ (state.cause? task.scope).isSome = true)

theorem shape_of_isQueued {task : Task} (queued : task.isQueued = true) :
    (task.life = .live ∨ task.life = .doomed) ∧ task.waits = true ∧
      ∃ rest, task.script = .acquire :: rest := by
  unfold Task.isQueued at queued
  split at queued
  · rename_i rest live script
    exact ⟨.inl live, queued, rest, script⟩
  · rename_i rest doomed script
    exact ⟨.inr doomed, queued, rest, script⟩
  · cases queued

theorem respects_of_waiting (tended : state.Tended none) (balanced : state.IsBalanced total)
    (waiting : state.limiter.waiting = ahead ++ id :: behind) :
    state.limiter.Respects ahead id state.limiter := by
  have distinct := (List.nodup_append.mp (Balanced.distinct balanced)).2.1
  rw [waiting] at distinct
  refine .waits (by simp [waiting]) ahead behind waiting ?_ (List.Sublist.refl ahead)
    (tended.tight (by simp [waiting])) fun _ member => .inl member
  exact (List.nodup_cons.mp (List.nodup_append.mp distinct).2.1).1

theorem isAttentive_of_isQueued {task : Task} (queued : task.isQueued = true)
    (live : task.life = .live) : task.isAttentive = true := by
  obtain ⟨_, waits, rest, script⟩ := shape_of_isQueued queued
  simp [Task.isAttentive, live, script, waits, Action.asks]

theorem limiter_own_turn (balanced : state.IsBalanced total) (punctual : state.Punctual)
    (attended : state.Attended fun other _ => other = id) (waits : id ∈ state.limiter.waiting) :
    state.IsLost id ∨ (state.apply (.turn (.task id))).limiter = state.limiter ∧
      (state.apply (.turn (.task id))).tasks = state.tasks := by
  have distinct := List.nodup_append.mp (Balanced.distinct balanced)
  have ungranted : id ∉ state.limiter.granted :=
    fun granted => distinct.2.2 id granted id waits rfl
  obtain ⟨task, found, queued⟩ := Balanced.queued balanced id (List.mem_append_right _ waits)
  obtain ⟨live | doomed, waiting, rest, script⟩ := shape_of_isQueued queued
  · have told := attended.done?_eq punctual found rfl (isAttentive_of_isQueued queued live)
    cases cause : state.cause? task.scope with
    | some cause => exact .inl ⟨task, found, .inr ⟨live, by simp [cause]⟩⟩
    | none =>
        right
        simp only [State.apply]
        split
        · have opened : State.done? { state with ready := state.ready.erase (.task id) } id
              task.scope = none := told.trans cause
          simp [run, runTask, found, live, waiting, script, resume, opened, ungranted]
        · exact ⟨rfl, rfl⟩
  · exact .inl ⟨task, found, .inl doomed⟩

/-- The waiter `id` leaves the line in the move after `first`, and nobody but those who were before
it in line has got a slot by then. Either it is granted a slot itself, and first, or it is lost. -/
structure Departs (before : State) (ahead : List TaskId) (id : TaskId) (first : List Move)
    (move : Move) : Prop where
  waits : id ∈ (before.play first).limiter.waiting
  others : ∀ other, other ∉ before.limiter.granted → other ∉ ahead → other ≠ id →
    other ∉ (before.play first).limiter.granted ∧
      (before.play first).slotsOf other ≤ before.slotsOf other
  leaves : (∃ early late, ((before.play first).apply move).limiter.granted = early ++ id :: late ∧
      ∀ other ∈ early, other ∈ before.limiter.granted ∨ other ∈ ahead) ∨
    (before.play first).IsLost id

/-- The waiter `id` stays in line, now behind those in `fewer`, and a slot was granted or came to
none but those before it. -/
structure Stays (before : State) (ahead : List TaskId) (id : TaskId) (move : Move)
    (fewer behind : List TaskId) : Prop where
  waiting : (before.apply move).limiter.waiting = fewer ++ id :: behind
  shorter : fewer.Sublist ahead
  granted : ∀ other ∈ (before.apply move).limiter.granted,
    other ∈ before.limiter.granted ∨ other ∈ ahead
  slots : ∀ other, other ∉ before.limiter.granted → other ∉ ahead →
    (before.apply move).slotsOf other ≤ before.slotsOf other

theorem lt_length_of_waiting (balanced : state.IsBalanced total) (inLine : id ∈ state.limiter.line) :
    id < state.tasks.length := by
  obtain ⟨task, found, _⟩ := Balanced.queued balanced id inLine
  exact (List.getElem?_eq_some_iff.mp found).1

structure Orderly (state : State) (total : Nat) (id : TaskId) : Prop where
  wired : state.Wired
  punctual : state.Punctual
  balanced : state.IsBalanced total
  tended : state.Tended none
  attended : state.Attended fun other _ => other = id

theorem Orderly.apply (orderly : state.Orderly total id) (present : id < state.tasks.length)
    (move : Move) : (state.apply move).Orderly total id := by
  refine ⟨orderly.wired.apply move, orderly.punctual.apply move, balanced_apply orderly.balanced move,
    orderly.tended.apply orderly.balanced move,
    orderly.attended.apply orderly.wired orderly.punctual fun _ _ _ last => ?_⟩
  exact absurd last.symm (Nat.ne_of_lt present)

theorem Orderly.play (orderly : state.Orderly total id) (present : id < state.tasks.length)
    (moves : List Move) : (state.play moves).Orderly total id := by
  induction moves generalizing state with
  | nil => exact orderly
  | cons move moves ih =>
      exact ih (orderly.apply present move) (Nat.lt_of_lt_of_le present (length_tasks_le state move))

theorem departs_or_stays (orderly : state.Orderly total id)
    (waiting : state.limiter.waiting = ahead ++ id :: behind) (move : Move) :
    state.Departs ahead id [] move ∨ ∃ fewer behind, state.Stays ahead id move fewer behind := by
  have respects := respects_of_waiting orderly.tended orderly.balanced waiting
  have here : id ∈ state.limiter.waiting := by simp [waiting]
  have start (leaves : (∃ early late, (state.apply move).limiter.granted = early ++ id :: late ∧
      ∀ other ∈ early, other ∈ state.limiter.granted ∨ other ∈ ahead) ∨ state.IsLost id) :
      state.Departs ahead id [] move :=
    ⟨here, fun _ ungranted _ _ => ⟨ungranted, Nat.le_refl _⟩, leaves⟩
  by_cases own : move = .turn (.task id)
  · subst own
    rcases limiter_own_turn orderly.balanced orderly.punctual orderly.attended here with
      lost | ⟨limiter, tasks⟩
    · exact .inl (start (.inr lost))
    · refine .inr ⟨ahead, behind, by rw [limiter, waiting], List.Sublist.refl _, ?_, ?_⟩
      · rw [limiter]
        exact fun other granted => .inl granted
      · exact fun other _ _ => Nat.le_of_eq (slotsOf_congr tasks other)
  · have yields := yields_apply respects own
    cases yields.respects with
    | waits still fewer behind line once shorter full granted =>
        exact .inr ⟨fewer, behind, line, shorter, granted,
          fun other => yields.slots (by simp [line]) other⟩
    | granted early late order gone preferred =>
        exact .inl (start (.inl ⟨early, late, order, preferred⟩))

theorem Departs.cons {first : List Move} {next move : Move} {shorter : List TaskId}
    (stays : state.Stays ahead id move shorter behind)
    (departs : (state.apply move).Departs shorter id first next) :
    state.Departs ahead id (move :: first) next := by
  have earlier {other : TaskId}
      (member : other ∈ (state.apply move).limiter.granted ∨ other ∈ shorter) :
      other ∈ state.limiter.granted ∨ other ∈ ahead :=
    member.elim (stays.granted other) fun known => .inr (stays.shorter.subset known)
  refine ⟨departs.waits, fun other ungranted after apart => ?_, departs.leaves.imp_left ?_⟩
  · obtain ⟨never, bound⟩ := departs.others other
      (fun member => (earlier (.inl member)).elim ungranted after)
      (fun member => after (stays.shorter.subset member)) apart
    exact ⟨never, Nat.le_trans bound (stays.slots other ungranted after)⟩
  · rintro ⟨early, late, order, preferred⟩
    exact ⟨early, late, order, fun other member => earlier (preferred other member)⟩

/-- As long as somebody waits, nobody gets a slot who was not before it in line. -/
theorem exists_departure (orderly : state.Orderly total id)
    (waiting : state.limiter.waiting = ahead ++ id :: behind) (moves : List Move)
    {late : TaskId} (ungranted : late ∉ state.limiter.granted) (after : late ∉ ahead)
    (served : late ∈ (state.play moves).limiter.granted ∨
      state.slotsOf late < (state.play moves).slotsOf late) :
    ∃ first move rest, moves = first ++ move :: rest ∧ state.Departs ahead id first move := by
  induction moves generalizing state ahead behind with
  | nil =>
      rcases served with granted | more
      · exact absurd granted ungranted
      · exact absurd more (Nat.lt_irrefl _)
  | cons move moves ih =>
      have present : id < state.tasks.length :=
        lt_length_of_waiting orderly.balanced (by simp [Limiter.line, waiting])
      rcases departs_or_stays orderly waiting move with departs | ⟨fewer, behind, stays⟩
      · exact ⟨[], move, moves, rfl, departs⟩
      · obtain ⟨first, next, rest, split, departs⟩ := ih
          (orderly.apply present move) stays.waiting
          (fun member => (stays.granted late member).elim ungranted after)
          (fun member => after (stays.shorter.subset member))
          (served.imp_right fun more =>
            Nat.lt_of_le_of_lt (stays.slots late ungranted after) more)
        exact ⟨move :: first, next, rest, by rw [split]; rfl, .cons stays departs⟩

theorem granted_giveSlots (state : State) (count : Nat) {task : TaskId}
    (granted : task ∈ state.limiter.granted) :
    task ∈ (state.giveSlots count).limiter.granted := by
  induction count generalizing state with
  | zero => exact granted
  | succ count ih =>
      refine ih state.giveSlot ?_
      rw [giveSlot, limiter_withLimiter]
      unfold Limiter.give
      split
      · exact granted
      · exact List.mem_append_left _ granted

theorem exists_leave_of_lost (lost : state.IsLost id) (punctual : state.Punctual)
    (balanced : state.IsBalanced total)
    (queues : id ∈ state.limiter.line) (inLine : .task id ∈ state.ready) :
    ∃ (left : State) (count : Nat), left.limiter = (state.limiter.leave id).1 ∧
      (state.apply (.turn (.task id))).limiter = (left.giveSlots count).limiter := by
  obtain ⟨task, found, reason⟩ := lost
  obtain ⟨same, there, queued⟩ := Balanced.queued balanced id queues
  obtain rfl := Option.some.inj (found.symm.trans there)
  let popped : State := { state with ready := state.ready.erase (.task id) }
  let left := (popped.unlisten id).withLimiter ((popped.unlisten id).limiter.leave id)
  have limiter : left.limiter = (state.limiter.leave id).1 := limiter_withLimiter _ _
  -- With a duty the slots go back, and without one they stay where they are.
  have given (ended : Task) : (left.giveBack ended).limiter =
      (State.giveSlots { left with running := left.running - ended.guards } ended.slots).limiter := rfl
  simp only [State.apply, inLine, if_true, run, runTask, found]
  rcases reason with doomed | ⟨live, canceled⟩
  · simp only [doomed, drop]
    split
    · exact ⟨left, 0, limiter, rfl⟩
    · exact ⟨{ left with running := left.running - task.guards }, task.slots, limiter, given task⟩
  · obtain ⟨_, waits, rest, script⟩ := shape_of_isQueued queued
    obtain ⟨cause, ended⟩ := Option.isSome_iff_exists.mp (punctual.done?_isSome id canceled)
    have opened : popped.done? id task.scope = some cause := ended
    simp only [popped] at opened
    simp only [live, waits, script, resume, opened, stopWith, finish]
    split
    · exact ⟨left, 0, limiter, rfl⟩
    · refine ⟨{ left with running := left.running - task.guards }, task.slots, limiter, ?_⟩
      simp only [report, limiter_wake]
      exact given task

theorem not_mem_line_of_lost (lost : state.IsLost id) (punctual : state.Punctual)
    (balanced : state.IsBalanced total)
    (queues : id ∈ state.limiter.line) (inLine : .task id ∈ state.ready) :
    id ∉ (state.apply (.turn (.task id))).limiter.line := by
  obtain ⟨left, count, limiter, same⟩ := exists_leave_of_lost lost punctual balanced queues inLine
  rw [same, line_giveSlots, limiter, Limiter.line_leave]
  exact (Balanced.distinct balanced).not_mem_erase

theorem granted_of_lost (lost : state.IsLost id) (punctual : state.Punctual)
    (balanced : state.IsBalanced total)
    (granted : id ∈ state.limiter.granted) (inLine : .task id ∈ state.ready) {first : TaskId}
    {rest : List TaskId} (waiting : state.limiter.waiting = first :: rest) :
    first ∈ (state.apply (.turn (.task id))).limiter.granted := by
  obtain ⟨left, count, limiter, same⟩ := exists_leave_of_lost lost punctual balanced
    (List.mem_append_left _ granted) inLine
  rw [same]
  refine granted_giveSlots left count ?_
  rw [limiter]
  simp [Limiter.leave, granted, Limiter.claim, Limiter.give, waiting]

theorem granted_foreign (balanced : state.IsBalanced total) (granted : id ∈ state.limiter.granted)
    {move : Move} (foreign : move ≠ .turn (.task id)) :
    id ∈ (state.apply move).limiter.granted := by
  have distinct := (List.nodup_append.mp (Balanced.distinct balanced)).2.2
  have unwaiting : id ∉ state.limiter.waiting := fun waits => distinct id granted id waits rfl
  obtain ⟨early, late, order⟩ := List.append_of_mem granted
  have respects : state.limiter.Respects early id state.limiter :=
    .granted early late order unwaiting fun _ member => .inr member
  cases (yields_apply respects foreign).respects with
  | waits still _ _ _ _ _ _ _ => exact absurd still unwaiting
  | granted early late order _ _ => exact order ▸ List.mem_append_right early List.mem_cons_self

theorem IsLost.apply (lost : state.IsLost id) (wired : state.Wired) (punctual : state.Punctual)
    (balanced : state.IsBalanced total)
    (queues : id ∈ state.limiter.line) {move : Move}
    (still : id ∈ (state.apply move).limiter.line) : (state.apply move).IsLost id := by
  obtain ⟨task, found, reason⟩ := lost
  obtain ⟨next, becomes⟩ := exists_becomes wired move found
  obtain ⟨same, there, queued⟩ := Balanced.queued (balanced_apply balanced move) id still
  obtain rfl := Option.some.inj (becomes.found.symm.trans there)
  refine ⟨next, becomes.found, ?_⟩
  cases becomes.evolves with
  | same life script waits =>
      rw [life, becomes.scope]
      refine reason.imp_right fun ended => ⟨ended.1, ?_⟩
      exact (apply_extends state move).cause_isSome (clock_le_apply state move) ended.2
  | worked turn inLine live worked =>
      subst turn
      exact absurd still (not_mem_line_of_lost ⟨task, found, reason⟩ punctual balanced queues inLine)
  | doomed live life script waits given => exact .inl life
  | dropped doomed life script =>
      have living := (shape_of_isQueued queued).1
      simp [life] at living

/-- As long as the waiter `id` stays in line behind others who are all lost, a slot that was granted
to somebody who is lost is passed on among those. -/
theorem exists_lost_of_stays (orderly : state.Orderly total id)
    (waiting : state.limiter.waiting = ahead ++ id :: behind)
    (dead : ∀ other ∈ ahead, state.IsLost other) (granted : other ∈ state.limiter.granted)
    (lost : state.IsLost other) {move : Move} {fewer late : List TaskId}
    (stays : state.Stays ahead id move fewer late) :
    ∃ heir ∈ (state.apply move).limiter.granted, (state.apply move).IsLost heir := by
  by_cases own : move = .turn (.task other)
  · subst own
    have inLine := orderly.tended.told other granted (by simp)
    cases ahead with
    | nil =>
        have moved := granted_of_lost lost orderly.punctual orderly.balanced granted inLine waiting
        have kept : id ∈ (state.apply (.turn (.task other))).limiter.waiting := by
          simp [stays.waiting]
        have distinct := Balanced.distinct (balanced_apply orderly.balanced (.turn (.task other)))
        exact absurd rfl ((List.nodup_append.mp distinct).2.2 id moved id kept)
    | cons first rest =>
        have moved := granted_of_lost lost orderly.punctual orderly.balanced granted inLine waiting
        refine ⟨first, moved, (dead first List.mem_cons_self).apply orderly.wired orderly.punctual
          orderly.balanced ?_ (List.mem_append_left _ moved)⟩
        exact List.mem_append_right _ (by simp [waiting])
  · have kept := granted_foreign orderly.balanced granted own
    exact ⟨other, kept, lost.apply orderly.wired orderly.punctual orderly.balanced
      (List.mem_append_left _ granted) (List.mem_append_left _ kept)⟩

/-- A slot that was granted to somebody who is lost passes on, past all others who are lost, before
nobody is in line to run any more and so before time passes, in whatever order turns are taken. -/
theorem exists_departure_of_lost (orderly : state.Orderly total id)
    (waiting : state.limiter.waiting = ahead ++ id :: behind)
    (dead : ∀ other ∈ ahead, state.IsLost other) (granted : other ∈ state.limiter.granted)
    (lost : state.IsLost other) (moves : List Move) (quiet : (state.play moves).ready = []) :
    ∃ first move rest, moves = first ++ move :: rest ∧ state.Departs ahead id first move ∧
      ((state.play first).apply move).clock = state.clock := by
  induction moves generalizing state ahead behind other with
  | nil =>
      have inLine := orderly.tended.told other granted (by simp)
      simp only [play_nil] at quiet
      simp [quiet] at inLine
  | cons move moves ih =>
      have inLine := orderly.tended.told other granted (by simp)
      have clock : (state.apply move).clock = state.clock := by
        rcases clock_apply state move with same | ⟨_, _, possible, _⟩
        · exact same
        · simp only [canJump, Bool.and_eq_true, List.isEmpty_iff] at possible
          simp [possible.1] at inLine
      rcases departs_or_stays orderly waiting move with departs | ⟨fewer, late, stays⟩
      · exact ⟨[], move, moves, rfl, departs, clock⟩
      · obtain ⟨heir, inherits, lost⟩ :=
          exists_lost_of_stays orderly waiting dead granted lost stays
        have still : ∀ other ∈ fewer, (state.apply move).IsLost other := fun other member =>
          (dead other (stays.shorter.subset member)).apply orderly.wired orderly.punctual orderly.balanced
            (List.mem_append_right _ (by simp [waiting, stays.shorter.subset member]))
            (List.mem_append_right _ (by simp [stays.waiting, member]))
        have present : id < state.tasks.length :=
          lt_length_of_waiting orderly.balanced (by simp [Limiter.line, waiting])
        obtain ⟨first, next, rest, split, departs, same⟩ := ih
          (orderly.apply present move) stays.waiting still inherits lost quiet
        exact ⟨move :: first, next, rest, by rw [split]; rfl, .cons stays departs, same.trans clock⟩

/-! ## Nobody waits in vain -/

theorem Attended.play_posts (attended : state.Attended fun _ _ => True) (wired : state.Wired)
    (punctual : state.Punctual) {moves : List Move} (posts : state.Posts moves) :
    (state.play moves).Attended fun _ _ => True := by
  induction moves generalizing state with
  | nil => exact attended
  | cons move moves ih =>
      obtain ⟨admits, posts⟩ := posts
      refine ih (attended.apply wired punctual fun scope script same _ => ?_) (wired.apply move)
        (punctual.apply move) posts
      subst same
      exact admits

/-- Nobody waits in vain: no slot is on its way, whoever waits for one is in line and may be served
yet, and if anybody waits, then every slot is held. -/
structure AtRest (state : State) : Prop where
  arrived : state.limiter.granted = []
  inLine : ∀ (id : TaskId) (task : Task), state.tasks[id]? = some task →
    (task.isQueued = true ↔ id ∈ state.limiter.waiting)
  hopeful : ∀ id ∈ state.limiter.waiting, ∃ task, state.tasks[id]? = some task ∧
    task.life = .live ∧ state.cause? task.scope = none
  full : state.limiter.waiting ≠ [] →
    state.limiter.free = 0 ∧ sumOf Task.slots state.tasks = state.limiter.capacity

theorem atRest_of_quiet (tended : state.Tended none) (balanced : state.IsBalanced total)
    (attended : state.Attended fun _ _ => True) (quiet : state.ready = []) : state.AtRest := by
  obtain ⟨arrived, tight, each⟩ := tended.quiet balanced quiet
  refine ⟨arrived, fun id task found => (each id task found).1, fun id waits => ?_, fun waits => ?_⟩
  · obtain ⟨task, found, queued⟩ := Balanced.queued balanced id (List.mem_append_right _ waits)
    have live : task.life = .live :=
      (shape_of_isQueued queued).1.resolve_right (each id task found).2
    refine ⟨task, found, live, ?_⟩
    cases cause : state.cause? task.scope with
    | none => rfl
    | some cause =>
        have attends := attended.watches id task found trivial (isAttentive_of_isQueued queued live)
        have inLine := attends.alert (by simp [cause])
        simp [quiet] at inLine
  · have counted := Balanced.slots balanced
    have capacity := Balanced.capacity balanced
    have free := tight waits
    simp only [Limiter.unheld, free, arrived, List.length_nil] at counted
    exact ⟨free, by omega⟩

/-- No timer is overdue, so what is left to do in an instant is nothing but turns. -/
theorem clock_of_tick (punctual : state.Punctual) {limit : Nat} {after : State}
    (bound : limit ≤ state.clock) (ticked : state.tick (some limit) = some after) :
    ∃ worker, after = state.apply (.turn worker) := by
  rcases move_of_tick ticked with ⟨worker, _, moved⟩ | ⟨time, possible, _⟩
  · exact ⟨worker, moved.symm⟩
  · simp only [canJump, Bool.and_eq_true, List.isEmpty_iff] at possible
    unfold tick at ticked
    simp only [possible.1] at ticked
    split at ticked
    · cases ticked
    · rename_i due next
      obtain ⟨timer, member, same⟩ := exists_timer_of_nextDue state due next
      have later := punctual timer member
      split at ticked
      · rename_i within
        simp only [Option.all_some, decide_eq_true_eq] at within
        omega
      · cases ticked

theorem exists_turns_of_settleNow (punctual : state.Punctual) :
    state.settleNow.ready = [] ∧ state.settleNow.clock = state.clock ∧
      ∃ workers : List Worker, state.play (workers.map Move.turn) = state.settleNow := by
  constructor
  · have still := tick_settle (some state.clock) state
    unfold tick at still
    split at still
    · cases still
    · assumption
  · have kept := settle_keeps (fun now => now.clock = state.clock ∧ now.Punctual ∧
        ∃ workers : List Worker, state.play (workers.map Move.turn) = now)
      (some state.clock) state ⟨rfl, punctual, [], rfl⟩ ?_
    · exact ⟨kept.1, kept.2.2⟩
    · rintro before after ⟨clock, punctual, workers, played⟩ ticked
      obtain ⟨worker, rfl⟩ := clock_of_tick punctual (Nat.le_of_eq clock.symm) ticked
      have same : (before.apply (.turn worker)).clock = before.clock := by
        rcases clock_apply before (.turn worker) with same | ⟨_, jump, _⟩
        · exact same
        · cases jump
      refine ⟨same.trans clock, punctual.apply _, workers ++ [worker], ?_⟩
      rw [List.map_append, play_append, played]
      rfl

/-- In every run of one limiter, whatever the tasks do and in whatever order they take their turns:
nobody waits while a slot is free, and at the end of every instant nobody waits in vain. Of those
who wait nobody is passed over. A slot that was granted to somebody who is lost passes on within the
instant to the first in line who is not, and whoever gets a slot later than a waiter comes before it
does so only once it has been granted one first or is lost. -/
theorem slots_pass_in_line (requested : Int) (moves : List Move)
    (posts : (State.start (.new requested)).Posts moves) :
    let state := (State.start (.new requested)).play moves
    (state.limiter.waiting ≠ [] → state.limiter.free = 0) ∧
    (state.ready = [] → state.AtRest) ∧
    (state.settleNow.clock = state.clock ∧ state.settleNow.ready = [] ∧ state.settleNow.AtRest) ∧
    ∀ ahead id behind, state.limiter.waiting = ahead ++ id :: behind →
      (∀ gone ∈ state.limiter.granted, state.IsLost gone → (∀ other ∈ ahead, state.IsLost other) →
        ∀ more, (state.play more).ready = [] →
          ∃ first move rest, more = first ++ move :: rest ∧ state.Departs ahead id first move ∧
            ((state.play first).apply move).clock = state.clock) ∧
      ∀ late, late ∉ state.limiter.granted → late ∉ ahead →
        ∀ more, (late ∈ (state.play more).limiter.granted ∨
            state.slotsOf late < (state.play more).slotsOf late) →
          ∃ first move rest, more = first ++ move :: rest ∧ state.Departs ahead id first move := by
  intro state
  have opening : (State.start (.new requested)).Wired := (History.sound_start (.new requested)).wired
  have early := punctual_start (.new requested)
  have wired : state.Wired := opening.play moves
  have punctual : state.Punctual := early.play moves
  have even : (State.start (.new requested)).IsBalanced (Limiter.clamp requested) :=
    balanced_start rfl rfl
  have balanced : state.IsBalanced (Limiter.clamp requested) := even.play moves
  have tended : state.Tended none := (tended_start rfl).play even moves
  have attended : state.Attended fun _ _ => True :=
    (attended_start _ _).play_posts opening early posts
  obtain ⟨quiet, clock, workers, turns⟩ := exists_turns_of_settleNow punctual
  refine ⟨tended.tight, atRest_of_quiet tended balanced attended, ⟨clock, quiet, ?_⟩, ?_⟩
  · have even : state.settleNow.IsBalanced (Limiter.clamp requested) := turns ▸ balanced.play _
    have posted : state.Posts (workers.map Move.turn) := by
      refine posts_of_no_spawn fun move member scope script => ?_
      obtain ⟨worker, _, rfl⟩ := List.mem_map.mp member
      simp
    exact atRest_of_quiet (turns ▸ tended.play balanced _) even
      (turns ▸ attended.play_posts wired punctual posted) quiet
  · intro ahead id behind waiting
    have orderly : state.Orderly (Limiter.clamp requested) id :=
      ⟨wired, punctual, balanced, tended, attended.mono fun _ _ _ _ => trivial⟩
    constructor
    · intro gone granted lost dead more
      exact exists_departure_of_lost orderly waiting dead granted lost more
    · intro late ungranted after more served
      exact exists_departure orderly waiting more ungranted after served

/-- The one slot comes back and is granted to the first of two who wait, whose scope is canceled in
the same instant. -/
def lostHandover : List Move :=
  [.addBackground, .derive 0 none, .spawn 0 [.acquire], .turn (.task 0), .spawn 1 [.acquire],
    .turn (.task 1), .spawn 0 [.acquire], .turn (.task 2), .release 0, .cancel 1]

theorem lostHandover_passes_on :
    ∃ first move rest, [Move.turn (.task 1), .turn (.task 2)] = first ++ move :: rest ∧
      ((State.start (.new 1)).play lostHandover).Departs [] 2 first move ∧
      ((((State.start (.new 1)).play lostHandover).play first).apply move).clock = 0 := by
  have posts : (State.start (.new 1)).Posts lostHandover := by decide
  have granted : 1 ∈ ((State.start (.new 1)).play lostHandover).limiter.granted := by decide
  have lost : ((State.start (.new 1)).play lostHandover).IsLost 1 := ⟨_, rfl, .inr ⟨rfl, by decide⟩⟩
  exact ((slots_pass_in_line 1 lostHandover posts).2.2.2 [] 2 [] (by decide)).1 1 granted lost
    (by simp) _ (by decide)

end OrderDesk.Schedule.State
