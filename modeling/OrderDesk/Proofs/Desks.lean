import OrderDesk.Desk
import OrderDesk.Proofs.OrderBodies
import OrderDesk.Proofs.Reports

/-! The desk at work. Orders come in and are given up at any time, and turns are taken in any
order. Whatever happens, the count of running steps is the number of bodies that are inside, every
courier is free, granted or busy, and nothing is left over once all orders are done. -/

namespace OrderDesk

open Schedule

namespace Schedule

/-- The body of a task has begun and has neither returned nor been dropped. -/
def History.isInside (history : History) (task : Task) : Bool :=
  !task.isOver && task.duty.any fun duty => !(history.beginnings duty).isEmpty

/-- A courier that has begun and has no slot left to take. -/
def Task.isBusyCourier (task : Task) : Bool :=
  !task.isOver && task.waits && task.duty.any Duty.isCourier && acquires task.script == 0

def Task.isWaitingCourier (task : Task) : Bool :=
  task.isQueued && task.duty.any Duty.isCourier

theorem sumOf_eq_countP {α : Type} (weight : α → Nat) (counted : α → Bool) (items : List α)
    (weights : ∀ item ∈ items, weight item = if counted item then 1 else 0) :
    sumOf weight items = items.countP counted := by
  induction items with
  | nil => rfl
  | cons item items ih =>
      have first := weights item (by simp)
      have later := ih fun other member => weights other (by simp [member])
      rw [sumOf, first, later, List.countP_cons]
      omega

structure Crewed (history : History) : Prop where
  sound : history.Sound
  staffed : history.state.Staffed
  tracked : ∀ (id : CallId) (call : Call), history.state.calls[id]? = some call →
    ∃ order, Tracks history id (orderPipeline.scripts order) call

theorem scripts_ne_nil (order : Order) : orderPipeline.scripts order ≠ [] := by
  simp [Pipeline.scripts, orderPipeline]

namespace Crewed

variable {history : History} {total : Nat}

theorem add (crewed : Crewed history) {move : Move} (orderly : State.IsOrderly move) :
    Crewed (history.add move) := by
  refine ⟨crewed.sound.add move, State.staffed_apply crewed.staffed orderly, ?_⟩
  intro id call found
  have bound := (List.getElem?_eq_some_iff.mp found).1
  by_cases known : id < history.state.calls.length
  · obtain ⟨order, tracks⟩ := crewed.tracked id _ (List.getElem?_eq_getElem known)
    obtain ⟨after, tracks', _⟩ := tracks.add crewed.sound move
    obtain rfl := Option.some.inj (found.symm.trans tracks'.found)
    exact ⟨order, tracks'⟩
  · rcases State.sameWiring_apply history.state move with
      same | ⟨context, steps, rfl⟩ | ⟨scope, script, rfl⟩
    · have counted := congrArg List.length same.rosters
      simp only [State.rosters, List.length_map] at counted
      exact absurd (counted ▸ bound) known
    · obtain ⟨order, rfl⟩ := orderly
      have tracks := crewed.sound.tracks_openCall context (scripts_ne_nil order)
      have length := congrArg List.length
        (State.opened_openCall history.state context (orderPipeline.scripts order)).calls
      rw [List.length_append, List.length_singleton] at length
      have below : id < (history.state.openCall context (orderPipeline.scripts order)).1.calls.length :=
        bound
      rw [length] at below
      have last : id = history.state.calls.length :=
        Nat.le_antisymm (Nat.le_of_lt_succ below) (Nat.le_of_not_lt known)
      subst last
      obtain rfl := Option.some.inj (found.symm.trans tracks.found)
      exact ⟨order, tracks⟩
    · cases orderly

theorem play (crewed : Crewed history) {moves : List Move}
    (orderly : ∀ move ∈ moves, State.IsOrderly move) : Crewed (history.play moves) := by
  induction moves generalizing history with
  | nil => exact crewed
  | cons move moves ih =>
      exact ih (crewed.add (orderly move (by simp)))
        fun other member => orderly other (by simp [member])

theorem exists_working (crewed : Crewed history) {id : TaskId} {task : Task}
    (found : history.state.tasks[id]? = some task) :
    ∃ (call : Call) (duty : Duty) (body : Script), task.duty = some duty ∧
      task.Shaped duty.needs ∧ history.state.calls[duty.call]? = some call ∧
      call.tasks[duty.position]? = some id ∧
      Working history duty.call call body duty.position id task := by
  obtain ⟨duty, works, shaped⟩ := crewed.staffed task (List.mem_of_getElem? found)
  obtain ⟨call, known, placed⟩ :=
    (crewed.sound.wired id duty.call duty.position).mp ⟨task, found, works⟩
  obtain ⟨order, tracks⟩ := crewed.tracked duty.call call known
  obtain ⟨step, again, _, present, working⟩ := tracks.exists_working placed
  obtain rfl := Option.some.inj (found.symm.trans present)
  exact ⟨call, duty, step.2, works, shaped, known, placed, working⟩

/-- A task holds a guard exactly as long as its body is inside. -/
theorem guards_eq (crewed : Crewed history) :
    ∀ task ∈ history.state.tasks, task.guards = if history.isInside task then 1 else 0 := by
  intro task member
  obtain ⟨id, found⟩ := List.getElem?_of_mem member
  obtain ⟨call, duty, body, works, shaped, _, _, working⟩ := crewed.exists_working found
  cases stopped : task.isOver with
  | true => simp [History.isInside, stopped, (shaped.stopped stopped).1]
  | false =>
      cases waits : task.waits with
      | false =>
          have unbegun : history.beginnings duty = [] := by
            cases life : task.life with
            | live => exact (working.fresh (by simp [Task.isFresh, life, waits])).1
            | doomed => simpa [waits] using working.interrupted life
            | ended time ending => simp [Task.isOver, life] at stopped
            | dropped => simp [Task.isOver, life] at stopped
          simp [History.isInside, works, unbegun, (shaped.idle stopped waits).1]
      | true =>
          have begun : history.beginnings duty = [(call.started, body)] := by
            cases life : task.life with
            | live =>
                have stale : task.isFresh = false := by simp [Task.isFresh, life, waits]
                rcases working.begun stale with once | ⟨_, doomed | dropped⟩
                · exact once
                · simp [life] at doomed
                · simp [life] at dropped
            | doomed => simpa [waits] using working.interrupted life
            | ended time ending => simp [Task.isOver, life] at stopped
            | dropped => simp [Task.isOver, life] at stopped
          simp [History.isInside, works, begun, stopped, (shaped.busy stopped waits).1]

/-- A task holds a slot exactly if it is a courier past its place in line. -/
theorem slots_eq (crewed : Crewed history) :
    ∀ task ∈ history.state.tasks, task.slots = if task.isBusyCourier then 1 else 0 := by
  intro task member
  obtain ⟨duty, works, shaped⟩ := crewed.staffed task member
  cases stopped : task.isOver with
  | true => simp [Task.isBusyCourier, stopped, (shaped.stopped stopped).2]
  | false =>
      cases waits : task.waits with
      | false => simp [Task.isBusyCourier, waits, (shaped.idle stopped waits).2.1]
      | true =>
          have slots := (shaped.busy stopped waits).2.2
          cases courier : duty.isCourier with
          | false =>
              simp only [Duty.needs, courier, Bool.false_eq_true, if_false] at slots
              simp only [Task.isBusyCourier, works, Option.any_some, courier, Bool.and_false,
                Bool.false_and, Bool.false_eq_true, if_false]
              omega
          | true =>
              simp only [Duty.needs, courier, if_true] at slots
              simp only [Task.isBusyCourier, works, Option.any_some, courier, stopped, waits,
                Bool.not_false, Bool.true_and, beq_iff_eq]
              split <;> omega

theorem waiting_of_queued (crewed : Crewed history) {id : TaskId} {task : Task}
    (found : history.state.tasks[id]? = some task) (queued : task.isQueued = true) :
    task.isWaitingCourier = true ∧ task.isOver = false := by
  obtain ⟨duty, works, shaped⟩ := crewed.staffed task (List.mem_of_getElem? found)
  have facts : task.isOver = false ∧ task.waits = true ∧
      ∃ rest, task.script = .acquire :: rest := by
    unfold Task.isQueued at queued
    split at queued
    · rename_i rest live script
      exact ⟨by simp [Task.isOver, live], queued, rest, script⟩
    · rename_i rest doomed script
      exact ⟨by simp [Task.isOver, doomed], queued, rest, script⟩
    · cases queued
  obtain ⟨stopped, waits, rest, script⟩ := facts
  have slots := (shaped.busy stopped waits).2.2
  rw [script, acquires_acquire] at slots
  have courier : duty.isCourier = true := by
    by_contra other
    simp only [Duty.needs, other, if_false] at slots
    omega
  exact ⟨by simp [Task.isWaitingCourier, queued, works, courier], stopped⟩

theorem not_mem_line_of_isOver (crewed : Crewed history) (balanced : history.state.IsBalanced total)
    {id : TaskId} {task : Task} (found : history.state.tasks[id]? = some task)
    (stopped : task.isOver = true) : id ∉ history.state.limiter.line := by
  intro member
  obtain ⟨again, there, queued⟩ := Balanced.queued balanced id member
  obtain rfl := Option.some.inj (found.symm.trans there)
  have unfinished := (crewed.waiting_of_queued found queued).2
  rw [stopped] at unfinished
  cases unfinished

theorem isOver_of_ended (crewed : Crewed history) {id : CallId} {call : Call}
    (known : history.state.calls[id]? = some call) (ended : call.ended.isSome = true)
    {task : TaskId} (member : task ∈ call.tasks) :
    ∃ found, history.state.tasks[task]? = some found ∧ found.isOver = true := by
  obtain ⟨order, tracks⟩ := crewed.tracked id call known
  obtain ⟨position, placed⟩ := List.getElem?_of_mem member
  obtain ⟨step, _, named, _⟩ := tracks.exists_working placed
  obtain ⟨same, found, time, ending, placed', present, _, life, _⟩ :=
    tracks.report_of_task (tracks.ended.mp ended) named
  obtain rfl : task = same := Option.some.inj (placed.symm.trans placed')
  exact ⟨found, present, by simp [Task.isOver, life]⟩

theorem isOver_of_quiet (crewed : Crewed history)
    (done : ∀ call ∈ history.state.calls, call.aborted = true ∨ call.ended.isSome = true)
    (quiet : history.state.ready = []) : ∀ task ∈ history.state.tasks, task.isOver = true := by
  intro task member
  obtain ⟨id, found⟩ := List.getElem?_of_mem member
  obtain ⟨call, duty, body, works, _, known, placed, working⟩ := crewed.exists_working found
  rcases done call (List.mem_of_getElem? known) with aborted | ended
  · cases life : task.life with
    | live => exact absurd life (working.given aborted)
    | doomed =>
        have inLine := working.doomed life
        simp [quiet] at inLine
    | ended time ending => simp [Task.isOver, life]
    | dropped => simp [Task.isOver, life]
  · obtain ⟨same, present, stopped⟩ :=
      crewed.isOver_of_ended known ended (List.mem_of_getElem? placed)
    obtain rfl := Option.some.inj (found.symm.trans present)
    exact stopped

end Crewed

end Schedule

namespace Desk

/-! ## Events -/

inductive Event where
  | handle (order : Order)
  | drop (call : CallId)
  | turn (worker : Worker)
  | jump (time : Nat)

def apply (desk : Desk) : Event → Desk
  | .handle order => { desk with state := (desk.handler.accept desk.state order).1 }
  | .drop call => { desk with state := desk.state.abortCall call }
  | .turn worker => { desk with state := desk.state.apply (.turn worker) }
  | .jump time => { desk with state := desk.state.apply (.jump time) }

def run (desk : Desk) (events : List Event) : Desk :=
  events.foldl apply desk

def moves (desk : Desk) : Event → List Move
  | .handle order =>
      if order.id.isEmpty then []
      else
        [.addBackground,
          .derive desk.state.scopes.length (some (desk.state.clock + desk.handler.timeout)),
          .openCall (desk.state.scopes.length + 1) (desk.handler.pipeline.scripts order)]
  | .drop call => [.abortCall call]
  | .turn worker => [.turn worker]
  | .jump time => [.jump time]

def record (desk : Desk) (history : History) : List Event → History
  | [] => history
  | event :: events => (desk.apply event).record (history.play (desk.moves event)) events

theorem state_apply (desk : Desk) (event : Event) :
    (desk.apply event).state = desk.state.play (desk.moves event) := by
  cases event with
  | handle order =>
      simp only [apply, moves, Handler.accept]
      split
      · rfl
      · simp only [State.play_cons, State.play_nil, State.apply, State.addBackground, State.derive,
          Scopes.addBackground, List.length_append, List.length_singleton]
  | drop call => rfl
  | turn worker => rfl
  | jump time => rfl

theorem handler_apply (desk : Desk) (event : Event) : (desk.apply event).handler = desk.handler := by
  cases event <;> rfl

theorem state_record (desk : Desk) (history : History) (events : List Event)
    (same : history.state = desk.state) :
    (desk.record history events).state = (desk.run events).state := by
  induction events generalizing desk history with
  | nil => exact same
  | cons event events ih =>
      refine ih (desk.apply event) (history.play (desk.moves event)) ?_
      rw [History.state_play, same, state_apply]

theorem orderly_moves {desk : Desk} (usual : desk.handler.pipeline = orderPipeline)
    (event : Event) : ∀ move ∈ desk.moves event, State.IsOrderly move := by
  intro move member
  cases event with
  | handle order =>
      simp only [moves] at member
      split at member
      · cases member
      · simp only [List.mem_cons, List.not_mem_nil, or_false] at member
        rcases member with rfl | rfl | rfl
        · trivial
        · trivial
        · exact ⟨order, by rw [usual]⟩
  | drop call =>
      obtain rfl := List.mem_singleton.mp member
      trivial
  | turn worker =>
      obtain rfl := List.mem_singleton.mp member
      trivial
  | jump time =>
      obtain rfl := List.mem_singleton.mp member
      trivial

theorem crewed_record {desk : Desk} {history : History} {total : Nat} (crewed : Crewed history)
    (balanced : history.state.IsBalanced total) (usual : desk.handler.pipeline = orderPipeline)
    (events : List Event) :
    Crewed (desk.record history events) ∧ (desk.record history events).state.IsBalanced total := by
  induction events generalizing desk history with
  | nil => exact ⟨crewed, balanced⟩
  | cons event events ih =>
      refine ih (crewed.play (orderly_moves usual event)) ?_ ?_
      · rw [History.state_play]
        exact balanced.play _
      · rw [handler_apply]
        exact usual

/-- Nothing is lost and nothing is left over. -/
structure Accounted (desk : Desk) (history : History) : Prop where
  /-- The count is that of the bodies that have begun and have neither returned nor been
  dropped. -/
  running : desk.running = (desk.state.tasks.countP history.isInside : Nat)
  /-- Every courier is free, or busy, or granted to somebody who waits for one. -/
  couriers : desk.available + desk.state.tasks.countP Task.isBusyCourier +
    desk.state.limiter.granted.length = desk.capacity
  granted : desk.state.limiter.granted.Nodup ∧ ∀ id ∈ desk.state.limiter.granted,
    ∃ task, desk.state.tasks[id]? = some task ∧ task.isWaitingCourier = true
  /-- What a task holds is what it is seen to do. -/
  holds : ∀ task ∈ desk.state.tasks,
    task.guards = (if history.isInside task then 1 else 0) ∧
    task.slots = (if task.isBusyCourier then 1 else 0)
  bounded : desk.state.tasks.countP Task.isBusyCourier ≤ desk.capacity
  /-- An order that has been answered has no body inside and no courier. -/
  answered : ∀ (orderId : String) (id : CallId) (answer : Answer) (time : Nat),
    (Handler.Progress.processing orderId id).answer? desk.state = some (answer, time) →
      ∃ call, desk.state.calls[id]? = some call ∧ call.tasks.length = 3 ∧
        ∀ task ∈ call.tasks, task ∉ desk.state.limiter.granted ∧
          ∃ found, desk.state.tasks[task]? = some found ∧
            history.isInside found = false ∧ found.isBusyCourier = false
  idle : (∀ call ∈ desk.state.calls, call.aborted = true ∨ call.ended.isSome = true) →
    desk.state.ready = [] → desk.running = 0 ∧ desk.available = desk.capacity

theorem accounted_of_crewed {desk : Desk} {history : History} (crewed : Crewed history)
    (balanced : history.state.IsBalanced desk.capacity) (same : history.state = desk.state) :
    desk.Accounted history := by
  have guards := crewed.guards_eq
  have slots := crewed.slots_eq
  have held := balanced.slots
  rw [sumOf_eq_countP _ _ _ slots, Limiter.unheld] at held
  rw [same] at guards slots held
  constructor
  · rw [running, ← same, balanced.guards, same, sumOf_eq_countP _ _ _ guards]
  · simp only [available]
    omega
  · rw [← same]
    refine ⟨(List.nodup_append.mp balanced.distinct).1, fun id member => ?_⟩
    obtain ⟨task, found, queued⟩ := balanced.queued id (List.mem_append_left _ member)
    exact ⟨task, found, (crewed.waiting_of_queued found queued).1⟩
  · exact fun task member => ⟨guards task member, slots task member⟩
  · omega
  · intro orderId id answer time answered
    rw [← same] at answered ⊢
    simp only [Handler.Progress.answer?, Option.bind_eq_bind, Option.bind_eq_some_iff] at answered
    obtain ⟨call, known, stop, ended, _⟩ := answered
    have ended : call.ended.isSome = true := by simp [ended]
    obtain ⟨order, tracks⟩ := crewed.tracked id call known
    refine ⟨call, known, tracks.size, fun task member => ?_⟩
    obtain ⟨found, present, stopped⟩ := crewed.isOver_of_ended known ended member
    refine ⟨fun granted => ?_, found, present, ?_, ?_⟩
    · exact crewed.not_mem_line_of_isOver balanced present stopped (List.mem_append_left _ granted)
    · simp [History.isInside, stopped]
    · simp [Task.isBusyCourier, stopped]
  · intro done quiet
    rw [← same] at done quiet
    have stopped := crewed.isOver_of_quiet done quiet
    have nobody_inside : desk.state.tasks.countP history.isInside = 0 := by
      refine List.countP_eq_zero.mpr fun task member => ?_
      simp [History.isInside, stopped task (same ▸ member)]
    have nobody_busy : desk.state.tasks.countP Task.isBusyCourier = 0 := by
      refine List.countP_eq_zero.mpr fun task member => ?_
      simp [Task.isBusyCourier, stopped task (same ▸ member)]
    have none_granted : desk.state.limiter.granted = [] := by
      refine List.eq_nil_iff_forall_not_mem.mpr fun id granted => ?_
      rw [← same] at granted
      obtain ⟨task, found, _⟩ := balanced.queued id (List.mem_append_left _ granted)
      exact crewed.not_mem_line_of_isOver balanced found
        (stopped task (List.mem_of_getElem? found)) (List.mem_append_left _ granted)
    constructor
    · rw [running, ← same, balanced.guards, same, sumOf_eq_countP _ _ _ guards, nobody_inside]
      rfl
    · rw [nobody_busy, none_granted, List.length_nil] at held
      simp only [available]
      omega

/-- In every state that a desk can come to, whatever orders come in and are given up and in
whatever order turns are taken, the count is right and every courier is accounted for. -/
theorem accounted (settings : Settings) (events : List Event) :
    let desk := (ofSettings settings).run events
    let history := (ofSettings settings).record (.start (.new settings.couriers)) events
    history.state = desk.state ∧ desk.Accounted history ∧
      desk.capacity = Limiter.clamp settings.couriers ∧ 1 ≤ desk.capacity ∧
      desk.capacity ≤ 128 := by
  intro desk history
  have same : history.state = desk.state := state_record _ _ events rfl
  have first : Crewed (.start (.new settings.couriers)) := by
    refine ⟨History.sound_start _, by simp [State.Staffed, History.start, State.start], ?_⟩
    simp [History.start, State.start]
  have balanced : (History.start (.new settings.couriers)).state.IsBalanced
      (Limiter.clamp settings.couriers) := State.balanced_start rfl rfl
  obtain ⟨crewed, balanced'⟩ : Crewed history ∧
      history.state.IsBalanced (Limiter.clamp settings.couriers) :=
    crewed_record first balanced rfl events
  have capacity : desk.capacity = Limiter.clamp settings.couriers := by
    rw [Desk.capacity, ← same]
    exact balanced'.capacity
  refine ⟨same, accounted_of_crewed crewed (capacity ▸ balanced') same, capacity, ?_⟩
  rw [capacity]
  exact Limiter.clamp_bounds settings.couriers

/-- Two orders want the only courier. The first is given up when it has the courier, and then all three
of its bodies let go. -/
def handover : List Event :=
  [.handle (.new "o-1" 5), .handle (.new "o-2" 5), .turn (.task 0), .turn (.task 1), .turn (.task 2),
    .turn (.task 3), .turn (.task 4), .turn (.task 5), .drop 0, .turn (.task 0), .turn (.task 1),
    .turn (.task 2)]

/-- The courier is on the way to the other order, and only the bodies of that are inside. -/
theorem accounted_handover :
    let settings := { Settings.usual with couriers := 1 }
    let desk := (ofSettings settings).run handover
    let history := (ofSettings settings).record (.start (.new settings.couriers)) handover
    desk.running = 3 ∧ desk.state.tasks.countP history.isInside = 3 ∧ desk.available = 0 ∧
      desk.state.limiter.granted = [5] ∧ desk.state.tasks.countP Task.isBusyCourier = 0 := by
  intro settings desk history
  have inside : desk.running = 3 := by decide +kernel
  have taken : desk.available = 0 := by decide +kernel
  have granted : desk.state.limiter.granted = [5] := by decide +kernel
  have ⟨accounts, one⟩ : desk.Accounted history ∧ desk.capacity = 1 :=
    ⟨(accounted settings handover).2.1, (accounted settings handover).2.2.1⟩
  clear_value desk history
  have running := accounts.running
  have couriers := accounts.couriers
  rw [granted, one, List.length_singleton] at couriers
  exact ⟨inside, by omega, taken, granted, by omega⟩

end Desk

end OrderDesk
