import OrderDesk.Proofs.Rounds

/-! Two desks that are given the same orders at the same times, one with more couriers than the other.
Their tasks are paired off: the tasks that each desk has opened since it was idle stand in the same
order. A round at both desks leaves a pair with the same leg of the same order, started at the same
time. -/

namespace OrderDesk

open Schedule

def Schedule.Stage.Reaches : Stage → Stage → Prop
  | .finished _, _ => True
  | .busy due, .busy late => due ≤ late
  | .busy _, .queued => True
  | .queued, .queued => True
  | .fresh, .fresh => True
  | _, _ => False

theorem Schedule.Stage.Reaches.finished {stage : Stage} {finish : Finish}
    (reaches : stage.Reaches (.finished finish)) : ∃ finish, stage = .finished finish := by
  cases stage with
  | finished finish => exact ⟨finish, rfl⟩
  | fresh | queued | busy | doomed => simp [Stage.Reaches] at reaches

theorem Schedule.Stage.Reaches.busy {stage : Stage} {late : Nat}
    (reaches : stage.Reaches (.busy late)) :
    (∃ finish, stage = .finished finish) ∨ ∃ due, due ≤ late ∧ stage = .busy due := by
  cases stage with
  | finished finish => exact .inl ⟨finish, rfl⟩
  | busy due => exact .inr ⟨due, reaches, rfl⟩
  | fresh | queued | doomed => simp [Stage.Reaches] at reaches

namespace Desk

/-! ## Two desks -/

inductive Event.Matches (base base' : Nat) : Event → Event → Prop
  | handle (order : Order) : Matches base base' (.handle order) (.handle order)
  | drop (number : Nat) : Matches base base' (.drop (base + number)) (.drop (base' + number))
  | jump (time : Nat) : Matches base base' (.jump time) (.jump time)

/-- An order that counts from when the desk was idle has a task that has not ended well. -/
def IsSpoilt (state : State) (base number : Nat) : Prop :=
  ∃ seat finish, seat / 3 = number ∧ state.stageOf (3 * base + seat) = .finished finish ∧
    finish ≠ .served

/-- The desk with `many` couriers is ahead of the one with `few`, after the same has happened. -/
structure Outpaces (few many : Settings) (base base' : Nat) (events events' : List Event) : Prop where
  scarce : Poised few base events
  ample : Poised many base' events'
  clock : (stateAfter many events').clock = (stateAfter few events).clock
  known : base ≤ (taken events).length
  known' : base' ≤ (taken events').length
  orders : (taken events').drop base' = (taken events).drop base
  started : ∀ (number : Nat) (call call' : Call),
    (stateAfter few events).calls[base + number]? = some call →
    (stateAfter many events').calls[base' + number]? = some call' → call'.started = call.started
  /-- All is over that was there when the desk was idle. -/
  rested : ∀ (id : TaskId) (task : Task), id < 3 * base' →
    (stateAfter many events').tasks[id]? = some task → task.isOver = true
  ahead : ∀ seat, ((stateAfter many events').stageOf (3 * base' + seat)).Reaches
    ((stateAfter few events).stageOf (3 * base + seat))
  sooner : ∀ (seat : Nat) (task task' : Task) (time time' : Nat) (ending ending' : Ending),
    (stateAfter few events).tasks[3 * base + seat]? = some task →
    (stateAfter many events').tasks[3 * base' + seat]? = some task' →
    task.life = .ended time ending → task'.life = .ended time' ending' → time' ≤ time
  /-- An order that nobody refuses is only spoilt at the ample desk if it is at the scarce one. -/
  fair : ∀ (number : Nat) (order : Order), (taken events)[base + number]? = some order →
    (∀ leg ∈ order.legs, leg.finish = .served) → IsSpoilt (stateAfter many events') base' number →
    IsSpoilt (stateAfter few events) base number

structure Lap where
  settings : Settings
  base : Nat
  events : List Event
  event : Event
  workers : List Worker

namespace Lap

abbrev before (lap : Lap) : State := stateAfter lap.settings lap.events

abbrev after (lap : Lap) : State := stateAfter lap.settings (round lap.events lap.event lap.workers)

def orders (lap : Lap) : List Order := taken (lap.events ++ [lap.event])

abbrev Passes (lap : Lap) (seat : Nat) (next : Task) (leg : Leg) (call : Call) : Prop :=
  Desk.Passes lap.settings lap.events lap.event lap.workers (3 * lap.base + seat) next leg call

end Lap

structure SideBySide (few many : Lap) : Prop where
  outpaces : Outpaces few.settings many.settings few.base many.base few.events many.events
  same : few.event.Matches few.base many.base many.event
  clock : many.after.clock = few.after.clock
  quiet : few.after.ready = []
  quiet' : many.after.ready = []
  timeout : many.settings.requestTimeout = few.settings.requestTimeout
  fewer : Limiter.clamp few.settings.couriers ≤ Limiter.clamp many.settings.couriers

structure Pair (few many : Lap) (seat : Nat) (next next' : Task) (leg : Leg) (call call' : Call) :
    Prop where
  found : few.after.tasks[3 * few.base + seat]? = some next
  found' : many.after.tasks[3 * many.base + seat]? = some next'
  known : few.after.calls[few.base + seat / 3]? = some call
  known' : many.after.calls[many.base + seat / 3]? = some call'
  passes : few.Passes seat next leg call
  passes' : many.Passes seat next' leg call'
  started : call'.started = call.started

theorem Event.Matches.isOutside {base base' : Nat} {event event' : Event}
    (same : event.Matches base base' event') : event.IsOutside ∧ event'.IsOutside := by
  cases same <;> exact ⟨trivial, trivial⟩

theorem Event.Matches.taken {base base' : Nat} {event event' : Event}
    (same : event.Matches base base' event') : event'.taken? = event.taken? := by
  cases same <;> rfl

theorem Event.Matches.drop_iff {base base' number : Nat} {event event' : Event}
    (same : event.Matches base base' event') :
    event = .drop (base + number) ↔ event' = .drop (base' + number) := by
  cases same with
  | handle order => simp
  | drop other => simp
  | jump time => simp

theorem seat_div (base seat : Nat) : (3 * base + seat) / 3 = base + seat / 3 := by omega

theorem seat_mod (base seat : Nat) : (3 * base + seat) % 3 = seat % 3 := by omega

theorem exists_seat {settings : Settings} {events : List Event} {base number : Nat} {id : TaskId}
    {found : Task} (part : IsPart (stateAfter settings events) (base + number) id found) :
    ∃ seat : Nat, id = 3 * base + seat ∧ seat / 3 = number := by
  have own : id / 3 = base + number := call_of_isPart part
  have arithmetic (id : Nat) (own : id / 3 = base + number) :
      id = 3 * base + (id - 3 * base) ∧ (id - 3 * base) / 3 = number := by omega
  exact ⟨id - 3 * base, arithmetic id own⟩

namespace Lap

theorem length_tasks (lap : Lap) : lap.after.tasks.length = 3 * lap.orders.length := by
  rw [Desk.length_tasks, taken_round]
  rfl

/-- All tasks of a call are over if it had come to its end, or had been given up, before the round. -/
theorem over_of_done {lap : Lap} (quiet : lap.before.ready = []) {seat : Nat} {old : Call}
    (there : lap.before.calls[lap.base + seat / 3]? = some old)
    (done : old.aborted = true ∨ old.ended.isSome = true) :
    ∃ finish, lap.before.stageOf (3 * lap.base + seat) = .finished finish := by
  obtain ⟨order, charge⟩ := exists_charge lap.settings lap.events there
  have bound := (List.getElem?_eq_some_iff.mp there).1
  rw [length_calls] at bound
  have small : 3 * lap.base + seat < lap.before.tasks.length := by
    rw [Desk.length_tasks]
    omega
  have present := List.getElem?_eq_getElem small
  obtain ⟨finish, finished⟩ := charge.over_of_done quiet done (isPart_of_found present (seat_div _ _))
  exact ⟨finish, (State.stageOf_of_found present).trans finished⟩

end Lap

namespace Outpaces

variable {few many : Settings} {base base' number : Nat} {events events' : List Event} {call : Call}

theorem since_eq (outpaces : Outpaces few many base base' events events') :
    (taken events).length + base' = (taken events').length + base := by
  have same := congrArg List.length outpaces.orders
  have known := outpaces.known
  have known' := outpaces.known'
  rw [List.length_drop, List.length_drop] at same
  omega

theorem exists_call (outpaces : Outpaces few many base base' events events')
    (there : (stateAfter few events).calls[base + number]? = some call) :
    ∃ call', (stateAfter many events').calls[base' + number]? = some call' := by
  have since := outpaces.since_eq
  have bound := (List.getElem?_eq_some_iff.mp there).1
  rw [length_calls] at bound
  have bound' : base' + number < (stateAfter many events').calls.length := by
    rw [length_calls]
    omega
  exact ⟨_, List.getElem?_eq_getElem bound'⟩

theorem exists_call' (outpaces : Outpaces few many base base' events events')
    (there : (stateAfter many events').calls[base' + number]? = some call) :
    ∃ call', (stateAfter few events).calls[base + number]? = some call' := by
  have since := outpaces.since_eq
  have bound := (List.getElem?_eq_some_iff.mp there).1
  rw [length_calls] at bound
  have bound' : base + number < (stateAfter few events).calls.length := by
    rw [length_calls]
    omega
  exact ⟨_, List.getElem?_eq_getElem bound'⟩

end Outpaces

namespace SideBySide

variable {few many : Lap} (both : SideBySide few many)

include both

theorem orders_eq : many.orders.drop many.base = few.orders.drop few.base ∧
    few.base ≤ few.orders.length ∧ many.base ≤ many.orders.length := by
  have split (lap : Lap) : lap.orders = taken lap.events ++ taken [lap.event] := taken_append _ _
  have known := both.outpaces.known
  have known' := both.outpaces.known'
  have same : taken [many.event] = taken [few.event] := by
    simp only [taken, List.filterMap_cons, List.filterMap_nil, both.same.taken]
  rw [split, split, List.drop_append_of_le_length known', List.drop_append_of_le_length known,
    both.outpaces.orders, same, List.length_append, List.length_append]
  exact ⟨rfl, Nat.le_add_right_of_le known, Nat.le_add_right_of_le known'⟩

theorem started {number : Nat} {call call' : Call}
    (known : few.after.calls[few.base + number]? = some call)
    (known' : many.after.calls[many.base + number]? = some call') :
    call'.started = call.started := by
  have since := both.outpaces.since_eq
  rcases exists_call_before known with ⟨old, there, continues, _⟩ | ⟨last, _, now⟩
  · rcases exists_call_before known' with ⟨old', there', continues', _⟩ | ⟨last', _, _⟩
    · rw [continues.started, continues'.started]
      exact both.outpaces.started number old old' there there'
    · have bound := (List.getElem?_eq_some_iff.mp there).1
      have size : many.base + number = (taken many.events).length := last'.trans (length_calls _ _)
      rw [length_calls] at bound
      omega
  · rcases exists_call_before known' with ⟨old', there', _, _⟩ | ⟨_, _, now'⟩
    · have bound := (List.getElem?_eq_some_iff.mp there').1
      have size : few.base + number = (taken few.events).length := last.trans (length_calls _ _)
      rw [length_calls] at bound
      omega
    · rw [now, now']
      exact both.outpaces.clock

theorem size_eq : (many.after.tasks.drop (3 * many.base)).length =
    (few.after.tasks.drop (3 * few.base)).length := by
  obtain ⟨orders, known, known'⟩ := both.orders_eq
  have same := congrArg List.length orders
  rw [List.length_drop, List.length_drop] at same
  rw [List.length_drop, List.length_drop, Lap.length_tasks, Lap.length_tasks]
  omega

theorem exists_pair {seat : Nat} (bound : seat < 3 * (few.orders.length - few.base)) :
    ∃ next next' leg call call', Pair few many seat next next' leg call call' := by
  obtain ⟨orders, known, known'⟩ := both.orders_eq
  obtain ⟨outside, outside'⟩ := both.same.isOutside
  have same := congrArg List.length orders
  rw [List.length_drop, List.length_drop] at same
  have exists_task (lap : Lap) (small : 3 * lap.base + seat < 3 * lap.orders.length) :
      ∃ next, lap.after.tasks[3 * lap.base + seat]? = some next := by
    rw [← lap.length_tasks] at small
    exact ⟨_, List.getElem?_eq_getElem small⟩
  obtain ⟨next, found⟩ := exists_task few (by omega)
  obtain ⟨next', found'⟩ := exists_task many (by omega)
  obtain ⟨call, listed⟩ := exists_call found
  obtain ⟨call', listed'⟩ := exists_call found'
  obtain ⟨leg, passes⟩ := exists_passes outside both.quiet found listed
  obtain ⟨leg', passes'⟩ := exists_passes outside' both.quiet' found' listed'
  rw [seat_div] at listed listed'
  obtain ⟨order, placed, legs⟩ := passes.order
  obtain ⟨order', placed', legs'⟩ := passes'.order
  have pick := congrArg (fun list : List Order => list[seat / 3]?) orders
  simp only [List.getElem?_drop] at pick
  rw [seat_div] at placed placed'
  rw [seat_mod] at legs legs'
  obtain rfl : order' = order := Option.some.inj (placed'.symm.trans (pick.trans placed))
  obtain rfl : leg' = leg := Option.some.inj (legs'.symm.trans legs)
  exact ⟨next, next', leg', call, call', found, found', listed, listed', passes, passes',
    both.started listed listed'⟩

theorem rested_after {id : TaskId} {next : Task} (old : id < 3 * many.base)
    (found : many.after.tasks[id]? = some next) : next.isOver = true := by
  have small : id < many.before.tasks.length := by
    rw [length_tasks]
    exact Nat.lt_of_lt_of_le old (Nat.mul_le_mul_left 3 both.outpaces.known')
  exact isOver_round small (fun task => both.outpaces.rested id task old) found

theorem sumOf_rested : sumOf Task.slots (many.after.tasks.take (3 * many.base)) = 0 :=
  sumOf_slots_rested fun _ _ => both.rested_after

theorem exists_pair_of_part {number : Nat} {id : TaskId} {found : Task}
    (part : IsPart few.after (few.base + number) id found) :
    ∃ seat next' leg call call', seat / 3 = number ∧
      Pair few many seat found next' leg call call' := by
  obtain ⟨seat, rfl, own⟩ := exists_seat part
  have bound : 3 * few.base + seat < few.after.tasks.length :=
    (List.getElem?_eq_some_iff.mp part.present).1
  rw [few.length_tasks] at bound
  obtain ⟨next, next', leg, call, call', pair⟩ :=
    both.exists_pair (show seat < 3 * (few.orders.length - few.base) by omega)
  obtain rfl := Option.some.inj (part.present.symm.trans pair.found)
  exact ⟨seat, next', leg, call, call', own, pair⟩

theorem exists_pair_of_found' {seat : Nat} {found : Task}
    (present : many.after.tasks[3 * many.base + seat]? = some found) :
    ∃ next leg call call', Pair few many seat next found leg call call' := by
  have bound := (List.getElem?_eq_some_iff.mp present).1
  rw [many.length_tasks] at bound
  have same := congrArg List.length both.orders_eq.1
  rw [List.length_drop, List.length_drop] at same
  obtain ⟨next, next', leg, call, call', pair⟩ :=
    both.exists_pair (show seat < 3 * (few.orders.length - few.base) by omega)
  obtain rfl := Option.some.inj (present.symm.trans pair.found')
  exact ⟨next, leg, call, call', pair⟩

end SideBySide

namespace Pair

variable {few many : Lap} {seat : Nat} {next next' : Task} {leg : Leg} {call call' : Call}

theorem part (pair : Pair few many seat next next' leg call call') :
    IsPart few.after (few.base + seat / 3) (3 * few.base + seat) next := by
  have part := pair.passes.part
  rwa [seat_div] at part

theorem part' (pair : Pair few many seat next next' leg call call') :
    IsPart many.after (many.base + seat / 3) (3 * many.base + seat) next' := by
  have part := pair.passes'.part
  rwa [seat_div] at part

end Pair

end Desk

end OrderDesk
