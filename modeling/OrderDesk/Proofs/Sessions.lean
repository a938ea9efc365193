import OrderDesk.Proofs.Chronicles
import OrderDesk.Proofs.Separation

/-! The contexts of an exercise. What can be seen of them is told by the chronicle of the operations
alone: a deadline is the earliest that was set on the way to the scope, and a scope has ended when its
deadline has come, or else when it or one that it descends from was canceled, no matter when. The
tasks that run meanwhile change nothing about it. -/

namespace OrderDesk

open Schedule

namespace Schedule.State

structure IsHarmless (state : State) : Prop where
  solitary : state.calls = []
  holds : ∀ task ∈ state.tasks, .cancel ∉ task.script

variable {state after : State} {limit : Option Nat}

theorem IsHarmless.turn (harmless : state.IsHarmless) (worker : Worker) :
    (state.apply (.turn worker)).IsHarmless ∧
      (state.apply (.turn worker)).scopes = state.scopes := by
  have wiring : state.SameWiring (state.apply (.turn worker)) := by
    rcases sameWiring_apply state (.turn worker) with same | ⟨_, _, other⟩ | ⟨_, _, other⟩
    · exact same
    · cases other
    · cases other
  refine ⟨⟨?_, fun next member => ?_⟩, ?_⟩
  · have calls := wiring.rosters
    rwa [rosters, rosters, harmless.solitary, List.map_nil, List.map_eq_nil_iff] at calls
  · obtain ⟨id, found⟩ := List.getElem?_of_mem member
    have size := congrArg List.length wiring.duties
    simp only [duties, List.length_map] at size
    have bound : id < state.tasks.length := size ▸ (List.getElem?_eq_some_iff.mp found).1
    obtain ⟨next', becomes⟩ := exists_becomes_turn worker (List.getElem?_eq_getElem bound)
    obtain rfl := Option.some.inj (found.symm.trans becomes.found)
    exact fun listed =>
      harmless.holds _ (List.getElem_mem bound) (becomes.evolves.script_subset listed)
  · cases rescopes_turn state worker with
    | same still => exact still
    | background turn _ => cases turn
    | derived _ _ turn _ => simp at turn
    | canceled target may _ =>
        cases worker with
        | task id =>
            obtain ⟨task, found, _, listed⟩ := may
            exact absurd listed (harmless.holds task (List.mem_of_getElem? found))
        | call id =>
            obtain ⟨call, found, _⟩ := may
            simp [harmless.solitary] at found

theorem IsHarmless.tick (harmless : state.IsHarmless) (ticked : state.tick limit = some after) :
    after.IsHarmless ∧ after.scopes = state.scopes := by
  rcases move_of_tick ticked with ⟨worker, _, rfl⟩ | ⟨time, possible, rfl⟩
  · exact harmless.turn worker
  · simp only [apply, possible, if_true, scopes_jump, and_true]
    exact ⟨(calls_wakeAll _ _).trans harmless.solitary, by simpa using harmless.holds⟩

theorem IsHarmless.settle (harmless : state.IsHarmless) (limit : Option Nat) :
    (state.settle limit).IsHarmless ∧ (state.settle limit).scopes = state.scopes :=
  settle_keeps (fun now => now.IsHarmless ∧ now.scopes = state.scopes) limit state ⟨harmless, rfl⟩
    fun _ _ kept ticked =>
      have next := kept.1.tick ticked
      ⟨next.1, next.2.trans kept.2⟩

theorem clock_le_of_tick {limit : Nat} (ticked : state.tick (some limit) = some after) :
    after.clock ≤ max state.clock limit := by
  unfold tick at ticked
  split at ticked
  · rename_i worker rest line
    obtain rfl := Option.some.inj ticked
    have same : (({ state with ready := rest } : State).run worker).clock = state.clock := by
      rcases clock_apply state (.turn worker) with same | ⟨_, jump, _⟩
      · rw [apply, if_pos (by simp [line])] at same
        simpa [line] using same
      · cases jump
    omega
  · split at ticked
    · cases ticked
    · rename_i due next
      split at ticked
      · rename_i within
        simp only [Option.all_some, decide_eq_true_eq] at within
        obtain rfl := Option.some.inj ticked
        rw [clock_jump]
        omega
      · cases ticked

theorem clock_le_of_settle (limit : Nat) (state : State) :
    state.clock ≤ (state.settle (some limit)).clock ∧
      (state.settle (some limit)).clock ≤ max state.clock limit :=
  settle_keeps (fun now => state.clock ≤ now.clock ∧ now.clock ≤ max state.clock limit)
    (some limit) state ⟨Nat.le_refl _, Nat.le_max_left _ _⟩ fun before after kept ticked => by
      have upper := clock_le_of_tick ticked
      have lower : before.clock ≤ after.clock := by
        rcases move_of_tick ticked with ⟨worker, _, rfl⟩ | ⟨time, _, rfl⟩
        · exact clock_le_apply before _
        · exact clock_le_apply before _
      omega

theorem clock_settleNow (state : State) : state.settleNow.clock = state.clock := by
  have bounds := clock_le_of_settle state.clock state
  rw [settleNow]
  omega

theorem clock_advanceTo {time : Nat} (order : state.clock ≤ time) :
    (state.advanceTo time).clock = time := by
  have bounds := clock_le_of_settle time state
  simp only [advanceTo]
  omega

end Schedule.State

namespace Exercise

namespace Session

def play (session : Session) (operations : List Operation) : Session :=
  operations.foldl (fun session operation => (session.step operation).1) session

def answer (session : Session) (operation : Operation) : Answer :=
  (session.perform operation).2

theorem run_append_singleton (session : Session) (operations : List Operation)
    (operation : Operation) : (session.run (operations ++ [operation])).map Snapshot.answer =
      (session.run operations).map Snapshot.answer ++ [(session.play operations).answer operation] := by
  induction operations generalizing session with
  | nil => rfl
  | cons first operations ih =>
      simp only [List.cons_append, run, List.map_cons, ih]
      rfl

end Session

def Birth.Yields (birth : Birth) (scopes : Scopes) (id : ScopeId) (scope : Scope) : Prop :=
  match birth.parent with
  | none => scope.lineage = [id] ∧ scope.deadline = birth.deadline
  | some parent => parent < id ∧ ∃ outer, scopes[parent]? = some outer ∧
      scope.lineage = id :: outer.lineage ∧ scope.deadline = earlier outer.deadline birth.deadline

theorem Birth.Yields.extends {birth : Birth} {before after : Scopes} {id : ScopeId}
    {scope later : Scope} (yields : birth.Yields before id scope) (grows : before.Extends after)
    (lineage : later.lineage = scope.lineage) (deadline : later.deadline = scope.deadline) :
    birth.Yields after id later := by
  obtain ⟨parent, set⟩ := birth
  cases parent with
  | none => exact ⟨lineage.trans yields.1, deadline.trans yields.2⟩
  | some parent =>
      obtain ⟨order, outer, found, above, sooner⟩ := yields
      obtain ⟨outer', found', lineage', deadline', _⟩ := grows parent outer found
      refine ⟨order, outer', found', ?_, ?_⟩
      · rw [lineage, above, lineage']
      · rw [deadline, sooner, deadline']

structure Chronicle.Tells (chronicle : Chronicle) (session : Session) : Prop where
  now : session.state.clock = chronicle.now
  contexts : session.contexts = chronicle.contexts
  size : session.state.scopes.length = chronicle.births.length
  known : ∀ scope ∈ chronicle.contexts, scope < chronicle.births.length
  nonempty : 0 < chronicle.births.length
  harmless : session.state.IsHarmless
  born : ∀ (id : ScopeId) (scope : Scope) (birth : Birth), session.state.scopes[id]? = some scope →
    chronicle.births[id]? = some birth → birth.Yields session.state.scopes id scope
  canceled : ∀ (id : ScopeId) (scope : Scope), session.state.scopes[id]? = some scope →
    (scope.canceled = true ↔ ∃ target ∈ chronicle.canceled, target ∈ scope.lineage)
  targets : ∀ target ∈ chronicle.canceled, target < chronicle.births.length

namespace Chronicle.Tells

variable {chronicle : Chronicle} {session : Session} {id : ScopeId} {scope : Scope}

theorem exists_birth (tells : chronicle.Tells session)
    (found : session.state.scopes[id]? = some scope) :
    ∃ birth, chronicle.births[id]? = some birth ∧ birth.Yields session.state.scopes id scope := by
  have bound := tells.size ▸ (List.getElem?_eq_some_iff.mp found).1
  have there := List.getElem?_eq_getElem bound
  exact ⟨_, there, tells.born id scope _ found there⟩

theorem mem_lineage (tells : chronicle.Tells session)
    (found : session.state.scopes[id]? = some scope) (above : ScopeId) :
    above ∈ scope.lineage ↔ chronicle.Descends id above := by
  induction id using Nat.strong_induction_on generalizing scope with
  | _ id ih =>
      obtain ⟨⟨parent, deadline⟩, there, yields⟩ := tells.exists_birth found
      cases parent with
      | none => rw [descends_of_root there, yields.1, List.mem_singleton]
      | some parent =>
          obtain ⟨order, outer, found', lineage, _⟩ := yields
          rw [descends_of_derived there, lineage, List.mem_cons, ih parent order found']

/-- The deadline of a scope is the earliest that was set on the way to it. -/
theorem isEarliest_deadline (tells : chronicle.Tells session)
    (found : session.state.scopes[id]? = some scope) :
    IsEarliest scope.deadline {time | chronicle.Sets id time} := by
  induction id using Nat.strong_induction_on generalizing scope with
  | _ id ih =>
      obtain ⟨⟨parent, deadline⟩, there, yields⟩ := tells.exists_birth found
      cases parent with
      | none =>
          simp only [sets_of_root there, yields.2]
          exact isEarliest_some deadline
      | some parent =>
          obtain ⟨order, outer, found', _, sooner⟩ := yields
          simp only [sets_of_derived there, sooner]
          exact (ih parent order found').union (isEarliest_some deadline)

theorem descends_le (tells : chronicle.Tells session)
    (found : session.state.scopes[id]? = some scope) {above : ScopeId}
    (descends : chronicle.Descends id above) : above ≤ id := by
  induction id using Nat.strong_induction_on generalizing scope with
  | _ id ih =>
      obtain ⟨⟨parent, deadline⟩, there, yields⟩ := tells.exists_birth found
      cases parent with
      | none => exact Nat.le_of_eq ((descends_of_root there).mp descends)
      | some parent =>
          obtain ⟨order, outer, found', _⟩ := yields
          rcases (descends_of_derived there).mp descends with rfl | further
          · exact Nat.le_refl _
          · exact Nat.le_of_lt (Nat.lt_of_le_of_lt (ih parent order found' further) order)

theorem isCanceled_iff (tells : chronicle.Tells session)
    (found : session.state.scopes[id]? = some scope) :
    scope.canceled = true ↔ chronicle.IsCanceled id := by
  simp only [tells.canceled id scope found, IsCanceled, tells.mem_lineage found]

theorem isPast_iff (tells : chronicle.Tells session)
    (found : session.state.scopes[id]? = some scope) :
    (scope.deadline.any fun deadline => decide (deadline ≤ session.state.clock)) = true ↔
      chronicle.IsPast id := by
  have earliest := tells.isEarliest_deadline found
  rw [tells.now]
  cases due : scope.deadline with
  | none =>
      simp only [due, IsEarliest] at earliest
      simp only [Option.any_none, Bool.false_eq_true, false_iff]
      rintro ⟨time, set, _⟩
      exact (earliest ▸ set : time ∈ (∅ : Set Nat)).elim
  | some due =>
      simp only [due, IsEarliest] at earliest
      simp only [Option.any_some, decide_eq_true_eq]
      exact ⟨fun past => ⟨_, earliest.1, past⟩,
        fun ⟨time, set, past⟩ => Nat.le_trans (earliest.2 set) past⟩

theorem scope_lt (tells : chronicle.Tells session) (context : Nat) :
    chronicle.scope context < session.state.scopes.length := by
  rw [tells.size, scope, List.getD_eq_getElem?_getD]
  cases found : chronicle.contexts[context]? with
  | none => exact tells.nonempty
  | some scope => exact tells.known scope (List.mem_of_getElem? found)

theorem scope_eq (tells : chronicle.Tells session) (context : Nat) :
    session.scope context = chronicle.scope context := by
  rw [Session.scope, scope, tells.contexts]

theorem congr (tells : chronicle.Tells session) {after : Session}
    (clock : after.state.clock = session.state.clock) (contexts : after.contexts = session.contexts)
    (scopes : after.state.scopes = session.state.scopes) (harmless : after.state.IsHarmless) :
    chronicle.Tells after where
  now := clock.trans tells.now
  contexts := contexts.trans tells.contexts
  size := (congrArg List.length scopes).trans tells.size
  known := tells.known
  nonempty := tells.nonempty
  harmless := harmless
  born := scopes ▸ tells.born
  canceled := scopes ▸ tells.canceled
  targets := tells.targets

theorem bear (tells : chronicle.Tells session) {birth : Birth} {made : Scope}
    (yields : birth.Yields session.state.scopes session.state.scopes.length made)
    (canceled : made.canceled = true ↔ ∃ target ∈ chronicle.canceled, target ∈ made.lineage) :
    (chronicle.bear birth).Tells (session.addContext
      ({ session.state with scopes := session.state.scopes ++ [made] },
        session.state.scopes.length)).1 := by
  have grows := Scopes.extends_append session.state.scopes made
  constructor
  · exact tells.now
  · simp only [Session.addContext, Chronicle.bear, tells.contexts, tells.size]
  · simp only [Session.addContext, Chronicle.bear, List.length_append, tells.size,
      List.length_singleton]
  · intro other member
    simp only [Chronicle.bear, List.length_append, List.length_singleton]
    rcases List.mem_append.mp member with old | new
    · exact Nat.lt_succ_of_lt (tells.known other old)
    · rw [List.mem_singleton.mp new]
      exact Nat.lt_succ_self _
  · simp [Chronicle.bear]
  · exact ⟨tells.harmless.solitary, tells.harmless.holds⟩
  · intro id scope other found born
    rcases State.getElem?_concat_cases found with old | ⟨rfl, rfl⟩
    · have bound := tells.size ▸ (List.getElem?_eq_some_iff.mp old).1
      simp only [Chronicle.bear, List.getElem?_append_left bound] at born
      exact (tells.born id scope other old born).extends grows rfl rfl
    · simp only [Chronicle.bear, tells.size, List.getElem?_concat_length] at born
      obtain rfl := Option.some.inj born
      exact yields.extends grows rfl rfl
  · intro id scope found
    rcases State.getElem?_concat_cases found with old | ⟨_, rfl⟩
    · exact tells.canceled id scope old
    · exact canceled
  · intro target member
    simp only [Chronicle.bear, List.length_append, List.length_singleton]
    exact Nat.lt_succ_of_lt (tells.targets target member)

theorem derive (tells : chronicle.Tells session) (context : Nat) (deadline : Option Nat) :
    (chronicle.bear ⟨some (chronicle.scope context), deadline⟩).Tells
      (session.addContext (session.state.derive (session.scope context) deadline)).1 := by
  have bound := tells.scope_lt context
  have found := List.getElem?_eq_getElem bound
  have derived : session.state.derive (session.scope context) deadline =
      ({ session.state with scopes := session.state.scopes ++
        [{ lineage := session.state.scopes.length :: session.state.scopes[chronicle.scope context].lineage
           deadline := earlier session.state.scopes[chronicle.scope context].deadline deadline
           canceled := session.state.scopes[chronicle.scope context].canceled }] },
        session.state.scopes.length) := by
    simp only [State.derive, Scopes.derive, tells.scope_eq, found]
  rw [derived]
  refine tells.bear ⟨bound, _, found, rfl, rfl⟩ ?_
  -- Nobody can have canceled a scope that is new.
  have other : ∀ target ∈ chronicle.canceled, target ≠ session.state.scopes.length :=
    fun target member => Nat.ne_of_lt (tells.size ▸ tells.targets target member)
  rw [tells.canceled _ _ found]
  refine exists_congr fun target => and_congr_right fun member => ?_
  simp only [List.mem_cons, other target member, false_or]

theorem addBackground (tells : chronicle.Tells session) :
    (chronicle.bear ⟨none, none⟩).Tells
      (session.addContext session.state.addBackground).1 := by
  have alone : Birth.Yields ⟨none, none⟩ session.state.scopes session.state.scopes.length
      { lineage := [session.state.scopes.length], deadline := none, canceled := false } := ⟨rfl, rfl⟩
  refine tells.bear alone ?_
  simp only [Bool.false_eq_true, List.mem_singleton, false_iff, not_exists, not_and]
  exact fun target member => Nat.ne_of_lt (tells.size ▸ tells.targets target member)

theorem clone (tells : chronicle.Tells session) (context : Nat) :
    { chronicle with contexts := chronicle.contexts ++ [chronicle.scope context] }.Tells
      (session.addContext (session.state, session.scope context)).1 where
  now := tells.now
  contexts := by simp only [Session.addContext, tells.contexts, tells.scope_eq]
  size := tells.size
  known := by
    intro scope member
    rcases List.mem_append.mp member with old | new
    · exact tells.known scope old
    · rw [List.mem_singleton.mp new]
      exact tells.size ▸ tells.scope_lt context
  nonempty := tells.nonempty
  harmless := tells.harmless
  born := tells.born
  canceled := tells.canceled
  targets := tells.targets

theorem cancel (tells : chronicle.Tells session) (context : Nat) :
    { chronicle with canceled := chronicle.canceled ++ [chronicle.scope context] }.Tells
      { session with state := session.state.cancelScope (session.scope context) } := by
  have stirs := State.stirs_cancelScope session.state (session.scope context)
  constructor
  · exact stirs.clock.trans tells.now
  · exact tells.contexts
  · simp only [State.scopes_cancelScope, Scopes.length_cancel, tells.size]
  · exact tells.known
  · exact tells.nonempty
  · exact ⟨stirs.calls.trans tells.harmless.solitary, stirs.tasks ▸ tells.harmless.holds⟩
  · intro id scope birth found born
    simp only [State.scopes_cancelScope, Scopes.getElem?_cancel, Option.map_eq_some_iff] at found
    obtain ⟨old, there, rfl⟩ := found
    rw [State.scopes_cancelScope]
    refine (tells.born id old birth there born).extends (Scopes.extends_cancel _ _) ?_ ?_ <;>
      split <;> rfl
  · intro id scope found
    simp only [State.scopes_cancelScope, Scopes.getElem?_cancel, Option.map_eq_some_iff,
      tells.scope_eq] at found
    obtain ⟨old, there, rfl⟩ := found
    have before := tells.canceled id old there
    by_cases within : chronicle.scope context ∈ old.lineage
    · simp only [List.contains_iff_mem.mpr within, if_true, true_iff]
      exact ⟨_, List.mem_append_right _ (List.mem_singleton.mpr rfl), within⟩
    · simp only [List.contains_iff_mem, within, if_false, before, List.mem_append,
        List.mem_singleton, or_and_right, exists_or, exists_eq_left, or_false]
  · intro target member
    rcases List.mem_append.mp member with old | new
    · exact tells.targets target old
    · rw [List.mem_singleton.mp new]
      exact tells.size ▸ tells.scope_lt context

theorem advance (tells : chronicle.Tells session) (millis : Nat) :
    { chronicle with now := chronicle.now + millis }.Tells
      { session with state := session.state.advanceTo (session.state.clock + millis) } := by
  have settled := tells.harmless.settle (some (session.state.clock + millis))
  have clock := State.clock_advanceTo (Nat.le_add_right session.state.clock millis)
  have kept : { chronicle with now := chronicle.now + millis }.Tells
      { session with state := { session.state with clock := session.state.clock + millis } } :=
    { tells with
      now := congrArg (· + millis) tells.now
      harmless := ⟨tells.harmless.solitary, tells.harmless.holds⟩ }
  exact kept.congr clock rfl settled.2 ⟨settled.1.solitary, settled.1.holds⟩

theorem addTask (tells : chronicle.Tells session) (context : Nat) {action : Action}
    (holds : .cancel ≠ action) : chronicle.Tells (session.addTask context action).1 := by
  refine tells.congr ?_ rfl ?_ ⟨?_, ?_⟩
  · exact (State.stirs_wake _ _).clock
  · exact State.scopes_wake _ _
  · exact (State.calls_wake _ _).trans tells.harmless.solitary
  · intro task member
    simp only [Session.addTask, State.spawn, State.tasks_wake] at member
    rcases List.mem_append.mp member with old | new
    · exact tells.harmless.holds task old
    · rw [List.mem_singleton.mp new]
      simpa [Task.new] using holds

theorem release (tells : chronicle.Tells session) (number : Nat) :
    chronicle.Tells (session.perform (.release number)).1 := by
  simp only [Session.perform]
  split
  · rename_i task found
    split
    · exact tells
    · have stirs := State.stirs_withLimiter
        (session.state.setTask number { task with slots := task.slots - 1 })
        session.state.limiter.give
      refine tells.congr stirs.clock rfl (State.scopes_withLimiter _ _)
        ⟨stirs.calls.trans tells.harmless.solitary, fun other member => ?_⟩
      rcases List.mem_or_eq_of_mem_set (stirs.tasks ▸ member) with old | rfl
      · exact tells.harmless.holds other old
      · exact tells.harmless.holds task (List.mem_of_getElem? found)
  · exact tells

theorem abort (tells : chronicle.Tells session) (number : Nat) :
    chronicle.Tells { session with state := session.state.doom number } := by
  have doomed := State.doomed_doom session.state number
  refine tells.congr doomed.clock rfl (State.scopes_doom _ _)
    ⟨doomed.calls.trans tells.harmless.solitary, fun other member => ?_⟩
  have script := doomed.map_tasks Task.script fun _ _ => rfl
  obtain ⟨task, there, same⟩ := List.mem_map.mp (script ▸ List.mem_map_of_mem member)
  exact same ▸ tells.harmless.holds task there

theorem perform (tells : chronicle.Tells session) (operation : Operation) :
    (chronicle.add operation).Tells (session.perform operation).1 := by
  cases operation with
  | background => exact tells.addBackground
  | clone context => exact tells.clone context
  | child context => exact tells.derive context none
  | withTimeout context millis =>
      simp only [Chronicle.add, ← tells.now]
      exact tells.derive context _
  | withDeadline context time => exact tells.derive context _
  | cancel context => exact tells.cancel context
  | advance millis => exact tells.advance millis
  | done context => exact tells.addTask context (by simp)
  | wait context millis => exact tells.addTask context (by simp)
  | acquire context => exact tells.addTask context (by simp)
  | release number => exact tells.release number
  | abort number => exact tells.abort number
  | cause | deadline | capacity | newCapacity => exact tells
  | increment | decrement | enter =>
      exact tells.congr rfl rfl rfl ⟨tells.harmless.solitary, tells.harmless.holds⟩
  | leave =>
      simp only [Session.perform]
      split
      · exact tells
      · exact tells.congr rfl rfl rfl ⟨tells.harmless.solitary, tells.harmless.holds⟩

/-- Each operation keeps chronicle and session together. -/
theorem step (tells : chronicle.Tells session) (operation : Operation) :
    (chronicle.add operation).Tells (session.step operation).1 := by
  have performed := tells.perform operation
  have settled := performed.harmless.settle (some (session.perform operation).1.state.clock)
  exact performed.congr (State.clock_settleNow _) rfl settled.2 settled.1

theorem play (tells : chronicle.Tells session) (operations : List Operation) :
    (operations.foldl Chronicle.add chronicle).Tells (session.play operations) := by
  induction operations generalizing chronicle session with
  | nil => exact tells
  | cons operation operations ih => exact ih (tells.step operation)

end Chronicle.Tells

theorem tells_start (capacity : Int) : Chronicle.start.Tells (Session.start capacity) where
  now := rfl
  contexts := rfl
  size := rfl
  known := by simp [Chronicle.start]
  nonempty := Nat.zero_lt_one
  harmless := ⟨rfl, by simp [Session.start, State.addBackground, State.start]⟩
  born := by
    intro id scope birth found born
    obtain rfl : id = 0 := by
      have bound := (List.getElem?_eq_some_iff.mp born).1
      simpa [Chronicle.start] using bound
    cases found
    cases born
    exact ⟨rfl, rfl⟩
  canceled := by
    intro id scope found
    obtain rfl : id = 0 := by
      have bound := (List.getElem?_eq_some_iff.mp found).1
      simpa [Session.start, State.addBackground, State.start, Scopes.addBackground] using bound
    cases found
    simp [Chronicle.start]
  targets := by simp [Chronicle.start]

/-! ## What contexts answer -/

namespace Chronicle

variable {chronicle after : Chronicle} {session : Session}

namespace Tells

theorem answer_deadline (tells : chronicle.Tells session) (context : Nat) :
    ∃ due, session.answer (.deadline context) = .deadline due ∧
      IsEarliest due {time | chronicle.Sets (chronicle.scope context) time} := by
  have found := List.getElem?_eq_getElem (tells.scope_lt context)
  refine ⟨_, ?_, tells.isEarliest_deadline found⟩
  simp only [Session.answer, Session.perform, Scopes.deadline?, tells.scope_eq, found,
    Option.bind_some]

theorem answer_cause (tells : chronicle.Tells session) (context : Nat) :
    ∃ cause, session.answer (.cause context) = .cause cause ∧
      (cause = some .deadline ↔ chronicle.IsPast (chronicle.scope context)) ∧
      (cause = some .canceled ↔ ¬ chronicle.IsPast (chronicle.scope context) ∧
        chronicle.IsCanceled (chronicle.scope context)) := by
  have found := List.getElem?_eq_getElem (tells.scope_lt context)
  have past := tells.isPast_iff found
  have canceled := tells.isCanceled_iff found
  refine ⟨_, rfl, ?_⟩
  simp only [State.cause?, Scopes.cause?, tells.scope_eq, found]
  by_cases late : chronicle.IsPast (chronicle.scope context)
  · simp [past.mpr late, late]
  · simp only [mt past.mp late, Bool.false_eq_true, if_false, late, not_false_eq_true, true_and,
      iff_false, ← canceled]
    split <;> simp_all

/-- A context has ended if its deadline has come or it has been canceled. -/
theorem ended_iff (tells : chronicle.Tells session) (context : Nat) :
    session.answer (.cause context) ≠ .cause none ↔
      chronicle.IsPast (chronicle.scope context) ∨
        chronicle.IsCanceled (chronicle.scope context) := by
  obtain ⟨cause, answer, past, canceled⟩ := tells.answer_cause context
  rw [answer]
  by_cases late : chronicle.IsPast (chronicle.scope context)
  · simp [past.mpr late, late]
  · cases cause with
    | none => simpa [late] using canceled
    | some cause => cases cause <;> simp_all

end Tells

theorem Tells.cancel_elsewhere (tells : chronicle.Tells session) {target other : Nat}
    (apart : ¬ chronicle.Descends (chronicle.scope other) (chronicle.scope target)) :
    (session.step (.cancel target)).1.answer (.cause other) = session.answer (.cause other) := by
  have onward : chronicle.births <+: (chronicle.add (.cancel target)).births := List.prefix_refl _
  have back : (chronicle.add (.cancel target)).births <+: chronicle.births := List.prefix_refl _
  have same {inner outer : ScopeId} : (chronicle.add (.cancel target)).Descends inner outer ↔
      chronicle.Descends inner outer := ⟨Descends.mono back, Descends.mono onward⟩
  have past : (chronicle.add (.cancel target)).IsPast (chronicle.scope other) ↔
      chronicle.IsPast (chronicle.scope other) := by
    simp only [IsPast, Sets, same]
    rfl
  have canceled : (chronicle.add (.cancel target)).IsCanceled (chronicle.scope other) ↔
      chronicle.IsCanceled (chronicle.scope other) := by
    simp only [IsCanceled, same]
    simp only [add, List.mem_append, List.mem_singleton, or_and_right, exists_or, exists_eq_left,
      apart, or_false]
  obtain ⟨cause, answer, late, stopped⟩ := tells.answer_cause other
  obtain ⟨cause', answer', late', stopped'⟩ := (tells.step (.cancel target)).answer_cause other
  have late_iff : cause' = some .deadline ↔ cause = some .deadline :=
    late'.trans (past.trans late.symm)
  have stopped_iff : cause' = some .canceled ↔ cause = some .canceled :=
    stopped'.trans ((and_congr (not_congr past) canceled).trans stopped.symm)
  rw [answer, answer']
  rcases cause with _ | _ | _ <;> rcases cause' with _ | _ | _ <;> simp_all

theorem Tells.not_descends (tells : chronicle.Tells session) {scope parent : ScopeId}
    {deadline : Option Nat} (born : chronicle.births[scope]? = some ⟨some parent, deadline⟩) :
    ¬ chronicle.Descends parent scope ∧
      ∀ (sibling : ScopeId) (set : Option Nat),
        chronicle.births[sibling]? = some ⟨some parent, set⟩ → sibling ≠ scope →
          ¬ chronicle.Descends sibling scope := by
  have bound := tells.size ▸ (List.getElem?_eq_some_iff.mp born).1
  obtain ⟨order, outer, found, _⟩ := tells.born scope _ _ (List.getElem?_eq_getElem bound) born
  have apart : ¬ chronicle.Descends parent scope := fun descends =>
    absurd (tells.descends_le found descends) (Nat.not_le_of_lt order)
  refine ⟨apart, fun sibling set other distinct descends => ?_⟩
  rcases (descends_of_derived other).mp descends with same | further
  · exact distinct same.symm
  · exact apart further

end Chronicle

theorem Chronicle.Tells.made {chronicle : Chronicle} {session : Session}
    (tells : chronicle.Tells session) {operation : Operation} {source : Nat}
    (made : operation.source? = some source) :
    session.answer operation = .context session.contexts.length ∧
      (chronicle.add operation).Descends
        ((chronicle.add operation).scope session.contexts.length) (chronicle.scope source) := by
  have last (scopes : List ScopeId) (scope : ScopeId) : (scopes ++ [scope]).getD scopes.length 0 =
      scope := by simp
  cases operation with
  | clone context =>
      cases made
      refine ⟨rfl, ?_⟩
      simp only [Chronicle.add, Chronicle.scope, tells.contexts, last]
      exact .self _
  | child | withTimeout | withDeadline =>
      cases made
      refine ⟨rfl, ?_⟩
      simp only [Chronicle.add, Chronicle.bear, Chronicle.scope, tells.contexts, last]
      exact .derived List.getElem?_concat_length (.self _)
  | _ => cases made

/-- Whatever is done with contexts, the deadline of a context is the earliest that was set on the way
to it, and it has ended by its deadline if that has come, or else by a cancellation if it or one that
it descends from was canceled at any time. So to cancel a context does nothing to those that do not
descend from it, such as the one that it was derived from and what else was derived from that; what
descends from a context that has ended has ended, from its birth on; and what has ended stays so. -/
theorem contexts_follow_chronicle (capacity : Int) (operations : List Operation) :
    let session := (Session.start capacity).play operations
    let chronicle := Chronicle.ofOperations operations
    (∀ operation, ((snapshots capacity (operations ++ [operation])).map Snapshot.answer).getLast? =
      some (session.answer operation)) ∧
    session.state.clock = chronicle.now ∧ session.contexts.length = chronicle.contexts.length ∧
    (∀ context, ∃ due cause, session.answer (.deadline context) = .deadline due ∧
      session.answer (.cause context) = .cause cause ∧
      IsEarliest due {time | chronicle.Sets (chronicle.scope context) time} ∧
      (cause = some .deadline ↔ ∃ time ∈ due, time ≤ chronicle.now) ∧
      (cause = some .canceled ↔ (∀ time ∈ due, chronicle.now < time) ∧
        chronicle.IsCanceled (chronicle.scope context))) ∧
    (∀ target other, ¬ chronicle.Descends (chronicle.scope other) (chronicle.scope target) →
      (session.step (.cancel target)).1.answer (.cause other) = session.answer (.cause other)) ∧
    (∀ scope parent deadline, chronicle.births[scope]? = some ⟨some parent, deadline⟩ →
      ¬ chronicle.Descends parent scope ∧
        ∀ sibling set, chronicle.births[sibling]? = some ⟨some parent, set⟩ → sibling ≠ scope →
          ¬ chronicle.Descends sibling scope) ∧
    (∀ inner outer, chronicle.Descends (chronicle.scope inner) (chronicle.scope outer) →
      session.answer (.cause outer) ≠ .cause none → session.answer (.cause inner) ≠ .cause none) ∧
    (∀ operation source, operation.source? = some source →
      session.answer (.cause source) ≠ .cause none →
      session.answer operation = .context session.contexts.length ∧
        (session.step operation).1.answer (.cause session.contexts.length) ≠ .cause none) ∧
    ∀ context < session.contexts.length, ∀ more, session.answer (.cause context) ≠ .cause none →
      (session.play more).answer (.cause context) ≠ .cause none := by
  intro session chronicle
  have tells : chronicle.Tells session := (tells_start capacity).play operations
  refine ⟨fun operation => ?_, tells.now, congrArg List.length tells.contexts, fun context => ?_,
    fun target other apart => ?_, fun scope parent deadline => tells.not_descends,
    fun inner outer descends ended => ?_, fun operation source made ended => ?_,
    fun context known more ended => ?_⟩
  · rw [snapshots, Session.run_append_singleton, List.getLast?_concat]
  · obtain ⟨due, deadline, earliest⟩ := tells.answer_deadline context
    obtain ⟨cause, answer, past, canceled⟩ := tells.answer_cause context
    have reached : chronicle.IsPast (chronicle.scope context) ↔ ∃ time ∈ due, time ≤ chronicle.now := by
      cases due with
      | none =>
          have nothing : {time | chronicle.Sets (chronicle.scope context) time} = ∅ := earliest
          simp only [Option.mem_def, reduceCtorEq, false_and, exists_false, iff_false]
          exact fun ⟨time, set, _⟩ => (nothing ▸ set : time ∈ (∅ : Set Nat))
      | some due =>
          simp only [Option.mem_some_iff, exists_eq_left']
          exact ⟨fun ⟨time, set, order⟩ => Nat.le_trans (earliest.2 set) order,
            fun order => ⟨due, earliest.1, order⟩⟩
    refine ⟨due, cause, deadline, answer, earliest, past.trans reached, ?_⟩
    rw [canceled, reached]
    simp only [not_exists, not_and, Nat.not_le]
  · exact tells.cancel_elsewhere apart
  · rw [tells.ended_iff] at ended ⊢
    exact ended.imp descends.isPast descends.isCanceled
  · obtain ⟨answer, descends⟩ := tells.made made
    refine ⟨answer, ?_⟩
    rw [tells.ended_iff] at ended
    rw [(tells.step operation).ended_iff]
    exact ((chronicle.grows_add operation).ended ended).imp descends.isPast descends.isCanceled
  · rw [tells.ended_iff] at ended
    have grows := chronicle.grows_foldl more
    rw [(tells.play more).ended_iff, grows.scope_eq (tells.contexts ▸ known)]
    exact grows.ended ended

/-- The second context is canceled, and with it ends a clone of what was derived from it, before the
deadline comes; the last context is derived from the first one. -/
def kinship : List Operation :=
  [.child 0, .withTimeout 1 20, .clone 2, .advance 5, .cancel 1, .child 0]

theorem contexts_follow_chronicle_kinship :
    let session := (Session.start 1).play kinship
    session.answer (.cause 3) ≠ .cause none ∧
      (session.step (.cancel 3)).1.answer (.cause 4) = session.answer (.cause 4) ∧
      (session.step (.child 3)).1.answer (.cause 5) ≠ .cause none ∧
      (session.play [.advance 15]).answer (.cause 3) ≠ .cause none := by
  obtain ⟨_, _, _, _, elsewhere, _, above, made, stays⟩ := contexts_follow_chronicle 1 kinship
  have canceled : ((Session.start 1).play kinship).answer (.cause 1) = .cause (some .canceled) := by
    cbv
  have ended := above 3 1 (.derived rfl (.self 1)) (by simp [canceled])
  refine ⟨ended, elsewhere 3 4 fun descends => ?_, (made (.child 3) 3 rfl ended).2,
    stays 3 (by cbv) [.advance 15] ended⟩
  cases descends with
  | derived born further =>
      cases born
      cases further with
      | derived born _ => cases born

end Exercise

end OrderDesk
