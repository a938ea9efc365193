import OrderDesk.Proofs.LoneCalls
import OrderDesk.Proofs.Neighbors
import OrderDesk.Proofs.Openings

/-! Calls do not get in each other's way. Take any run in which calls work on contexts and nobody
ever waits for a slot, and leave out of it all that other calls do: what is left is a run again,
with the same contexts, ended at the same times for the same causes, and in it the call starts and
ends as before, with the same report. -/

namespace OrderDesk

namespace Schedule

namespace State

def NeverQueues : State → List Move → Prop
  | state, [] => state.limiter.line = []
  | state, move :: moves => state.limiter.line = [] ∧ (state.apply move).NeverQueues moves

instance decidableNeverQueues :
    (state : State) → (moves : List Move) → Decidable (state.NeverQueues moves)
  | state, [] => inferInstanceAs (Decidable (state.limiter.line = []))
  | state, move :: moves =>
      have _ := decidableNeverQueues (state.apply move) moves
      inferInstanceAs (Decidable (state.limiter.line = [] ∧ (state.apply move).NeverQueues moves))

theorem NeverQueues.line {state : State} {moves : List Move} (never : state.NeverQueues moves) :
    state.limiter.line = [] := by
  cases moves with
  | nil => exact never
  | cons move moves => exact never.1

theorem NeverQueues.of_append {state : State} {first second : List Move}
    (never : state.NeverQueues (first ++ second)) : (state.play first).NeverQueues second := by
  induction first generalizing state with
  | nil => exact never
  | cons move moves ih => exact ih never.2

end State

/-- What is left of a move when there are no other calls. Where another call was opened there is a
scope that nobody uses, so that all scopes keep their numbers. -/
def Realm.image (realm : Realm) : Move → Option Move
  | .addBackground => some .addBackground
  | .derive parent deadline => some (.derive parent deadline)
  | .cancel target => some (.cancel target)
  | .openCall context _ => some (.derive context none)
  | .abortCall id => if id = realm.call then some (.abortCall 0) else none
  | .turn worker => (realm.worker? worker).map .turn
  | .jump time => some (.jump time)
  | .spawn _ _ => none
  | .doom _ => none
  | .release _ => none

namespace State

variable {realm : Realm} {state alone : State} {move : Move}

theorem Separate.getElem?_foreign (separate : state.Separate) (foreign : realm.image move = none) :
    (state.apply move).scopes.length = state.scopes.length ∧
      ∀ id ∉ state.bases, (state.apply move).scopes[id]? = state.scopes[id]? := by
  cases rescopes_apply state move with
  | same still =>
      rw [still]
      exact ⟨rfl, fun _ _ => rfl⟩
  | background turn _ =>
      subst turn
      cases foreign
  | derived parent deadline turn _ => rcases turn with rfl | ⟨_, steps, rfl⟩ <;> cases foreign
  | canceled target may marked =>
      have own : target ∈ state.bases := by
        refine separate.mem_bases_of_mayCancel ?_ may
        rintro scope rfl
        cases foreign
      rw [marked]
      exact ⟨Scopes.length_cancel _ _, fun id outside => separate.getElem?_cancel own outside⟩

theorem bases_foreign (apart : state.KeepsApart move) (foreign : realm.image move = none) :
    (state.apply move).bases = state.bases := by
  rcases sameWiring_apply state move with same | ⟨context, steps, rfl⟩ | ⟨target, script, rfl⟩
  · exact same.bases
  · cases foreign
  · exact False.elim apart

theorem clock_foreign (foreign : realm.image move = none) :
    (state.apply move).clock = state.clock := by
  rcases clock_apply state move with same | ⟨time, rfl, _⟩
  · exact same
  · cases foreign

/-- In the second state there is nothing but the clock and the contexts of the first. -/
structure Precedes (joint alone : State) : Prop where
  clock : alone.clock = joint.clock
  ready : alone.ready = []
  timers : alone.timers = []
  listeners : alone.listeners = []
  tasks : alone.tasks = []
  calls : alone.calls = []
  size : alone.scopes.length = joint.scopes.length
  contexts : ∀ id ∉ joint.bases, alone.scopes[id]? = joint.scopes[id]?
  limiter : alone.limiter.line = []

variable {joint : State}

theorem Precedes.foreign (precedes : joint.Precedes alone) (separate : joint.Separate)
    (apart : joint.KeepsApart move) (foreign : realm.image move = none) :
    (joint.apply move).Precedes alone := by
  obtain ⟨size, contexts⟩ := separate.getElem?_foreign foreign
  exact { precedes with
    clock := precedes.clock.trans (clock_foreign foreign).symm
    size := precedes.size.trans size.symm
    contexts := fun id outside => by
      rw [bases_foreign apart foreign] at outside
      rw [precedes.contexts id outside, contexts id outside] }

theorem Precedes.derive (precedes : joint.Precedes alone) {parent : ScopeId}
    (outside : parent ∉ joint.bases) (deadline : Option Nat) {next : State}
    (clock : next.clock = joint.clock) (scopes : next.scopes = joint.scopes.derive parent deadline)
    (bases : ∀ base ∈ joint.bases, base ∈ next.bases) :
    next.Precedes (alone.derive parent deadline).1 :=
  { precedes with
    clock := precedes.clock.trans clock.symm
    size := scopes ▸ length_derive_congr precedes.size parent deadline
    contexts := fun id other => by
      rw [scopes]
      exact getElem?_derive_congr precedes.size (precedes.contexts parent outside) deadline
        (precedes.contexts id fun base => other (bases id base)) }

theorem Precedes.addBackground (precedes : joint.Precedes alone) :
    (joint.apply .addBackground).Precedes (alone.apply .addBackground) := by
  refine { precedes with size := ?_, contexts := fun id outside => ?_ }
  · simp [State.apply, State.addBackground, Scopes.addBackground, precedes.size]
  · simp only [State.apply, State.addBackground, Scopes.addBackground, precedes.size]
    exact getElem?_append_congr precedes.size (precedes.contexts id outside) _

theorem Precedes.cancel (precedes : joint.Precedes alone) (target : ScopeId) :
    (joint.apply (.cancel target)).Precedes (alone.apply (.cancel target)) := by
  have unheard : alone.cancelScope target =
      { alone with scopes := alone.scopes.cancel target } := by
    simp [State.cancelScope, State.wakeAll, precedes.listeners]
  simp only [State.apply, unheard]
  exact { precedes with
    clock := precedes.clock.trans (stirs_cancelScope joint target).clock.symm
    size := by simp [Scopes.length_cancel, precedes.size]
    contexts := fun id outside => by
      rw [State.bases, calls_cancelScope] at outside
      rw [scopes_cancelScope]
      exact getElem?_cancel_congr (precedes.contexts id outside) target }

theorem Precedes.abortCall (precedes : joint.Precedes alone) {id : CallId}
    (missing : joint.calls[id]? = none) :
    (joint.apply (.abortCall id)).Precedes (alone.apply (.abortCall 0)) := by
  have idle : joint.abortCall id = joint := by simp only [State.abortCall, missing]
  have idle' : alone.abortCall 0 = alone := by
    simp only [State.abortCall, precedes.calls, List.getElem?_nil]
  simp only [State.apply, idle, idle']
  exact precedes

theorem Precedes.jump (precedes : joint.Precedes alone) {time : Nat}
    (possible : joint.canJump time = true) :
    alone.canJump time = true ∧
      (joint.apply (.jump time)).Precedes (alone.apply (.jump time)) := by
  have possible' : alone.canJump time = true := by
    simp [State.canJump, precedes.ready, precedes.timers]
  have passed : alone.jump time = { alone with clock := max alone.clock time } := by
    simp [State.jump, State.wakeAll, precedes.timers]
  refine ⟨possible', ?_⟩
  simp only [State.apply, possible, possible', if_true, passed]
  exact { precedes with
    clock := by simp [precedes.clock]
    size := by simp [precedes.size]
    contexts := fun id outside => by
      simp only [State.bases, State.jump, calls_wakeAll] at outside
      rw [scopes_jump]
      exact precedes.contexts id outside }

theorem Precedes.apply (precedes : joint.Precedes alone) (separate : joint.Separate)
    (closed : joint.Closed) (fresh : ∀ worker, joint.Has worker → realm.worker? worker = none)
    (allowed : joint.Allows move) (apart : joint.KeepsApart move) :
    match realm.image move with
    | none => (joint.apply move).Precedes alone
    | some image => alone.Allows image ∧ (joint.apply move).Precedes (alone.apply image) := by
  cases move with
  | addBackground => exact ⟨trivial, precedes.addBackground⟩
  | derive parent deadline =>
      exact ⟨Nat.lt_of_lt_of_eq allowed precedes.size.symm,
        precedes.derive apart deadline rfl rfl fun _ base => base⟩
  | cancel target =>
      exact ⟨Nat.lt_of_lt_of_eq allowed precedes.size.symm, precedes.cancel target⟩
  | openCall context steps =>
      have opened := opened_openCall joint context steps
      refine ⟨Nat.lt_of_lt_of_eq allowed precedes.size.symm,
        precedes.derive apart none opened.clock opened.scopes fun base member => ?_⟩
      rw [bases_openCall]
      exact List.mem_append_left _ member
  | abortCall id =>
      by_cases own : id = realm.call
      · subst own
        have missing : joint.calls[realm.call]? = none := by
          refine List.getElem?_eq_none (Nat.not_lt.mp fun here => ?_)
          have named := fresh (.call realm.call) here
          simp [Realm.worker?] at named
        simp only [Realm.image, if_true]
        exact ⟨trivial, precedes.abortCall missing⟩
      · have foreign : realm.image (.abortCall id) = none := by simp [Realm.image, own]
        rw [foreign]
        exact precedes.foreign separate apart foreign
  | spawn scope script => exact False.elim apart
  | doom id =>
      have foreign : realm.image (.doom id) = none := rfl
      exact precedes.foreign separate apart foreign
  | release id =>
      have foreign : realm.image (.release id) = none := rfl
      exact precedes.foreign separate apart foreign
  | turn worker =>
      have named := fresh worker (closed.serves.ready worker (List.mem_of_head? allowed))
      have foreign : realm.image (.turn worker) = none := by simp [Realm.image, named]
      rw [foreign]
      exact precedes.foreign separate apart foreign
  | jump time => exact precedes.jump allowed

theorem has_play (moves : List Move) {worker : Worker} (here : state.Has worker) :
    (state.play moves).Has worker := by
  induction moves generalizing state with
  | nil => exact here
  | cons move moves ih => exact ih (has_apply state move here)

theorem Precedes.play (precedes : joint.Precedes alone) (separate : joint.Separate)
    (closed : joint.Closed) (wired : joint.Wired) {moves : List Move}
    (fresh : ∀ worker, (joint.play moves).Has worker → realm.worker? worker = none)
    (follows : joint.Follows moves) (stays : joint.StaysApart moves) :
    alone.Follows (moves.filterMap realm.image) ∧
      (joint.play moves).Precedes (alone.play (moves.filterMap realm.image)) := by
  induction moves generalizing joint alone with
  | nil => exact ⟨trivial, precedes⟩
  | cons move moves ih =>
      have step := precedes.apply separate closed
        (fun worker here => fresh worker (has_play (move :: moves) here)) follows.1 stays.1
      have separate' := separate.apply stays.1
      have closed' := closed.apply wired follows.1
      have wired' := wired.apply move
      cases left : realm.image move with
      | none =>
          simp only [left] at step
          rw [List.filterMap_cons_none left]
          exact ih step separate' closed' wired' fresh follows.2 stays.2
      | some image =>
          simp only [left] at step
          rw [List.filterMap_cons_some left]
          have later := ih step.2 separate' closed' wired' fresh follows.2 stays.2
          exact ⟨⟨step.1, later.1⟩, later.2⟩

variable {context : ScopeId} {size : Nat}

theorem worker?_of_has {worker : Worker} (here : state.Has worker) :
    (state.newRealm context size).worker? worker = none :=
  Realm.worker?_eq_none.mpr (not_has_newRealm here)

theorem own?_of_has {id : TaskId} (here : state.Has (.task id)) :
    (state.newRealm context size).own? id = none :=
  Option.map_eq_none_iff.mp (worker?_of_has here)

theorem Precedes.openCall (precedes : joint.Precedes alone) (closed : joint.Closed)
    (within : joint.limiter.Within alone.limiter) (outside : context ∉ joint.bases)
    (steps : List (String × Script)) :
    (joint.openCall context steps).1.Mirrors (joint.newRealm context steps.length)
      (alone.openCall context steps).1 := by
  have opened := opened_openCall joint context steps
  have opened' := opened_openCall alone context steps
  have waiting := waiting_openCall joint context steps
  have waiting' := waiting_openCall alone context steps
  have ready := ready_openCall joint context steps fun task inLine =>
    closed.serves.ready _ inLine
  have ready' := ready_openCall alone context steps (by simp [precedes.ready])
  have above := precedes.contexts context outside
  constructor
  · rw [opened.clock, opened'.clock, precedes.clock]
  · have old : joint.ready.filterMap (joint.newRealm context steps.length).worker? = [] :=
      List.filterMap_eq_nil_iff.mpr fun worker inLine =>
        worker?_of_has (closed.serves.ready worker inLine)
    have new := (joint.newRealm context steps.length).filterMap_worker?_tasks
    rw [ready, ready', precedes.ready, precedes.tasks, List.filterMap_append, old]
    exact congrArg ([] ++ ·) new.symm
  · rw [waiting.1, waiting'.1, precedes.timers, eq_comm, List.filterMap_eq_nil_iff]
    intro timer member
    simp [Realm.timer?, own?_of_has (closed.serves.timers timer member)]
  · rw [waiting.2, waiting'.2, precedes.listeners, eq_comm, List.filterMap_eq_nil_iff]
    intro listener member
    simp [Realm.listener?, own?_of_has (closed.serves.listeners listener member)]
  · intro listener member own
    rw [waiting.2] at member
    rw [Realm.own?_eq_none.mp (own?_of_has (closed.serves.listeners listener member))] at own
    cases own
  · rw [opened.scopes, opened'.scopes]
    exact length_derive_congr precedes.size context none
  · intro id other
    have known : id ∉ joint.bases := fun base => other (by
      rw [← State.apply, bases_openCall]
      exact List.mem_append_left _ base)
    rw [opened.scopes, opened'.scopes]
    exact getElem?_derive_congr precedes.size above none (precedes.contexts id known)
  · rw [opened.scopes, opened'.scopes]
    refine getElem?_derive_congr precedes.size above none ?_
    simp [newRealm, ← precedes.size]
  · rw [opened.limiter, opened'.limiter]
    exact within
  · simp [opened'.tasks, precedes.tasks, stepTasks, newRealm]
  · intro position below
    simp only [opened.tasks, opened'.tasks, precedes.tasks, List.nil_append, newRealm,
      List.getElem?_append_right (Nat.le_add_right _ _), Nat.add_sub_cancel_left, getElem?_stepTasks,
      precedes.size, precedes.clock, precedes.calls, Option.map_map]
    rfl
  · rw [opened.calls, opened'.calls, precedes.calls]
    simp only [newRealm, List.getElem?_concat_length, Option.map_some, Option.toList_some,
      List.nil_append, Realm.inside, newCall, Call.new, precedes.size, precedes.clock,
      precedes.tasks, List.map_sub_range' (Nat.le_refl _), Nat.sub_self, List.length_nil,
      List.map_nil, List.length_range']

end State

/-! ## Side by side -/

structure Hosted (history : History) (realm : Realm) (steps : List (String × Script))
    (total : Nat) : Prop where
  sound : history.Sound
  separate : history.state.Separate
  housed : history.state.Housed
  exposed : history.state.Exposed
  nests : history.state.scopes.Nests realm
  bound : realm.first + realm.size ≤ history.state.tasks.length
  balanced : history.state.IsBalanced total
  blind : ∀ position < realm.size, ∀ task, history.state.tasks[realm.first + position]? = some task →
    ∀ action ∈ task.script, action.isBlind = true
  call : ∃ call, Tracks history realm.call steps call ∧ realm.Owns call

namespace Hosted

variable {history : History} {realm : Realm} {steps : List (String × Script)} {total : Nat}
  {alone : State} {move : Move}

theorem add (hosted : Hosted history realm steps total) (allowed : history.state.Allows move)
    (apart : history.state.KeepsApart move) : Hosted (history.add move) realm steps total := by
  obtain ⟨call, tracks, owns⟩ := hosted.call
  obtain ⟨after, tracked, continues⟩ := tracks.add hosted.sound move
  exact
    { sound := hosted.sound.add move
      separate := hosted.separate.apply apart
      housed := hosted.housed.apply hosted.sound.wired apart
      exposed := hosted.exposed.apply allowed apart
      nests := hosted.nests.extends (State.apply_extends history.state move)
      bound := Nat.le_trans hosted.bound (State.length_tasks_le history.state move)
      balanced := State.balanced_apply hosted.balanced move
      blind := fun position below next found action listed => by
        obtain ⟨task, old, _⟩ :=
          hosted.housed.exists_own hosted.sound.wired tracks.found owns below
        obtain ⟨again, becomes⟩ := State.exists_becomes hosted.sound.wired move old
        obtain rfl := Option.some.inj (becomes.found.symm.trans found)
        exact hosted.blind position below task old action (becomes.evolves.script_subset listed)
      call := ⟨after, tracked, owns.of_continues continues⟩ }

theorem foreign (hosted : Hosted history realm steps total)
    (mirrors : history.state.Mirrors realm alone) (balanced : alone.IsBalanced total)
    (apart : history.state.KeepsApart move) (quiet : (history.state.apply move).limiter.line = [])
    (left : realm.image move = none)
    (spares : history.state.Spares realm (history.state.apply move)) :
    (history.state.apply move).Mirrors realm alone := by
  obtain ⟨size, contexts⟩ := hosted.separate.getElem?_foreign left
  have fewer := State.sumOf_slots_le mirrors.count fun position below =>
    (mirrors.tasks position below).trans
      (congrArg (Option.map Task.alone) (spares.tasks _ (Realm.hasTask_place below)).symm)
  have within := State.within_of_balanced (State.balanced_apply hosted.balanced move) balanced quiet
    mirrors.limiter.line' fewer
  have kept : State.Mirrors (history.state.apply move) realm
      { alone with scopes := alone.scopes } := by
    refine mirrors.of_spares spares (mirrors.size.trans size.symm) (fun id outside => ?_) rfl within
    rw [State.bases_foreign apart left] at outside
    rw [mirrors.contexts id outside, contexts id outside]
  exact kept

theorem mirrors_openCall (hosted : Hosted history realm steps total)
    (mirrors : history.state.Mirrors realm alone) {context : ScopeId}
    (outside : context ∉ history.state.bases) (scripts : List (String × Script)) :
    (history.state.openCall context scripts).1.Mirrors realm (alone.derive context none).1 := by
  obtain ⟨call, tracks, _⟩ := hosted.call
  have opened := State.opened_openCall history.state context scripts
  have above := mirrors.contexts context outside
  have unmoved : history.state.Spares realm history.state := .refl (by simp [mirrors.limiter.line])
  have spares := unmoved.openCall hosted.bound (List.getElem?_eq_some_iff.mp tracks.found).1
    hosted.nests context scripts
  refine mirrors.of_spares spares ?_ (fun id other => ?_) ?_ ?_
  · rw [opened.scopes]
    exact State.length_derive_congr mirrors.size context none
  · have known : id ∉ history.state.bases := fun base => other (by
      rw [← State.apply, State.bases_openCall]
      exact List.mem_append_left _ base)
    rw [opened.scopes]
    exact State.getElem?_derive_congr mirrors.size above none (mirrors.contexts id known)
  · rw [State.getElem?_derive_congr mirrors.size above none mirrors.scope, mirrors.scope,
      ← opened.scopes]
    exact spares.scope
  · rw [opened.limiter]
    exact mirrors.limiter

theorem mirrors_turn (hosted : Hosted history realm steps total)
    (mirrors : history.state.Mirrors realm alone) {worker image : Worker}
    (first : history.state.ready.head? = some worker) (named : realm.worker? worker = some image)
    (quiet : (history.state.apply (.turn worker)).limiter.line = []) :
    alone.ready.head? = some image ∧
      (history.state.apply (.turn worker)).Mirrors realm (alone.apply (.turn image)) := by
  obtain ⟨call, tracks, owns⟩ := hosted.call
  obtain ⟨first', popped⟩ := mirrors.pop first named
  refine ⟨first', ?_⟩
  have inLine := List.mem_of_head? first
  simp only [State.apply, if_pos inLine] at quiet
  simp only [State.apply, if_pos inLine, if_pos (List.mem_of_head? first')]
  cases worker with
  | task id =>
      obtain ⟨position, mine, rfl⟩ := Option.map_eq_some_iff.mp named
      obtain ⟨below, rfl⟩ := Realm.own?_eq_some.mp mine
      obtain ⟨task, found, works, scope⟩ :=
        hosted.housed.exists_own hosted.sound.wired tracks.found owns below
      have blind := hosted.blind _ below task found
      rcases State.runTask_mirrors popped below found scope works blind with queued | same
      · exact absurd quiet queued
      · exact same
  | call id =>
      simp only [Realm.worker?, Option.ite_none_right_eq_some, Option.some.injEq] at named
      obtain ⟨rfl, rfl⟩ := named
      refine State.runCall_mirrors popped tracks.found (fun task member => ?_)
        (hosted.exposed call (List.mem_of_getElem? tracks.found)).2
      exact owns.hasTask_iff.mpr (tracks.finished.2 task member)

/-- Whatever happens, what is left of it does the same alone. -/
theorem mirrors_apply (hosted : Hosted history realm steps total)
    (mirrors : history.state.Mirrors realm alone) (balanced : alone.IsBalanced total)
    (allowed : history.state.Allows move) (apart : history.state.KeepsApart move)
    (quiet : (history.state.apply move).limiter.line = []) :
    match realm.image move with
    | none => (history.state.apply move).Mirrors realm alone
    | some image =>
        alone.Allows image ∧ (history.state.apply move).Mirrors realm (alone.apply image) := by
  obtain ⟨call, tracks, owns⟩ := hosted.call
  obtain ⟨own, placed, _⟩ := hosted.nests
  obtain ⟨spares_abort, spares_turn⟩ := hosted.housed.spares hosted.sound.wired hosted.separate
    tracks.found owns placed mirrors.heard mirrors.limiter.line
  cases move with
  | addBackground => exact ⟨trivial, mirrors.addBackground⟩
  | derive parent deadline =>
      exact ⟨Nat.lt_of_lt_of_eq allowed mirrors.size.symm, mirrors.derive apart deadline⟩
  | cancel target =>
      exact ⟨Nat.lt_of_lt_of_eq allowed mirrors.size.symm, mirrors.cancelScope target⟩
  | openCall context scripts =>
      exact ⟨Nat.lt_of_lt_of_eq allowed mirrors.size.symm,
        hosted.mirrors_openCall mirrors apart scripts⟩
  | abortCall id =>
      by_cases mine : id = realm.call
      · subst mine
        simp only [Realm.image, if_true]
        exact ⟨trivial, State.abortCall_mirrors mirrors tracks.found fun task member =>
          owns.hasTask_iff.mpr member⟩
      · have left : realm.image (.abortCall id) = none := by simp [Realm.image, mine]
        rw [left]
        exact hosted.foreign mirrors balanced apart quiet left (spares_abort id mine)
  | spawn scope script => exact False.elim apart
  | doom id =>
      have idle : history.state.apply (.doom id) = history.state := by
        simp [State.apply, hosted.housed.not_loose id]
      rw [idle]
      exact mirrors
  | release id =>
      have idle : history.state.apply (.release id) = history.state := by
        simp [State.apply, hosted.housed.not_loose id]
      rw [idle]
      exact mirrors
  | turn worker =>
      cases named : realm.worker? worker with
      | none =>
          have left : realm.image (.turn worker) = none := by simp [Realm.image, named]
          rw [left]
          exact hosted.foreign mirrors balanced apart quiet left
            (spares_turn worker (Realm.worker?_eq_none.mp named))
      | some image =>
          simp only [Realm.image, named, Option.map_some]
          exact hosted.mirrors_turn mirrors allowed named quiet
  | jump time =>
      have possible : alone.canJump time = true := mirrors.canJump allowed
      have possible' : history.state.canJump time = true := allowed
      simp only [Realm.image, State.apply, possible, possible', if_true]
      exact ⟨possible, mirrors.jump time⟩

theorem mirrors_play (hosted : Hosted history realm steps total)
    (mirrors : history.state.Mirrors realm alone) (balanced : alone.IsBalanced total)
    {moves : List Move} (follows : history.state.Follows moves)
    (stays : history.state.StaysApart moves) (never : history.state.NeverQueues moves) :
    alone.Follows (moves.filterMap realm.image) ∧
      (history.state.play moves).Mirrors realm (alone.play (moves.filterMap realm.image)) := by
  induction moves generalizing history alone with
  | nil => exact ⟨trivial, mirrors⟩
  | cons move moves ih =>
      have step := hosted.mirrors_apply mirrors balanced follows.1 stays.1 never.2.line
      have hosted' := hosted.add follows.1 stays.1
      cases left : realm.image move with
      | none =>
          simp only [left] at step
          rw [List.filterMap_cons_none left]
          exact ih hosted' step balanced follows.2 stays.2 never.2
      | some image =>
          simp only [left] at step
          rw [List.filterMap_cons_some left]
          have later := ih hosted' step.2 (State.balanced_apply balanced image) follows.2 stays.2
            never.2
          exact ⟨⟨step.1, later.1⟩, later.2⟩

end Hosted

theorem Scopes.Links.nests {scopes : Scopes} {realm : Realm}
    (links : scopes.Links realm.context realm.scope) : scopes.Nests realm := by
  obtain ⟨outer, own, above, below, inherits⟩ := links
  refine ⟨own, below, by simp [inherits.lineage], fun target member other => ⟨outer, above, ?_⟩⟩
  simpa [inherits.lineage, other] using member

theorem State.precedes_start {limiter : Limiter} (nobody : limiter.line = []) :
    (State.start limiter).Precedes (.start limiter) :=
  ⟨rfl, rfl, rfl, rfl, rfl, rfl, rfl, fun _ _ => rfl, nobody⟩

namespace Occasion

def moves (occasion : Occasion) (steps : List (String × Script)) : List Move :=
  occasion.before ++ .openCall occasion.context steps :: occasion.after

/-- Calls work on contexts, and only contexts are canceled from outside. Workers take their turns in
line, time passes when it can, and nobody ever has to wait for a slot. -/
structure Peaceful (occasion : Occasion) (steps : List (String × Script)) : Prop where
  limiter : ∃ requested, occasion.limiter = .new requested
  follows : (State.start occasion.limiter).Follows (occasion.moves steps)
  apart : (State.start occasion.limiter).StaysApart (occasion.moves steps)
  free : (State.start occasion.limiter).NeverQueues (occasion.moves steps)

def realm (occasion : Occasion) (steps : List (String × Script)) : Realm :=
  occasion.opening.state.newRealm occasion.context steps.length

/-- What is left of the occasion without other calls. -/
def alone (occasion : Occasion) (steps : List (String × Script)) : Occasion where
  limiter := occasion.limiter
  before := occasion.before.filterMap (occasion.realm steps).image
  context := occasion.context
  after := occasion.after.filterMap (occasion.realm steps).image

variable {occasion : Occasion} {steps : List (String × Script)}

theorem state_opening (occasion : Occasion) :
    occasion.opening.state = (State.start occasion.limiter).play occasion.before :=
  History.state_play _ _

theorem Peaceful.nobody (peaceful : occasion.Peaceful steps) : occasion.limiter.line = [] := by
  obtain ⟨requested, limiter⟩ := peaceful.limiter
  rw [limiter]
  rfl

theorem Peaceful.parts (peaceful : occasion.Peaceful steps) :
    ((State.start occasion.limiter).Follows occasion.before ∧
      (State.start occasion.limiter).StaysApart occasion.before) ∧
    (occasion.opening.state.Allows (.openCall occasion.context steps) ∧
      occasion.opening.state.KeepsApart (.openCall occasion.context steps) ∧
      occasion.opening.state.limiter.line = []) ∧
    (occasion.opened steps).state.Follows occasion.after ∧
      (occasion.opened steps).state.StaysApart occasion.after ∧
      (occasion.opened steps).state.NeverQueues occasion.after := by
  obtain ⟨follows, known, continued⟩ := (State.follows_append _ _ _).mp peaceful.follows
  obtain ⟨stays, outside, stayed⟩ := (State.staysApart_append _ _ _).mp peaceful.apart
  obtain ⟨line, never⟩ := State.NeverQueues.of_append peaceful.free
  rw [← state_opening] at known continued outside stayed line never
  exact ⟨⟨follows, stays⟩, ⟨known, outside, line⟩, continued, stayed, never⟩

theorem Peaceful.hosted (peaceful : occasion.Peaceful steps) (nonempty : steps ≠ [])
    (blind : ∀ step ∈ steps, ∀ action ∈ step.2, action.isBlind = true) :
    Hosted (occasion.opened steps) (occasion.realm steps) steps occasion.limiter.capacity := by
  obtain ⟨⟨follows, stays⟩, ⟨allowed, apart, _⟩, _⟩ := peaceful.parts
  obtain ⟨requested, limiter⟩ := peaceful.limiter
  have wired := (History.sound_start occasion.limiter).wired
  have opened := State.opened_openCall occasion.opening.state occasion.context steps
  have balanced := (State.balanced_start (by rw [limiter]; rfl) peaceful.nobody).play
    occasion.before
  have separate := (State.separate_start occasion.limiter).play stays
  have housed := (State.housed_start occasion.limiter).play wired stays
  have exposed := (State.exposed_start occasion.limiter).play follows stays
  rw [← state_opening] at balanced separate housed exposed
  refine
    { sound := occasion.sound_opening.add _
      separate := separate.apply apart
      housed := housed.apply occasion.sound_opening.wired apart
      exposed := exposed.apply allowed apart
      nests := Scopes.Links.nests ?_
      bound := ?_
      balanced := State.balanced_apply balanced _
      blind := fun position _ task found => ?_
      call := ⟨_, occasion.sound_opening.tracks_openCall occasion.context nonempty, rfl, rfl, rfl⟩ }
  · have links := (Scopes.agrees_derive allowed).links
    rw [← opened.scopes] at links
    exact links
  · have counted := congrArg List.length opened.tasks
    simp only [List.length_append, State.stepTasks, List.length_mapIdx, List.length_map] at counted
    exact Nat.le_of_eq counted.symm
  · have stored : (occasion.opened steps).state.tasks = _ := opened.tasks
    rw [stored] at found
    change (_ ++ _)[occasion.opening.state.tasks.length + position]? = some task at found
    rw [List.getElem?_append_right (Nat.le_add_right _ _), Nat.add_sub_cancel_left,
      State.getElem?_stepTasks] at found
    obtain ⟨script, placed, rfl⟩ := Option.map_eq_some_iff.mp found
    obtain ⟨step, member, rfl⟩ := List.mem_map.mp (List.mem_of_getElem? placed)
    exact blind step member

theorem Peaceful.precedes (peaceful : occasion.Peaceful steps) :
    (State.start occasion.limiter).Follows (occasion.alone steps).before ∧
      occasion.opening.state.Precedes (occasion.alone steps).opening.state := by
  obtain ⟨⟨follows, stays⟩, _⟩ := peaceful.parts
  have wired := (History.sound_start occasion.limiter).wired
  have fresh (worker : Worker)
      (here : ((State.start occasion.limiter).play occasion.before).Has worker) :
      (occasion.realm steps).worker? worker = none := by
    rw [← state_opening] at here
    exact State.worker?_of_has here
  have played := (State.precedes_start peaceful.nobody).play
    (State.separate_start occasion.limiter) (State.closed_start peaceful.nobody) wired fresh follows
    stays
  rw [← state_opening] at played
  exact ⟨played.1, (state_opening (occasion.alone steps)).symm ▸ played.2⟩

/-- What is left of the occasion is a run, and in it the call mirrors itself. -/
theorem Peaceful.mirrors (peaceful : occasion.Peaceful steps) (nonempty : steps ≠ [])
    (blind : ∀ step ∈ steps, ∀ action ∈ step.2, action.isBlind = true) :
    (State.start occasion.limiter).Follows ((occasion.alone steps).moves steps) ∧
      (occasion.history steps).state.Mirrors (occasion.realm steps)
        ((occasion.alone steps).history steps).state := by
  obtain ⟨⟨follows, stays⟩, ⟨allowed, apart, line⟩, continued, stayed, never⟩ := peaceful.parts
  obtain ⟨requested, limiter⟩ := peaceful.limiter
  obtain ⟨follows', precedes⟩ := peaceful.precedes
  have whole := State.balanced_start (by rw [limiter]; rfl) peaceful.nobody
  have balanced := whole.play occasion.before
  have balanced' := whole.play (occasion.alone steps).before
  have opening' : (occasion.alone steps).opening.state =
      (State.start occasion.limiter).play (occasion.alone steps).before := state_opening _
  have closed := (State.closed_start peaceful.nobody).play
    (History.sound_start occasion.limiter).wired follows
  rw [← state_opening] at balanced closed
  rw [← opening'] at balanced'
  have within := State.within_of_balanced balanced balanced' line precedes.limiter
    (by simp [precedes.tasks, sumOf])
  have opened : (occasion.opened steps).state.Mirrors (occasion.realm steps)
      ((occasion.alone steps).opened steps).state := precedes.openCall closed within apart steps
  obtain ⟨follows_on, mirrors⟩ := (peaceful.hosted nonempty blind).mirrors_play opened
    (State.balanced_apply balanced' (.openCall occasion.context steps)) continued stayed never
  constructor
  · refine (State.follows_append _ _ _).mpr ⟨follows', ?_⟩
    rw [← opening']
    exact ⟨Nat.lt_of_lt_of_eq allowed precedes.size.symm, follows_on⟩
  · rw [← play_opened, ← play_opened, History.state_play, History.state_play]
    exact mirrors

theorem Peaceful.confines (peaceful : occasion.Peaceful steps) {first rest : List Move} {move : Move}
    (split : occasion.moves steps = first ++ move :: rest) (other : ∀ target, move ≠ .cancel target)
    (still : ∀ time, move ≠ .jump time) :
    ((State.start occasion.limiter).play first).Confines move := by
  have wired := (History.sound_start occasion.limiter).wired
  have follows := ((State.follows_append _ _ _).mp (split ▸ peaceful.follows)).1
  have stays := ((State.staysApart_append _ _ _).mp (split ▸ peaceful.apart)).1
  exact ((State.separate_start occasion.limiter).play stays).confines
    ((State.housed_start occasion.limiter).play wired stays)
    ((State.exposed_start occasion.limiter).play follows stays) other still

end Occasion

end Schedule

open Schedule

/-- If nobody ever has to wait for a slot, a call whose bodies do not ask how many slots are free
reports and ends among others as it would alone: what is left of the run without the other calls is a
run in which the call is opened at the same time, and it returns at the same time with the same
report. And no worker, nor anybody who opens a call or gives one up, ends a scope other than that of
its own call, for which it takes a failure of that call or a body that cancels the scope. -/
theorem Pipeline.calls_isolated {ρ : Type} (pipeline : Pipeline ρ) (request : ρ)
    (occasion : Occasion) (peaceful : occasion.Peaceful (pipeline.scripts request))
    (blind : ∀ step ∈ pipeline.scripts request, ∀ action ∈ step.2, action.isBlind = true) :
    let steps := pipeline.scripts request
    let alone := occasion.alone steps
    ((State.start alone.limiter).Follows (alone.moves steps) ∧
      ∃ joint only, occasion.call? steps = some joint ∧
        (alone.history steps).state.calls = [only] ∧
        alone.opening.state.clock = occasion.opening.state.clock ∧
        only.started = joint.started ∧ only.tally.report = joint.tally.report ∧
        only.aborted = joint.aborted ∧ only.ended = joint.ended) ∧
    ∀ (first rest : List Move) (move : Move), occasion.moves steps = first ++ move :: rest →
      (∀ target, move ≠ .cancel target) → (∀ time, move ≠ .jump time) →
        ((State.start occasion.limiter).play first).Confines move := by
  intro steps alone
  have nonempty : steps ≠ [] := by simpa [steps, Pipeline.scripts] using pipeline.nonempty
  obtain ⟨follows, mirrors⟩ := peaceful.mirrors nonempty blind
  obtain ⟨_, precedes⟩ := peaceful.precedes
  obtain ⟨call, tracks, _⟩ := occasion.exists_tracks nonempty
  have found : (occasion.history steps).state.calls[(occasion.realm steps).call]? = some call :=
    tracks.found
  refine ⟨⟨follows, call, (occasion.realm steps).inside call, found, ?_, precedes.clock, rfl, rfl,
    rfl, rfl⟩, fun first rest move split other still => peaceful.confines split other still⟩
  exact mirrors.calls_eq found

def Pipeline.pair : Pipeline Unit where
  steps :=
    [{ name := "left", body := fun _ => [.acquire, .wait 10, .release], named := by decide },
      { name := "right", body := fun _ => [.wait 20, .fail (.other (.plain "late"))]
        named := by decide }]
  nonempty := by decide
  distinct := by decide

/-- One call fails before the pair has come far, and another is opened later and given up. -/
def Schedule.Occasion.crowded : Occasion where
  limiter := .new 2
  before :=
    [.addBackground, .derive 0 none, .derive 0 (some 50),
      .openCall 1 [("failing", [.acquire, .wait 5, .fail (.other (.plain "early"))])]]
  context := 2
  after :=
    [.turn (.task 0), .turn (.task 1), .turn (.task 2), .jump 5, .turn (.task 0), .turn (.call 0),
      .openCall 1 [("dropped", [.acquire, .wait 100])], .turn (.task 3), .abortCall 2,
      .turn (.task 3), .jump 10, .turn (.task 1), .turn (.call 1), .jump 20, .turn (.task 2),
      .turn (.call 1)]

theorem Pipeline.calls_isolated_crowded :
    ∃ only, ((Occasion.crowded.alone (Pipeline.pair.scripts ())).history
        (Pipeline.pair.scripts ())).state.calls = [only] ∧
      only.ended = some (20, none) ∧
      only.tally.report.steps.map StepReport.verdict =
        [("left", .ok, ""), ("right", .error, "")] := by
  have peaceful : Occasion.crowded.Peaceful (Pipeline.pair.scripts ()) :=
    ⟨⟨2, rfl⟩, by decide +kernel, by decide +kernel, by decide +kernel⟩
  obtain ⟨⟨_, joint, only, found, alone, _, _, report, _, ended⟩, _⟩ :=
    Pipeline.pair.calls_isolated () .crowded peaceful (by decide)
  refine ⟨only, alone, ?_, ?_⟩
  · have time : (Occasion.crowded.call? (Pipeline.pair.scripts ())).map Call.ended =
        some (some (20, none)) := by decide +kernel
    rw [found, Option.map_some, Option.some.injEq] at time
    rw [ended, time]
  · have verdicts : (Occasion.crowded.call? (Pipeline.pair.scripts ())).map
        (fun call => call.tally.report.steps.map StepReport.verdict) =
          some [("left", .ok, ""), ("right", .error, "")] := by decide +kernel
    rw [found, Option.map_some, Option.some.injEq] at verdicts
    rw [report, verdicts]

/-- Takes a slot, and fails if it was the last. -/
def Pipeline.wary : Pipeline Unit where
  steps :=
    [{ name := "only"
       body := fun _ => [.acquire, .require 1 (.other (.plain "the last slot")), .wait 10]
       named := by decide }]
  nonempty := by decide
  distinct := by decide

/-- Another call of the same kind has taken one of the two slots. -/
def Schedule.Occasion.second : Occasion where
  limiter := .new 2
  before :=
    [.addBackground, .derive 0 none, .derive 0 none, .openCall 1 (Pipeline.wary.scripts ()),
      .turn (.task 0)]
  context := 2
  after := [.turn (.task 1), .turn (.call 1)]

def Schedule.Occasion.single : Occasion :=
  { Occasion.second.alone (Pipeline.wary.scripts ()) with
    after := [.turn (.task 0), .jump 10, .turn (.task 0), .turn (.call 0)] }

def Pipeline.hasty : Pipeline Unit where
  steps :=
    [{ name := "quitter", body := fun _ => [.cancel], named := by decide },
      { name := "bystander", body := fun _ => [.wait 10], named := by decide }]
  nonempty := by decide
  distinct := by decide

def Schedule.Occasion.hasty : Occasion where
  limiter := .new 5
  before := [.addBackground, .derive 0 none]
  context := 1
  after := [.turn (.task 0), .turn (.task 1), .turn (.call 0)]

/-- Though nobody has to wait for a slot, whoever asks how many are free knows of other calls. And a
body that cancels its scope ends its call when none of the steps has failed. -/
theorem Pipeline.calls_not_isolated :
    let result (call : Call) := (call.ended, call.tally.report.steps.map StepReport.verdict)
    (Occasion.second.Peaceful (Pipeline.wary.scripts ()) ∧
      (Occasion.second.call? (Pipeline.wary.scripts ())).map result =
        some (some (0, none), [("only", .error, "")]) ∧
      (Occasion.single.call? (Pipeline.wary.scripts ())).map result =
        some (some (10, none), [("only", .ok, "")])) ∧
    let steps := Pipeline.hasty.scripts ()
    let early := (Occasion.hasty.opened steps).state.play [.turn (.task 0)]
    (∀ task ∈ early.tasks, task.life.outcome?.all Option.isNone = true) ∧
      early.isCanceled 2 = true ∧
      (Occasion.hasty.call? steps).map result =
        some (some (0, none), [("quitter", .ok, ""), ("bystander", .canceled, "")]) := by
  refine ⟨⟨⟨⟨2, rfl⟩, ?_, ?_, ?_⟩, ?_, ?_⟩, ?_, ?_, ?_⟩ <;> decide +kernel

end OrderDesk
