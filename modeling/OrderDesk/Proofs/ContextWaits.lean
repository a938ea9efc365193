import Mathlib.Data.Nat.Find
import Mathlib.Order.Bounds.Defs
import OrderDesk.Proofs.BusyTasks
import OrderDesk.Proofs.Holdings
import OrderDesk.Proofs.Promptness

/-! Looking at a scope and waiting for it agree. A vigil is a task of its own that waits once: for a
time, for a slot, or for nothing but the end of its scope. While anything else happens it attends to
its scope, so nobody is in line only when every scope that is kept vigil in is open. A vigil that
gives way to the end of its scope finds the cause that everybody finds in that instant, and does so
as soon as the scope has ended, or as soon as it begins. And what it waited for it gets only while
the scope is open, unless it waited for no time at all. -/

namespace OrderDesk.Schedule

/-- The ways to wait that give way to the end of the scope. -/
def Action.isVigil : Action → Bool
  | .wait _ | .acquire | .done => true
  | _ => false

theorem Action.asks_of_isVigil {action : Action} (kind : action.isVigil = true) :
    action.asks true = true := by
  cases action <;> first | rfl | cases kind

inductive Action.Concludes (action : Action) (started now : Nat) (cause? : Option Cause) :
    Outcome → Prop
  | refused (cause : Cause) (found : cause? = some cause) (lasting : action ≠ .wait 0) :
      action.Concludes started now cause? (some (.cancelled cause))
  | passed (nothing : action = .wait 0) (same : now = started) :
      action.Concludes started now cause? none
  | elapsed (millis : Nat) (waits : action = .wait millis) (due : now = started + millis)
      (opened : cause? = none) : action.Concludes started now cause? none
  | granted (acquires : action = .acquire) (opened : cause? = none) :
      action.Concludes started now cause? none

structure Task.Pends (task : Task) (scope : ScopeId) (started : Nat) (action : Action) : Prop where
  live : task.life = .live
  loose : task.duty = none
  place : task.scope = scope
  since : task.started = started
  script : task.script = [action]
  nothing : task.slots = 0

namespace State

variable {state origin : State} {id : TaskId} {scope : ScopeId} {action : Action} {started : Nat}
  {task next : Task}

/-- What a task hears of the end of its scope, whether it has waited for it or begins to. -/
def hears (state : State) (id : TaskId) (task : Task) : Option Cause :=
  if task.waits then state.done? id task.scope else state.doneAtOnce? task.scope

structure Wakes (state : State) (id : TaskId) (task : Task) (due : Nat) : Prop where
  wake : task.wake = some due
  soon : state.clock ≤ due
  alarms : state.Alarms id task

/-- Where a vigil stands: it is going to begin at once, or it attends to its scope, and to the time
that it waits for. -/
inductive Vigil (state : State) (id : TaskId) (scope : ScopeId) (started : Nat) (action : Action)
    (task : Task) : Prop
  | fresh (idle : task.waits = false) (inLine : .task id ∈ state.ready)
      (clock : state.clock = started) (known : scope < state.scopes.length)
  | waiting (waits : task.waits = true) (lasting : action ≠ .wait 0)
      (attends : state.Attends id scope)
      (wakes : ∀ millis, action = .wait millis → state.Wakes id task (started + millis))

def Decides (before after : State) (id : TaskId) (scope : ScopeId) (started : Nat) (action : Action) :
    Prop :=
  ∃ next, after.tasks[id]? = some next ∧
    (next.Pends scope started action ∧ after.Vigil id scope started action next ∨
      ∃ outcome,
        next.life = .ended before.clock (.returned (before.clock - started) outcome) ∧
        action.Concludes started before.clock (before.cause? scope) outcome)

theorem decides_finish {after : State} (bound : id < after.tasks.length)
    (loose : task.duty = none) (since : task.started = started)
    (clock : after.clock = state.clock) {outcome : Outcome}
    (concludes : action.Concludes started state.clock (state.cause? scope) outcome) :
    state.Decides (after.finish id task (after.returned task outcome)) id scope started action := by
  refine ⟨_, found_finish bound loose _, .inr ⟨outcome, ?_, concludes⟩⟩
  simp only [returned, clock, since]

theorem wakes_of_armed {due : Nat} (live : task.life = .live) (waits : task.waits = true)
    (wake : task.wake = some due) (early : state.clock < due) (armed : ⟨due, id⟩ ∈ state.timers) :
    state.Wakes id task due := by
  refine ⟨wake, Nat.le_of_lt early, fun other busy => ?_⟩
  rw [stage_of_busy live waits wake] at busy
  cases busy
  exact ⟨fun _ => armed, fun late => absurd early (Nat.not_lt_of_le late)⟩

def Advance.Settles (before : State) (task : Task) (started : Nat) (action : Action)
    (waiting : State → Task → Prop) : Advance → Prop
  | .proceed _ _ => action.Concludes started before.clock (before.cause? task.scope) none
  | .stop after ending => ∃ outcome, ending = after.returned task outcome ∧
      action.Concludes started before.clock (before.cause? task.scope) outcome
  | .wait after next => waiting after next

theorem attempt_settles (state : State) (id : TaskId) (task : Task) (kind : action.isVigil = true)
    (clock : state.clock = started) :
    (state.attempt id task action).Settles state task started action fun after next =>
      action ≠ .wait 0 ∧ next.slots = task.slots ∧ ∀ millis, action = .wait millis →
        next.wake = some (started + millis) ∧ state.clock < started + millis ∧
          ⟨started + millis, id⟩ ∈ after.timers := by
  cases action <;> simp only [Action.isVigil, Bool.false_eq_true] at kind
  case wait millis =>
    simp only [attempt, stopWith, doneAtOnce?_eq]
    split
    · rename_i zero
      exact .passed (by rw [zero]) clock
    · rename_i positive
      split
      · rename_i cause ended
        exact ⟨_, rfl, .refused cause ended (by simpa using positive)⟩
      · refine ⟨by simpa using positive, rfl, ?_⟩
        intro time same
        obtain rfl := Action.wait.inj same
        rw [← clock]
        exact ⟨rfl, Nat.lt_add_of_pos_right (Nat.pos_of_ne_zero positive),
          List.mem_append_right _ List.mem_cons_self⟩
  case acquire =>
    simp only [attempt, stopWith, doneAtOnce?_eq, Option.or_self]
    split
    · rename_i cause ended
      exact ⟨_, rfl, .refused cause ended (by simp)⟩
    · split
      · exact .granted rfl ‹_›
      · exact ⟨by simp, rfl, by simp⟩
  case done =>
    simp only [attempt, stopWith, doneAtOnce?_eq]
    split
    · rename_i cause ended
      exact ⟨_, rfl, .refused cause ended (by simp)⟩
    · exact ⟨by simp, rfl, by simp⟩

theorem decides_perform (bound : id < state.tasks.length) (pends : task.Pends scope started action)
    (kind : action.isVigil = true) (clock : state.clock = started)
    (known : scope < state.scopes.length) :
    state.Decides (state.perform id task [action]) id scope started action := by
  obtain ⟨live, loose, rfl, since, script, nothing⟩ := pends
  have moves := attempt_moves state id task action
  have settles := attempt_settles state id task kind clock
  simp only [perform]
  cases attempted : state.attempt id task action with
  | proceed after next =>
      rw [attempted] at moves settles
      obtain ⟨stirs, continues⟩ := moves
      exact decides_finish (stirs.tasks ▸ bound) (continues.duty.trans loose)
        (continues.started.trans since) stirs.clock settles
  | stop after ending =>
      rw [attempted] at moves settles
      obtain ⟨outcome, rfl, concludes⟩ := settles
      exact decides_finish (moves.1.tasks ▸ bound) loose since moves.1.clock concludes
  | wait after next =>
      rw [attempted] at moves settles
      obtain ⟨stirs, continues, waits⟩ := moves
      obtain ⟨lasting, slots, timed⟩ := settles
      have alive : next.life = .live := continues.life.trans live
      have attends := attends_of_attempt attempted (Action.asks_of_isVigil kind) known
      refine ⟨_, List.getElem?_set_self (stirs.tasks ▸ bound), .inl ⟨⟨alive, ?_, ?_, ?_, rfl, ?_⟩,
        .waiting waits lasting ?_ fun millis same => ?_⟩⟩
      · exact continues.duty.trans loose
      · exact continues.scope
      · exact continues.started.trans since
      · exact slots.trans nothing
      · exact attends.minds ((Minds.refl _ id).of_eq rfl rfl rfl rfl rfl)
      · obtain ⟨wake, early, armed⟩ := timed millis same
        exact wakes_of_armed alive waits wake (stirs.clock ▸ early) armed

theorem resume_settles (state : State) (id : TaskId) (task : Task) (kind : action.isVigil = true)
    (lasting : action ≠ .wait 0) (told : state.done? id task.scope = state.cause? task.scope)
    (wakes : ∀ millis, action = .wait millis →
      task.wake = some (started + millis) ∧ state.clock ≤ started + millis) :
    (state.resume id task action).Settles state task started action fun _ _ =>
      state.cause? task.scope = none ∧
        ∀ millis, action = .wait millis → state.clock < started + millis := by
  cases action <;> simp only [Action.isVigil, Bool.false_eq_true] at kind
  case wait millis =>
    obtain ⟨set, soon⟩ := wakes millis rfl
    simp only [resume, stopWith, told, set, Option.any_some, decide_eq_true_eq]
    split
    · rename_i cause ended
      exact ⟨_, rfl, .refused cause ended lasting⟩
    · rename_i opened
      split
      · rename_i due
        exact .elapsed millis rfl (Nat.le_antisymm soon due) opened
      · rename_i early
        refine ⟨opened, ?_⟩
        intro time same
        obtain rfl := Action.wait.inj same
        exact Nat.lt_of_not_le early
  case acquire =>
    simp only [resume, stopWith, told]
    split
    · rename_i cause ended
      exact ⟨_, rfl, .refused cause ended lasting⟩
    · rename_i opened
      split
      · exact .granted rfl opened
      · exact ⟨opened, by simp⟩
  case done =>
    simp only [resume, stopWith, told]
    split
    · rename_i cause ended
      exact ⟨_, rfl, .refused cause ended lasting⟩
    · rename_i opened
      exact ⟨opened, by simp⟩

theorem decides_resume (punctual : state.Punctual)
    (found : state.tasks[id]? = some task) (pends : task.Pends scope started action)
    (kind : action.isVigil = true) (waits : task.waits = true) (lasting : action ≠ .wait 0)
    (attends : state.Attends id scope)
    (wakes : ∀ millis, action = .wait millis → state.Wakes id task (started + millis)) :
    state.Decides (State.runTask { state with ready := state.ready.erase (.task id) } id) id scope
      started action := by
  let popped : State := { state with ready := state.ready.erase (.task id) }
  have bound := (List.getElem?_eq_some_iff.mp found).1
  have present : popped.tasks[id]? = some task := found
  have whole := pends
  obtain ⟨live, loose, rfl, since, script, nothing⟩ := pends
  have moves := resume_moves popped id task action waits
  have told : popped.done? id task.scope = popped.cause? task.scope :=
    punctual.done?_eq attends.timed
  have settles := resume_settles popped id task kind lasting told fun millis same =>
    ⟨(wakes millis same).wake, (wakes millis same).soon⟩
  rw [runTask_of_waiting present live waits script]
  cases resumed : popped.resume id task action with
  | proceed after next =>
      rw [resumed] at moves settles
      obtain ⟨stirs, continues⟩ := moves
      exact decides_finish (stirs.tasks ▸ bound) (continues.duty.trans loose)
        (continues.started.trans since) stirs.clock settles
  | stop after ending =>
      rw [resumed] at moves settles
      obtain ⟨outcome, rfl, concludes⟩ := settles
      exact decides_finish (moves.1.tasks ▸ bound) loose since moves.1.clock concludes
  | wait after next =>
      rw [resumed] at settles
      obtain ⟨opened, early⟩ := settles
      have attending : popped.Attends id task.scope :=
        ⟨attends.known, attends.listens, attends.timed, fun ended => by simp [opened] at ended⟩
      refine ⟨task, found, .inl ⟨whole, .waiting waits lasting attending fun millis same => ?_⟩⟩
      have before := early millis same
      have armed := (wakes millis same).alarms _ (stage_of_busy live waits (wakes millis same).wake)
      exact wakes_of_armed live waits (wakes millis same).wake before (armed.1 before)

theorem bides_apply (state : State) {move : Move} (foreign : move ≠ .turn (.task id))
    (still : ∀ time, move ≠ .jump time) : state.Bides id (state.apply move) := by
  cases move with
  | addBackground => exact (minds_append state _ id).bides
  | derive parent deadline => exact (minds_derive state parent deadline id).bides
  | cancel target => exact bides_cancelScope state target id
  | openCall context steps => exact (minds_openCall state context steps id).bides
  | abortCall call => exact (minds_abortCall state call id).bides
  | spawn target script => exact (minds_spawn state target none script id).bides
  | doom other =>
      simp only [State.apply]
      split
      · exact (minds_doom state other id).bides
      · exact .refl state id
  | release other =>
      simp only [State.apply]
      split
      · exact (minds_release state other id).bides
      · exact .refl state id
  | turn worker => exact bides_turn state fun same => foreign (same ▸ rfl)
  | jump time => exact (still time rfl).elim

theorem apply_jump_of_ready {worker : Worker} (inLine : worker ∈ state.ready) (time : Nat) :
    state.apply (.jump time) = state := by
  refine if_neg fun possible => ?_
  simp only [canJump, Bool.and_eq_true, List.isEmpty_iff] at possible
  simp [possible.1] at inLine

theorem apply_release_of_nothing (found : state.tasks[id]? = some task) (nothing : task.slots = 0) :
    state.apply (.release id) = state := by
  simp only [State.apply]
  split
  · simp only [release, found, nothing, if_true]
  · rfl

theorem Wakes.jump {due : Nat} (wakes : state.Wakes id task due) (live : task.life = .live)
    (waits : task.waits = true) {time : Nat} (possible : state.canJump time = true) :
    (state.jump time).Wakes id task due := by
  refine ⟨wakes.wake, ?_, wakes.alarms.jump possible⟩
  obtain ⟨armed, told⟩ := wakes.alarms due (stage_of_busy live waits wakes.wake)
  obtain ⟨quiet, none_skipped⟩ : state.ready = [] ∧ ∀ timer ∈ state.timers, time ≤ timer.due := by
    simpa [canJump] using possible
  rw [clock_jump]
  rcases Nat.lt_or_ge state.clock due with early | late
  · exact Nat.max_le.mpr ⟨wakes.soon, none_skipped _ (armed early)⟩
  · have inLine := told late
    simp [quiet] at inLine

theorem Wakes.apply {due : Nat} (wakes : state.Wakes id task due) (live : task.life = .live)
    (waits : task.waits = true) {move : Move} (foreign : move ≠ .turn (.task id)) :
    (state.apply move).Wakes id task due := by
  by_cases jumps : ∃ time, move = .jump time
  · obtain ⟨time, rfl⟩ := jumps
    simp only [State.apply]
    split
    · exact wakes.jump live waits ‹_›
    · exact wakes
  · have bides := bides_apply state foreign fun time same => jumps ⟨time, same⟩
    exact ⟨wakes.wake, bides.clock ▸ wakes.soon, wakes.alarms.bides bides⟩

theorem Vigil.apply (vigil : state.Vigil id scope started action task) (live : task.life = .live)
    {move : Move} (foreign : move ≠ .turn (.task id)) :
    (state.apply move).Vigil id scope started action task := by
  cases vigil with
  | waiting waits lasting attends wakes =>
      exact .waiting waits lasting (attends.apply foreign) fun millis same =>
        (wakes millis same).apply live waits foreign
  | fresh idle inLine clock known =>
      by_cases jumps : ∃ time, move = .jump time
      · obtain ⟨time, rfl⟩ := jumps
        rw [apply_jump_of_ready inLine]
        exact .fresh idle inLine clock known
      · have bides := bides_apply state foreign fun time same => jumps ⟨time, same⟩
        exact .fresh idle (bides.ready inLine) (bides.clock.trans clock)
          (Nat.lt_of_lt_of_le known (apply_extends state move).length_le)

theorem Vigil.turn (vigil : state.Vigil id scope started action task) (punctual : state.Punctual)
    (found : state.tasks[id]? = some task) (pends : task.Pends scope started action)
    (kind : action.isVigil = true) (inLine : .task id ∈ state.ready) :
    state.Decides (state.apply (.turn (.task id))) id scope started action := by
  simp only [State.apply, if_pos inLine, run]
  cases vigil with
  | fresh idle _ clock known =>
      let popped : State := { state with ready := state.ready.erase (.task id) }
      have bound : id < popped.tasks.length := (List.getElem?_eq_some_iff.mp found).1
      have first : popped.Decides (popped.perform id task [action]) id scope started action :=
        decides_perform bound pends kind clock known
      simp only [runTask, found, pends.live, idle, pends.script]
      exact first
  | waiting waits lasting attends wakes =>
      exact decides_resume punctual found pends kind waits lasting attends wakes

/-- The times by which a scope has ended in a run, as everybody sees it who looks at it. -/
def endedBy (origin : State) (moves : List Move) (scope : ScopeId) : Set Nat :=
  {now | ∃ first rest, moves = first ++ rest ∧ (origin.play first).clock ≤ now ∧
    ((origin.play first).scopes.cause? scope now).isSome = true}

/-- From the time `started` on the scope has not ended before the present. -/
def HeldOpen (origin : State) (moves : List Move) (scope : ScopeId) (started : Nat) : Prop :=
  ∀ now ∈ origin.endedBy moves scope, started ≤ now → (origin.play moves).clock ≤ now

theorem clock_le_play (state : State) (moves : List Move) :
    state.clock ≤ (state.play moves).clock := by
  induction moves generalizing state with
  | nil => exact Nat.le_refl _
  | cons move moves ih => exact Nat.le_trans (clock_le_apply state move) (ih (state.apply move))

theorem mem_endedBy_of_le {moves : List Move} {now later : Nat}
    (member : now ∈ origin.endedBy moves scope) (order : now ≤ later) :
    later ∈ origin.endedBy moves scope := by
  obtain ⟨first, rest, split, clock, ended⟩ := member
  exact ⟨first, rest, split, Nat.le_trans clock order,
    (Scopes.Extends.refl _).cause_isSome order ended⟩

theorem mem_endedBy_append {moves more : List Move} {now : Nat}
    (member : now ∈ origin.endedBy (moves ++ more) scope)
    (early : now < (origin.play moves).clock) : now ∈ origin.endedBy moves scope := by
  obtain ⟨first, rest, split, clock, ended⟩ := member
  rcases List.append_eq_append_iff.mp split with ⟨middle, same, _⟩ | ⟨middle, same, _⟩
  · rw [same, play_append] at clock
    have later := clock_le_play (origin.play moves) middle
    omega
  · exact ⟨first, middle, same, clock, ended⟩

/-- Time passes only over times at which the scope of a vigil is open: if it passed up to one of them
only, nobody would be woken. -/
theorem cause_of_jump {time now : Nat} (attends : state.Attends id scope)
    (possible : state.canJump time = true) (soon : state.clock ≤ now) (early : now < time) :
    state.scopes.cause? scope now = none := by
  obtain ⟨quiet, none_skipped⟩ : state.ready = [] ∧ ∀ timer ∈ state.timers, time ≤ timer.due := by
    simpa [canJump] using possible
  have sooner : state.canJump now = true := by
    simp only [canJump, Bool.and_eq_true, List.isEmpty_iff, List.all_eq_true, decide_eq_true_eq]
    exact ⟨quiet, fun timer member =>
      Nat.le_of_lt (Nat.lt_of_lt_of_le early (none_skipped timer member))⟩
  have nobody : (state.jump now).ready = [] := by
    have none_due : (state.timers.filter fun timer => timer.due ≤ now) = [] := by
      refine List.filter_eq_nil_iff.mpr fun timer member due => ?_
      have later := none_skipped timer member
      simp only [decide_eq_true_eq] at due
      omega
    simp only [jump, none_due]
    exact quiet
  have alert := (attends.jump sooner).alert
  rw [cause?, scopes_jump, clock_jump, Nat.max_eq_right soon, nobody] at alert
  cases ended : state.scopes.cause? scope now with
  | none => rfl
  | some cause => simp [ended] at alert

theorem HeldOpen.append {moves : List Move} (held : origin.HeldOpen moves scope started)
    (move : Move)
    (jumps : (origin.play moves).ready = [] → (origin.play moves).Attends id scope) :
    origin.HeldOpen (moves ++ [move]) scope started := by
  rintro now ⟨first, rest, split, clock, ended⟩ late
  have reached : origin.play (moves ++ [move]) = (origin.play moves).apply move := play_append ..
  rcases List.eq_nil_or_concat rest with rfl | ⟨rest, last, rfl⟩
  · rw [split, List.append_nil]
    exact clock
  · rw [List.concat_eq_append, ← List.append_assoc] at split
    obtain ⟨rfl, _⟩ := List.append_inj' split rfl
    have present := held now ⟨first, rest, rfl, clock, ended⟩ late
    rw [reached]
    rcases clock_apply (origin.play (first ++ rest)) move with same | ⟨time, _, possible, moved⟩
    · exact same ▸ present
    · have quiet : (origin.play (first ++ rest)).ready = [] := by
        simp only [canJump, Bool.and_eq_true, List.isEmpty_iff] at possible
        exact possible.1
      rw [moved]
      by_contra early
      have opened := cause_of_jump (jumps quiet) possible present (by omega)
      have still := (play_extends (origin.play first) rest).cause_isSome (Nat.le_refl now) ended
      rw [← play_append, opened] at still
      cases still

theorem deadline_of_extends {before after : Scopes} (grows : before.Extends after)
    (known : scope < before.length) : after.deadline? scope = before.deadline? scope := by
  obtain ⟨later, found, _, same, _⟩ := grows scope _ (List.getElem?_eq_getElem known)
  simp [Scopes.deadline?, found, List.getElem?_eq_getElem known, same]

/-- To let time pass is to make moves. The clock stops on its way at every timer. -/
theorem exists_play_of_advanceTo (state : State) (time : Nat) :
    ∃ moves, state.play moves = state.advanceTo time ∧
      ∀ move ∈ moves, (∃ worker, move = .turn worker) ∨ ∃ time, move = .jump time := by
  obtain ⟨moves, _, reached, kinds⟩ := exists_follows_of_settle (some time) state
  obtain ⟨quiet, later⟩ := clear_of_tick (tick_settle (some time) state)
  let settled := state.settle (some time)
  have possible : settled.canJump time = true := by
    simp only [canJump, Bool.and_eq_true, List.isEmpty_iff, List.all_eq_true, decide_eq_true_eq]
    exact ⟨quiet, fun timer member => Nat.le_of_lt (later timer member)⟩
  have none_due : (settled.timers.filter fun timer => timer.due ≤ time) = [] :=
    List.filter_eq_nil_iff.mpr fun timer member => by simpa using later timer member
  have all_left : (settled.timers.filter fun timer => !(timer.due ≤ time)) = settled.timers :=
    List.filter_eq_self.mpr fun timer member => by simpa using later timer member
  refine ⟨moves ++ [.jump time], ?_, ?_⟩
  · rw [play_append, reached, play_cons, play_nil, apply, if_pos possible, jump, none_due, all_left]
    rfl
  · intro move member
    rcases List.mem_append.mp member with old | new
    · exact kinds move old
    · exact .inr ⟨time, List.mem_singleton.mp new⟩

structure EndsAfter (opened : State) (id : TaskId) (moves first : List Move) (time : Nat)
    (ending : Ending) : Prop where
  turn : ∃ rest, moves = first ++ .turn (.task id) :: rest
  clock : (opened.play first).clock = time
  before : ∃ task, (opened.play first).tasks[id]? = some task ∧ task.life = .live
  after : ∃ task, ((opened.play first).apply (.turn (.task id))).tasks[id]? = some task ∧
    task.life = .ended time ending

theorem EndsAfter.append {opened : State} {moves first : List Move} {time : Nat} {ending : Ending}
    (ends : opened.EndsAfter id moves first time ending) (more : List Move) :
    opened.EndsAfter id (moves ++ more) first time ending := by
  obtain ⟨⟨rest, split⟩, clock, before, after⟩ := ends
  exact ⟨⟨rest ++ more, by simp [split]⟩, clock, before, after⟩

/-- What has become of a vigil that was opened after the moves `told` and then saw the moves
`since`. -/
inductive Fate (origin : State) (told since : List Move) (id : TaskId) (scope : ScopeId)
    (started : Nat) (action : Action) (task : Task) : Prop
  | pending (pends : task.Pends scope started action)
      (vigil : (origin.play (told ++ since)).Vigil id scope started action task)
      (held : origin.HeldOpen (told ++ since) scope started)
  | ended (first : List Move) (time : Nat) (outcome : Outcome)
      (life : task.life = .ended time (.returned (time - started) outcome))
      (ends : (origin.play told).EndsAfter id since first time (.returned (time - started) outcome))
      (concludes : action.Concludes started time ((origin.play (told ++ first)).cause? scope) outcome)
      (held : origin.HeldOpen (told ++ first) scope started)
  | lost (life : task.life = .doomed ∨ task.life = .dropped) (told : .doom id ∈ since)

theorem Vigil.attends_of_quiet (vigil : state.Vigil id scope started action task)
    (quiet : state.ready = []) : state.Attends id scope := by
  cases vigil with
  | fresh _ inLine _ _ => simp [quiet] at inLine
  | waiting _ _ attends _ => exact attends

/-- What a move makes of a vigil: it goes on, or its turn decides, or it is told to drop
everything. -/
theorem Vigil.step (vigil : state.Vigil id scope started action task)
    (found : state.tasks[id]? = some task) (pends : task.Pends scope started action)
    (wired : state.Wired) (punctual : state.Punctual) (kind : action.isVigil = true) (move : Move) :
    (∃ next, (state.apply move).tasks[id]? = some next ∧ next.Pends scope started action ∧
        (state.apply move).Vigil id scope started action next) ∨
      (move = .turn (.task id) ∧ state.Decides (state.apply move) id scope started action) ∨
      move = .doom id ∧ ∃ next, (state.apply move).tasks[id]? = some next ∧ next.life = .doomed := by
  by_cases turn : move = .turn (.task id)
  · subst turn
    by_cases inLine : .task id ∈ state.ready
    · exact .inr (.inl ⟨rfl, vigil.turn punctual found pends kind inLine⟩)
    · have same : state.apply (.turn (.task id)) = state := if_neg inLine
      rw [same]
      exact .inl ⟨task, found, pends, vigil⟩
  · by_cases doom : move = .doom id
    · subst doom
      have loose : state.isLoose id = true := by simp [isLoose, found, pends.loose]
      refine .inr (.inr ⟨rfl, { task with life := .doomed }, ?_, rfl⟩)
      simp only [State.apply, loose, if_true]
      exact ((doomed_doom state id).live id (List.mem_singleton.mpr rfl) task found pends.live).1
    · have goes := vigil.apply pends.live turn
      by_cases release : move = .release id
      · subst release
        have same := apply_release_of_nothing found pends.nothing
        exact .inl ⟨task, same.symm ▸ found, pends, goes⟩
      · exact .inl ⟨task, found_apply_other wired found turn release (.inl ⟨pends.loose, doom⟩),
          pends, goes⟩

theorem Fate.add {told since : List Move}
    (fate : Fate origin told since id scope started action task)
    (wired : (origin.play (told ++ since)).Wired) (punctual : (origin.play (told ++ since)).Punctual)
    (found : (origin.play (told ++ since)).tasks[id]? = some task) (kind : action.isVigil = true)
    (move : Move) :
    ∃ next, (origin.play (told ++ (since ++ [move]))).tasks[id]? = some next ∧
      Fate origin told (since ++ [move]) id scope started action next := by
  have reached : origin.play (told ++ (since ++ [move])) =
      (origin.play (told ++ since)).apply move := by
    rw [← List.append_assoc, play_append]
    rfl
  obtain ⟨next, becomes⟩ := exists_becomes wired move found
  cases fate with
  | ended first time outcome life ends concludes held =>
      refine ⟨next, reached ▸ becomes.found, .ended first time outcome ?_ (ends.append [move])
        concludes held⟩
      exact becomes.evolves.life_of_ended life
  | lost life dooms =>
      have gone := becomes.evolves.lost life
      exact ⟨next, reached ▸ becomes.found, .lost gone (List.mem_append_left _ dooms)⟩
  | pending pends vigil held =>
      have held' := held.append move vigil.attends_of_quiet
      rw [List.append_assoc] at held'
      rw [reached]
      rcases vigil.step found pends wired punctual kind move with
        ⟨next, there, still, goes⟩ | ⟨rfl, next, there, decided⟩ | ⟨rfl, next, there, life⟩
      · exact ⟨next, there, .pending still (reached ▸ goes) held'⟩
      · rcases decided with ⟨still, goes⟩ | ⟨outcome, life, concludes⟩
        · exact ⟨next, there, .pending still (reached ▸ goes) held'⟩
        · have now : (origin.play told).play since = origin.play (told ++ since) :=
            (play_append ..).symm
          refine ⟨next, there, .ended since _ outcome life ?_ concludes held⟩
          refine ⟨⟨[], rfl⟩, by rw [now], ⟨task, now ▸ found, pends.live⟩, ⟨next, now ▸ there, life⟩⟩
      · exact ⟨next, there, .lost (.inl life) (by simp)⟩

theorem Fate.play {told since : List Move}
    (fate : Fate origin told since id scope started action task)
    (wired : origin.Wired) (punctual : origin.Punctual)
    (found : (origin.play (told ++ since)).tasks[id]? = some task) (kind : action.isVigil = true)
    (moves : List Move) :
    ∃ next, (origin.play (told ++ (since ++ moves))).tasks[id]? = some next ∧
      Fate origin told (since ++ moves) id scope started action next := by
  induction moves generalizing since task with
  | nil => exact ⟨task, by simpa using found, by simpa using fate⟩
  | cons move moves ih =>
      obtain ⟨next, there, goes⟩ := fate.add (wired.play _) (punctual.play _) found kind move
      obtain ⟨last, here, ends⟩ := ih goes there
      exact ⟨last, by simpa using here, by simpa using ends⟩

/-- The scope of a vigil has first ended at the time at which the vigil gave way to it, unless it had
ended when the vigil began. -/
theorem exists_isLeast_endedBy {told first rest : List Move} {time : Nat} {cause : Cause}
    (held : origin.HeldOpen (told ++ first) scope started) (since : started ≤ time)
    (clock : (origin.play (told ++ first)).clock = time)
    (ended : (origin.play (told ++ first)).cause? scope = some cause) :
    ∃ instant, IsLeast (origin.endedBy (told ++ first ++ rest) scope) instant ∧
      time = max started instant := by
  classical
  have here : time ∈ origin.endedBy (told ++ first ++ rest) scope := by
    refine ⟨told ++ first, rest, rfl, Nat.le_of_eq clock, ?_⟩
    rw [← clock]
    exact Option.isSome_iff_exists.mpr ⟨cause, ended⟩
  have present : ∃ now, now ∈ origin.endedBy (told ++ first ++ rest) scope := ⟨time, here⟩
  have found := Nat.find_spec present
  have least : ∀ now ∈ origin.endedBy (told ++ first ++ rest) scope, Nat.find present ≤ now :=
    fun now member => Nat.find_min' present member
  refine ⟨Nat.find present, ⟨found, least⟩, Nat.le_antisymm ?_ ?_⟩
  · rcases Nat.lt_or_ge (Nat.find present) time with early | late
    · have before := mem_endedBy_append found (clock ▸ early)
      exact clock ▸ held _ (mem_endedBy_of_le before (Nat.le_max_right started _))
        (Nat.le_max_left started _)
    · exact Nat.le_trans late (Nat.le_max_right _ _)
  · exact Nat.max_le.mpr ⟨since, least time here⟩

theorem fate_opened (origin : State) (told : List Move)
    (known : scope < (origin.play told).scopes.length) :
    ∃ task, ((origin.play told).apply (.spawn scope [action])).tasks[(origin.play told).tasks.length]? =
        some task ∧
      Fate origin (told ++ [.spawn scope [action]]) [] (origin.play told).tasks.length scope
        (origin.play told).clock action task := by
  have reached : origin.play (told ++ [.spawn scope [action]] ++ []) =
      (origin.play told).apply (.spawn scope [action]) := by
    rw [List.append_nil, play_append]
    rfl
  have born := minds_spawn (origin.play told) scope none [action] (origin.play told).tasks.length
  refine ⟨Task.new scope none [action] (origin.play told).clock, by simp [State.apply, spawn],
    .pending ⟨rfl, rfl, rfl, rfl, rfl, rfl⟩ (.fresh rfl ?_ ?_ ?_) fun now _ late => ?_⟩
  · rw [reached]
    exact mem_ready_wake _ _
  · rw [reached]
    exact born.clock
  · rw [reached]
    exact Nat.lt_of_lt_of_le known (apply_extends _ _).length_le
  · rw [reached]
    exact Nat.le_trans (Nat.le_of_eq born.clock) late

/-! ## What a vigil shows -/

section

variable {told since : List Move}

/-- Nobody who keeps vigil misses the end of the scope. -/
theorem Fate.cause_of_quiet (fate : Fate origin told since id scope started action task)
    (quiet : (origin.play (told ++ since)).ready = []) (live : task.life = .live) :
    (origin.play (told ++ since)).cause? scope = none := by
  cases fate with
  | ended _ _ _ life _ _ _ => simp [life] at live
  | lost life _ => simp [live] at life
  | pending _ vigil _ =>
      have alert := (vigil.attends_of_quiet quiet).alert
      cases ended : (origin.play (told ++ since)).cause? scope with
      | none => rfl
      | some cause => simp [ended, quiet] at alert

/-- The race of a timer and a signal tells a vigil what the clock and the flag tell anybody. -/
theorem Fate.hears_eq (fate : Fate origin told since id scope started action task)
    (punctual : (origin.play (told ++ since)).Punctual) (live : task.life = .live) :
    (origin.play (told ++ since)).hears id task = (origin.play (told ++ since)).cause? scope := by
  cases fate with
  | ended _ _ _ life _ _ _ => simp [life] at live
  | lost life _ => simp [live] at life
  | pending pends vigil _ =>
      unfold hears
      rw [pends.place]
      cases vigil with
      | fresh idle _ _ _ =>
          rw [if_neg (by simp [idle])]
          exact doneAtOnce?_eq _ scope
      | waiting waits _ attends _ =>
          rw [if_pos waits]
          exact punctual.done?_eq attends.timed

structure Explained (origin : State) (told since first : List Move) (scope : ScopeId) (started time : Nat)
    (action : Action) (outcome : Outcome) : Prop where
  refused : ∀ failure, outcome = some failure →
    (∃ cause, failure = .cancelled cause ∧
      (origin.play (told ++ first)).cause? scope = some cause) ∧
    ∃ instant, IsLeast (origin.endedBy (told ++ since) scope) instant ∧ time = max started instant
  granted : outcome = none → action ≠ .done ∧
    (∀ millis, action = .wait millis → time = started + millis) ∧
    (action ≠ .wait 0 → (origin.play (told ++ first)).cause? scope = none ∧
      ∀ due, (origin.play (told ++ since)).scopes.deadline? scope = some due → time < due)

theorem Fate.exists_explained (fate : Fate origin told since id scope started action task)
    (known : scope < (origin.play told).scopes.length) (begun : (origin.play told).clock = started)
    {time : Nat} {ending : Ending} (life : task.life = .ended time ending) :
    ∃ first outcome, ending = .returned (time - started) outcome ∧
      (origin.play told).EndsAfter id since first time ending ∧
      Explained origin told since first scope started time action outcome := by
  cases fate with
  | pending pends _ _ => simp [pends.live] at life
  | lost gone _ => simp [life] at gone
  | ended first stop outcome finished ends concludes held =>
      obtain ⟨rfl, rfl⟩ := Life.ended.inj (finished.symm.trans life)
      obtain ⟨rest, split⟩ := ends.turn
      have clock : (origin.play (told ++ first)).clock = stop := play_append .. ▸ ends.clock
      refine ⟨first, outcome, rfl, ends, ?_, ?_⟩
      · rintro failure rfl
        have since : started ≤ stop := begun ▸ ends.clock ▸ clock_le_play _ first
        cases concludes with
        | refused cause found _ =>
            rw [split, ← List.append_assoc]
            exact ⟨⟨cause, rfl, found⟩, exists_isLeast_endedBy held since clock found⟩
      · rintro rfl
        have opened (still : (origin.play (told ++ first)).cause? scope = none) (due : Nat)
            (set : (origin.play (told ++ since)).scopes.deadline? scope = some due) : stop < due := by
          have there : scope < (origin.play (told ++ first)).scopes.length := by
            rw [play_append]
            exact Nat.lt_of_lt_of_le known (play_extends _ first).length_le
          rw [split, ← List.append_assoc, play_append,
            deadline_of_extends (play_extends _ _) there] at set
          exact clock ▸ clock_lt_of_cause still set
        cases concludes with
        | passed nothing same =>
            subst nothing
            exact ⟨nofun, by rintro _ ⟨rfl⟩; exact same, fun lasting => absurd rfl lasting⟩
        | elapsed millis waits due still =>
            subst waits
            exact ⟨nofun, by rintro _ ⟨rfl⟩; exact due, fun _ => ⟨still, opened still⟩⟩
        | granted acquires still =>
            subst acquires
            exact ⟨nofun, nofun, fun _ => ⟨still, opened still⟩⟩

/-- To wait for no time at all succeeds at once. -/
theorem Fate.passes (fate : Fate origin told since id scope started (.wait 0) task)
    (spared : .doom id ∉ since)
    (later : (origin.play (told ++ since)).ready = [] ∨
      started < (origin.play (told ++ since)).clock) :
    task.life = .ended started (.returned 0 none) := by
  cases fate with
  | lost _ dooms => exact absurd dooms spared
  | pending _ vigil _ =>
      cases vigil with
      | waiting _ lasting _ _ => exact absurd rfl lasting
      | fresh _ inLine clock _ =>
          rcases later with quiet | passed
          · simp [quiet] at inLine
          · exact absurd passed (by omega)
  | ended first time outcome life ends concludes held =>
      cases concludes with
      | refused _ _ lasting => exact absurd rfl lasting
      | passed _ same => simpa [same] using life
      | elapsed millis waits due _ =>
          obtain rfl := Action.wait.inj waits
          simpa [due] using life
      | granted acquires _ => cases acquires

end

/-- Whatever is going on, a vigil hears of its scope what everybody sees who looks at it. That holds
in every run, and any advance of the clock is part of one. Once nobody is in line, every vigil that
is still kept is kept in a scope that is open. A vigil that gives way does so for the cause that the
scope has ended for, at the time at which it has, or at once if it had when the vigil began. A wait
that is over is over in time, and what is waited for is got only in a scope that is open, so before
its deadline; but no time passes at once in any scope. -/
theorem vigils_agree (requested : Int) (moves : List Move)
    (posts : (State.start (.new requested)).Posts moves) {before after : List Move}
    {scope : ScopeId} {action : Action} (split : moves = before ++ .spawn scope [action] :: after)
    (kind : action.isVigil = true) :
    let origin := State.start (.new requested)
    let state := origin.play moves
    let told := before ++ [.spawn scope [action]]
    let id := (origin.play before).tasks.length
    let started := (origin.play before).clock
    (∀ time, ∃ more, origin.Posts (moves ++ more) ∧
        origin.play (moves ++ more) = state.advanceTo time) ∧
    ∃ task, state.tasks[id]? = some task ∧
      (task.life = .live → state.hears id task = state.cause? scope) ∧
      (state.ready = [] → task.life = .live → state.cause? scope = none) ∧
      (task.life = .doomed ∨ task.life = .dropped → .doom id ∈ after) ∧
      (∀ time ending, task.life = .ended time ending → ∃ first outcome,
        ending = .returned (time - started) outcome ∧
        (origin.play told).EndsAfter id after first time ending ∧
        Explained origin told after first scope started time action outcome) ∧
      (action = .wait 0 → .doom id ∉ after → state.ready = [] ∨ started < state.clock →
        task.life = .ended started (.returned 0 none)) := by
  intro origin state told id started
  have wired : origin.Wired := (History.sound_start (.new requested)).wired
  have punctual : origin.Punctual := punctual_start _
  have whole : moves = told ++ ([] ++ after) := by simp [split, told]
  have opening : origin.play told = (origin.play before).apply (.spawn scope [action]) :=
    play_append ..
  have known : scope < (origin.play before).scopes.length := by
    have posted := posts
    rw [split, posts_append] at posted
    exact posted.2.1
  have grown : scope < (origin.play told).scopes.length := by
    rw [opening]
    exact Nat.lt_of_lt_of_le known (apply_extends _ _).length_le
  have begun : (origin.play told).clock = started := by
    rw [opening]
    exact (minds_spawn (origin.play before) scope none [action] id).clock
  obtain ⟨first, born, fate⟩ := fate_opened origin before known
  have there : (origin.play (told ++ [])).tasks[id]? = some first := by
    rw [List.append_nil, opening]
    exact born
  obtain ⟨task, found, fate⟩ := fate.play wired punctual there kind after
  have reached : origin.play (told ++ ([] ++ after)) = state := by rw [← whole]
  refine ⟨fun time => ?_, task, reached ▸ found, ?_, ?_, ?_, ?_, ?_⟩
  · obtain ⟨more, advanced, kinds⟩ := exists_play_of_advanceTo state time
    refine ⟨more, (posts_append ..).mpr ⟨posts, posts_of_no_spawn fun move member => ?_⟩, ?_⟩
    · rcases kinds move member with ⟨_, rfl⟩ | ⟨_, rfl⟩ <;> exact nofun
    · rw [play_append]
      exact advanced
  · intro live
    have shown := fate.hears_eq (punctual.play _) live
    rwa [reached] at shown
  · intro quiet live
    rw [← reached] at quiet ⊢
    exact fate.cause_of_quiet quiet live
  · intro gone
    cases fate with
    | pending pends _ _ => simp [pends.live] at gone
    | ended _ _ _ life _ _ _ => simp [life] at gone
    | lost _ dooms => exact dooms
  · exact fun time ending life => fate.exists_explained grown begun life
  · rintro rfl spared later
    rw [← reached] at later
    exact fate.passes spared later

/-- A wait is over just when the deadline of its scope comes. -/
def closeCall : List Move :=
  [.addBackground, .derive 0 (some 10), .spawn 1 [.wait 10], .spawn 1 [.acquire], .turn (.task 0),
    .turn (.task 1), .jump 10, .turn (.task 0)]

/-- The deadline counts, and the wait gives way at the time at which the scope has ended. -/
theorem vigils_agree_closeCall :
    (State.start (.new 1)).Posts closeCall ∧
      ∃ task, ((State.start (.new 1)).play closeCall).tasks[0]? = some task ∧
        task.life = .ended 10 (.returned 10 (some (.cancelled .deadline))) ∧
        ∃ instant, IsLeast ((State.start (.new 1)).endedBy closeCall 1) instant ∧
          10 = max 0 instant := by
  have posts : (State.start (.new 1)).Posts closeCall := by decide
  have split : closeCall = [.addBackground, .derive 0 (some 10)] ++ .spawn 1 [.wait 10] ::
      [.spawn 1 [.acquire], .turn (.task 0), .turn (.task 1), .jump 10, .turn (.task 0)] := rfl
  obtain ⟨_, task, found, _, _, _, explained, _⟩ := vigils_agree 1 closeCall posts split rfl
  have life : task.life = .ended 10 (.returned 10 (some (.cancelled .deadline))) := by
    have shown : (((State.start (.new 1)).play closeCall).tasks[0]?).map Task.life =
        some (.ended 10 (.returned 10 (some (.cancelled .deadline)))) := rfl
    rw [show ((State.start (.new 1)).play closeCall).tasks[0]? = some task from found] at shown
    exact Option.some.inj shown
  obtain ⟨first, outcome, ending, _, why⟩ := explained _ _ life
  obtain ⟨_, rfl⟩ := Ending.returned.inj ending
  exact ⟨posts, task, found, life, (why.refused _ rfl).2⟩

end State

end OrderDesk.Schedule
