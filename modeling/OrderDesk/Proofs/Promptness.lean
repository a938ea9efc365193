import Mathlib.Order.Bounds.Defs
import OrderDesk.Proofs.Causes
import OrderDesk.Proofs.Forecasts
import OrderDesk.Proofs.ScopeTimers

/-! When a call returns. If no body sleeps through the end of its scope, then a call returns at the
very instant at which one of its steps has failed, or its context has ended while a step is blocked,
or its last step has ended, whatever else goes on. The reason is that time does not pass as long as
anybody is in line: once nobody is, no failure is left unheard, and every step that is still at work
attends to a scope that is open. -/

namespace OrderDesk

open Schedule

namespace Schedule

inductive State.Presses (state : State) (call : Call) : Prop
  /-- One of its steps has failed. -/
  | failed (task : TaskId) (found : Task) (time : Nat) (ending : Ending) (failure : Failure)
      (placed : task ∈ call.tasks) (present : state.tasks[task]? = some found)
      (life : found.life = .ended time ending) (outcome : ending.outcome = some failure)
  /-- Its context has ended while one of its steps is blocked. -/
  | done (task : TaskId) (found : Task) (placed : task ∈ call.tasks)
      (present : state.tasks[task]? = some found) (live : found.life = .live)
      (blocked : found.waits = true) (ended : (state.cause? call.context).isSome = true)
  /-- All of its steps have ended. -/
  | complete (all : ∀ task ∈ call.tasks, ∃ found time ending,
      state.tasks[task]? = some found ∧ found.life = .ended time ending)

/-- Something presses the call, or its context has ended at all. -/
def State.Urgent (state : State) (call : Call) : Prop :=
  state.Presses call ∨ (state.cause? call.context).isSome = true

theorem State.cause_of_isCanceled (state : State) {scope : ScopeId}
    (canceled : state.isCanceled scope = true) : (state.cause? scope).isSome = true := by
  simp only [State.isCanceled, Option.any_eq_true] at canceled
  obtain ⟨found, placed, flag⟩ := canceled
  simp only [State.cause?, Scopes.cause?, placed, flag, if_true]
  split <;> rfl

theorem State.Evolves.life_of_ended {state : State} {move : Move} {id : TaskId} {task next : Task}
    {time : Nat} {ending : Ending} (evolves : state.Evolves move id task next)
    (life : task.life = .ended time ending) : next.life = .ended time ending := by
  cases evolves with
  | same same _ _ => exact same.trans life
  | worked _ _ live _ => simp [live] at life
  | doomed live _ _ _ _ => simp [live] at life
  | dropped doomed _ _ => simp [doomed] at life

theorem State.Evolves.lost {state : State} {move : Move} {id : TaskId} {task next : Task}
    (evolves : state.Evolves move id task next)
    (life : task.life = .doomed ∨ task.life = .dropped) :
    next.life = .doomed ∨ next.life = .dropped := by
  cases evolves with
  | same same _ _ => exact same ▸ life
  | worked _ _ live _ => simp [live] at life
  | doomed live _ _ _ _ => simp [live] at life
  | dropped _ dropped _ => exact .inr dropped

theorem State.Advances.within {state : State} {move : Move} {id : CallId} {call after : Call}
    (advances : state.Advances move id call after) (good : Nat → Prop)
    (going : call.aborted = false → call.ended = none → good state.clock)
    (ended : ∀ time cause?, call.ended = some (time, cause?) → good time)
    (jump : call.aborted = false → call.ended = none → ∀ time, state.canJump time = true →
      good (max state.clock time)) :
    (after.aborted = false → after.ended = none → good (state.apply move).clock) ∧
      ∀ time cause?, after.ended = some (time, cause?) → good time := by
  constructor
  · intro active unended
    have before : call.aborted = false := by
      by_contra flag
      have still := advances.stays (by simpa using flag)
      rw [active] at still
      cases still
    have open_before : call.ended = none := by
      rcases advances.ended with same | ⟨open_before, _⟩
      · exact same ▸ unended
      · exact open_before
    rcases clock_apply state move with same | ⟨time, _, possible, moved⟩
    · exact same ▸ going before open_before
    · exact moved ▸ jump before open_before time possible
  · intro time cause? halted
    rcases advances.ended with same | ⟨open_before, before, _, now⟩
    · exact ended time cause? (same ▸ halted)
    · obtain ⟨rfl, _⟩ := Prod.mk.inj (Option.some.inj (halted.symm.trans now))
      exact going before open_before

theorem State.cause_of_deadline (state : State) {scope : ScopeId} {due : Nat}
    (deadline : state.scopes.deadline? scope = some due) (late : due ≤ state.clock) :
    (state.cause? scope).isSome = true := by
  obtain ⟨found, placed, set⟩ := Option.bind_eq_some_iff.mp deadline
  simp [State.cause?, Scopes.cause?, placed, set, late]

theorem Scopes.Links.deadline_eq {scopes : Scopes} {context scope : ScopeId}
    (links : scopes.Links context scope) : scopes.deadline? scope = scopes.deadline? context := by
  obtain ⟨outer, own, above, below, inherits⟩ := links
  simp [Scopes.deadline?, above, below, inherits.deadline]

theorem State.Presses.of_continues {state : State} {call after : Call}
    (presses : state.Presses call) (tasks : after.tasks = call.tasks)
    (context : after.context = call.context) : state.Presses after := by
  cases presses with
  | failed task found time ending failure placed present life outcome =>
      exact .failed task found time ending failure (tasks ▸ placed) present life outcome
  | done task found placed present live blocked ended =>
      exact .done task found (tasks ▸ placed) present live blocked (context ▸ ended)
  | complete all => exact .complete fun task placed => all task (tasks ▸ placed)

theorem State.ended_play {state : State} {id : CallId} {call last : Call} {moves : List Move}
    {stop : Nat × Option Cause} (found : state.calls[id]? = some call)
    (ended : call.ended = some stop) (reached : (state.play moves).calls[id]? = some last) :
    last.ended = some stop := by
  induction moves generalizing state call with
  | nil =>
      obtain rfl := Option.some.inj (found.symm.trans reached)
      exact ended
  | cons move moves ih =>
      obtain ⟨next, advances⟩ := exists_advances move found
      rcases advances.ended with same | ⟨unended, _⟩
      · exact ih advances.found (same.trans ended) reached
      · rw [unended] at ended
        cases ended

theorem State.exists_end {state : State} {id : CallId} {call last : Call} {moves : List Move}
    {time : Nat} {cause? : Option Cause} (found : state.calls[id]? = some call)
    (unended : call.ended = none) (reached : (state.play moves).calls[id]? = some last)
    (ended : last.ended = some (time, cause?)) :
    ∃ first rest now, moves = first ++ rest ∧ (state.play first).calls[id]? = some now ∧
      now.ended.isSome = true ∧ (state.play first).clock = time := by
  induction moves generalizing state call with
  | nil =>
      obtain rfl := Option.some.inj (found.symm.trans reached)
      rw [unended] at ended
      cases ended
  | cons move moves ih =>
      obtain ⟨next, advances⟩ := exists_advances move found
      rcases advances.ended with same | ⟨_, _, turn, now⟩
      · obtain ⟨first, rest, now, split, there, halted, clock⟩ :=
          ih advances.found (same.trans unended) reached
        exact ⟨move :: first, rest, now, by rw [split, List.cons_append], there, halted, clock⟩
      · refine ⟨[move], moves, next, rfl, advances.found, by simp [now], ?_⟩
        have same := Option.some.inj ((ended_play advances.found now reached).symm.trans ended)
        rcases clock_apply state move with still | ⟨_, jump, _⟩
        · exact still.trans (Prod.mk.inj same).1
        · rw [turn] at jump
          cases jump

structure Minded (state : State) (call : Call) (task : TaskId) (found : Task) : Prop where
  awake : ∀ millis, .sleep millis ∉ found.script
  asks : found.life = .live → found.waits = true → found.isAttentive = true
  watches : state.Watches task found
  past : ∀ time ending, found.life = .ended time ending → time ≤ state.clock
  given : found.life = .doomed ∨ found.life = .dropped → call.aborted = true

structure Attentive (history : History) (id : CallId) (steps : List (String × Script))
    (call : Call) : Prop where
  sound : history.Sound
  tracks : Tracks history id steps call
  links : history.state.scopes.Links call.context call.scope
  canceled : failures (history.joinedBy id) ≠ [] → history.state.isCanceled call.scope = true
  minded : ∀ (position : Nat) (task : TaskId) (found : Task), call.tasks[position]? = some task →
    history.state.tasks[task]? = some found → Minded history.state call task found
  last : ∀ (time : Nat) (cause? : Option Cause), call.ended = some (time, cause?) →
    time ≤ history.state.clock ∧ ∀ (position : Nat) (task : TaskId) (found : Task) (stop : Nat)
      (ending : Ending), call.tasks[position]? = some task →
      history.state.tasks[task]? = some found → found.life = .ended stop ending → stop ≤ time

theorem Minded.of_becomes {state : State} {move : Move} {call after : Call} {task : TaskId}
    {found next : Task} (minded : Minded state call task found) (punctual : state.Punctual)
    (present : state.tasks[task]? = some found) (known : found.scope < state.scopes.length)
    (stays : call.aborted = true → after.aborted = true)
    (given : next.life = .doomed → found.life = .live → after.aborted = true)
    (becomes : state.Becomes move task found next) : Minded (state.apply move) after task next := by
  have awake : ∀ millis, .sleep millis ∉ next.script :=
    fun millis listed => minded.awake millis (becomes.evolves.script_subset listed)
  refine ⟨awake, ?_, minded.watches.apply punctual present known becomes, ?_, ?_⟩
  · intro live waits
    cases becomes.evolves with
    | same same script again =>
        have before := minded.asks (same ▸ live) (again ▸ waits)
        unfold Task.isAttentive at before ⊢
        rwa [same, script, again]
    | doomed _ doomed _ _ _ => simp [doomed] at live
    | dropped _ dropped _ => simp [dropped] at live
    | worked _ _ _ worked =>
        cases worked with
        | blocked _ _ front _ =>
            obtain ⟨action, rest, script, asks | ⟨millis, rfl⟩⟩ := front
            · simp [Task.isAttentive, live, script, waits, asks]
            · exact absurd (script ▸ List.mem_cons_self) (awake millis)
        | ended _ ended _ _ => simp [ended] at live
  · intro time ending life
    have later := State.clock_le_apply state move
    cases becomes.evolves with
    | same same _ _ => exact Nat.le_trans (minded.past time ending (same ▸ life)) later
    | doomed _ doomed _ _ _ => simp [doomed] at life
    | dropped _ dropped _ => simp [dropped] at life
    | worked _ _ _ worked =>
        cases worked with
        | blocked live _ _ _ => simp [live] at life
        | ended _ ended _ _ =>
            obtain ⟨rfl, _⟩ := Life.ended.inj (ended.symm.trans life)
            exact later
  · intro spent
    cases becomes.evolves with
    | same same _ _ => exact stays (minded.given (same ▸ spent))
    | doomed live doomed _ _ _ => exact given doomed live
    | dropped doomed _ _ => exact stays (minded.given (.inl doomed))
    | worked _ _ _ worked =>
        cases worked with
        | blocked live _ _ _ => simp [live] at spent
        | ended _ ended _ _ => simp [ended] at spent

namespace Attentive

variable {history : History} {id : CallId} {steps : List (String × Script)} {call : Call}

theorem exists_minded (attentive : Attentive history id steps call) {position : Nat} {task : TaskId}
    (placed : call.tasks[position]? = some task) :
    ∃ found, history.state.tasks[task]? = some found ∧ found.duty = some ⟨id, position⟩ ∧
      found.scope = call.scope ∧ Minded history.state call task found := by
  obtain ⟨_, found, _, present, working⟩ := attentive.tracks.exists_working placed
  exact ⟨found, present, working.duty, working.scope, attentive.minded position task found placed present⟩

theorem scope_lt (attentive : Attentive history id steps call) :
    call.scope < history.state.scopes.length := by
  obtain ⟨_, own, _, placed, _⟩ := attentive.links
  exact (List.getElem?_eq_some_iff.mp placed).1

theorem life_of_ended (attentive : Attentive history id steps call) (ended : call.ended.isSome = true)
    {position : Nat} {task : TaskId} (placed : call.tasks[position]? = some task) :
    ∃ found stop ending, history.state.tasks[task]? = some found ∧ found.life = .ended stop ending := by
  obtain ⟨step, _, named, _⟩ := attentive.tracks.exists_working placed
  obtain ⟨same, found, stop, ending, placed', present, _, life, _⟩ :=
    attentive.tracks.report_of_task (attentive.tracks.ended.mp ended) named
  obtain rfl : task = same := Option.some.inj (placed.symm.trans placed')
  exact ⟨found, stop, ending, present, life⟩

theorem exists_becomes (attentive : Attentive history id steps call) {move : Move} {after : Call}
    (advances : history.state.Advances move id call after) {position : Nat} {task : TaskId}
    {next : Task} (placed : call.tasks[position]? = some task)
    (present : (history.add move).state.tasks[task]? = some next) :
    ∃ found, history.state.tasks[task]? = some found ∧
      history.state.Becomes move task found next ∧
      Minded (history.add move).state after task next := by
  obtain ⟨found, there, works, scope, minded⟩ := attentive.exists_minded placed
  obtain ⟨reached, becomes⟩ := State.exists_becomes attentive.sound.wired move there
  obtain rfl : next = reached := Option.some.inj (present.symm.trans becomes.found)
  refine ⟨found, there, becomes, minded.of_becomes attentive.sound.punctual there (scope ▸ attentive.scope_lt)
    advances.stays ?_ becomes⟩
  intro doomed live
  cases becomes.evolves with
  | same same _ _ => simp [← same, doomed] at live
  | doomed _ _ _ _ given =>
      obtain ⟨other, known, aborted⟩ := given _ works
      obtain rfl : after = other := Option.some.inj (advances.found.symm.trans known)
      exact aborted
  | dropped _ dropped _ => simp [dropped] at doomed
  | worked _ _ _ worked =>
      cases worked with
      | blocked live _ _ _ => simp [live] at doomed
      | ended _ ended _ _ => simp [ended] at doomed

theorem ended_before (attentive : Attentive history id steps call) {move : Move} {after : Call}
    (advances : history.state.Advances move id call after)
    (idle : move = .turn (.call id) ∨ call.ended.isSome = true) {position : Nat} {task : TaskId}
    {next : Task} {stop : Nat} {ending : Ending} (placed : call.tasks[position]? = some task)
    (present : (history.add move).state.tasks[task]? = some next)
    (life : next.life = .ended stop ending) :
    ∃ found, history.state.tasks[task]? = some found ∧ found.life = .ended stop ending := by
  obtain ⟨found, there, becomes, _⟩ := attentive.exists_becomes advances placed present
  refine ⟨found, there, ?_⟩
  cases becomes.evolves with
  | same same _ _ => exact same ▸ life
  | doomed _ doomed _ _ _ => simp [doomed] at life
  | dropped _ dropped _ => simp [dropped] at life
  | worked turn _ live _ =>
      rcases idle with call_turn | halted
      · rw [call_turn] at turn
        cases turn
      · obtain ⟨again, _, _, there', ended⟩ := attentive.life_of_ended halted placed
        obtain rfl := Option.some.inj (there.symm.trans there')
        simp [live] at ended

theorem add (attentive : Attentive history id steps call) (move : Move) :
    ∃ after, Attentive (history.add move) id steps after ∧ call.Continues after ∧
      history.state.Advances move id call after := by
  obtain ⟨after, tracked, continues⟩ := attentive.tracks.add attentive.sound move
  obtain ⟨again, advances⟩ := State.exists_advances move attentive.tracks.found
  obtain rfl : after = again := Option.some.inj (tracked.found.symm.trans advances.found)
  refine ⟨after, ⟨attentive.sound.add move, tracked, ?_, ?_, ?_, ?_⟩, continues, advances⟩
  · rw [continues.scope, continues.context]
    exact State.links_apply attentive.links move
  · intro failed
    obtain ⟨outer, own, _, placed, inherits⟩ := attentive.links
    have within : call.scope ∈ own.lineage := inherits.lineage ▸ List.mem_cons_self
    rw [continues.scope]
    exact (attentive.tracks.isCanceled_play attentive.sound placed within attentive.canceled
      [move]).mpr (.inl failed)
  · intro position task next placed present
    obtain ⟨_, _, _, minded⟩ :=
      attentive.exists_becomes advances (continues.tasks ▸ placed) present
    exact minded
  · intro time cause? ended
    have later := State.clock_le_apply history.state move
    rcases advances.ended with same | ⟨_, _, turn, now⟩
    · obtain ⟨bound, last⟩ := attentive.last time cause? (same ▸ ended)
      refine ⟨Nat.le_trans bound later, ?_⟩
      intro position task next stop ending placed present life
      obtain ⟨found, there, life'⟩ := attentive.ended_before advances
        (.inr (by simp [← same, ended])) (continues.tasks ▸ placed) present life
      exact last position task found stop ending (continues.tasks ▸ placed) there life'
    · obtain ⟨rfl, _⟩ := Prod.mk.inj (Option.some.inj (ended.symm.trans now))
      refine ⟨later, ?_⟩
      intro position task next stop ending placed present life
      obtain ⟨found, there, life'⟩ :=
        attentive.ended_before advances (.inl turn) (continues.tasks ▸ placed) present life
      exact (attentive.minded position task found (continues.tasks ▸ placed) there).past stop ending
        life'

/-- A step that has not ended is blocked, and attends to the scope of the call. -/
theorem attends_of_quiet (attentive : Attentive history id steps call)
    (quiet : history.state.ready = []) (going : call.aborted = false) {position : Nat}
    {task : TaskId} (placed : call.tasks[position]? = some task) :
    ∃ found, history.state.tasks[task]? = some found ∧
      ((∃ time ending, found.life = .ended time ending) ∨
        found.life = .live ∧ history.state.Attends task call.scope) := by
  obtain ⟨_, found, _, present, working⟩ := attentive.tracks.exists_working placed
  have minded := attentive.minded position task found placed present
  refine ⟨found, present, ?_⟩
  cases life : found.life with
  | live =>
      have waits : found.waits = true := by
        by_contra fresh
        obtain ⟨_, _, inLine, _⟩ := working.fresh (by simp [Task.isFresh, life, fresh])
        simp [quiet] at inLine
      exact .inr ⟨rfl, working.scope ▸ minded.watches (minded.asks life waits)⟩
  | ended time ending => exact .inl ⟨time, ending, rfl⟩
  | doomed =>
      have given := minded.given (.inl life)
      rw [going] at given
      cases given
  | dropped =>
      have given := minded.given (.inr life)
      rw [going] at given
      cases given

theorem exists_blocked (attentive : Attentive history id steps call)
    (quiet : history.state.ready = []) (going : call.aborted = false) (unended : call.ended = none) :
    ∃ task ∈ call.tasks, ∃ found, history.state.tasks[task]? = some found ∧ found.life = .live ∧
      history.state.Attends task call.scope := by
  by_contra none_blocked
  have halted := attentive.tracks.ended_of_quiet going quiet fun outcome member => by
    obtain ⟨task, listed, rfl⟩ := List.mem_map.mp member
    obtain ⟨position, placed⟩ := List.getElem?_of_mem listed
    obtain ⟨found, present, ⟨time, ending, life⟩ | ⟨live, attends⟩⟩ :=
      attentive.attends_of_quiet quiet going placed
    · simp [present, life, Life.outcome?]
    · exact absurd ⟨task, listed, found, present, live, attends⟩ none_blocked
  rw [unended] at halted
  cases halted

/-- Nothing presses a call that is in progress when nobody is in line. -/
theorem not_urgent (attentive : Attentive history id steps call)
    (quiet : history.state.ready = []) (going : call.aborted = false) (unended : call.ended = none) :
    ¬ history.state.Urgent call := by
  obtain ⟨blocked, listed, waiting, there, live, attends⟩ :=
    attentive.exists_blocked quiet going unended
  have opened : (history.state.cause? call.scope).isSome = false := by
    by_contra ended
    have inLine := attends.alert (by simpa only [Bool.not_eq_false] using ended)
    simp [quiet] at inLine
  have context : (history.state.cause? call.context).isSome = false := by
    cases ended : history.state.cause? call.context with
    | none => rfl
    | some cause =>
        have inherited : history.state.cause? call.scope = some cause := attentive.links.cause ended
        simp [inherited] at opened
  rintro (presses | done)
  · cases presses with
    | failed task found time ending failure placed present life outcome =>
        have heard : failures (history.joinedBy id) ≠ [] := by
          obtain ⟨position, placed⟩ := List.getElem?_of_mem placed
          obtain ⟨_, again, _, present', working⟩ := attentive.tracks.exists_working placed
          obtain rfl := Option.some.inj (present.symm.trans present')
          have joined := working.recorded time ending life fun waits => by
            have told := attentive.tracks.told (List.ne_nil_of_mem waits) going unended
            simp [quiet] at told
          exact List.ne_nil_of_mem (mem_failures.mpr ⟨_, joined, outcome⟩)
        have canceled := history.state.cause_of_isCanceled (attentive.canceled heard)
        rw [opened] at canceled
        cases canceled
    | done _ _ _ _ _ _ ended =>
        rw [context] at ended
        cases ended
    | complete all =>
        obtain ⟨found, time, ending, present, life⟩ := all blocked listed
        obtain rfl := Option.some.inj (there.symm.trans present)
        simp [live] at life
  · rw [context] at done
    cases done

/-! ## Runs -/

theorem play (attentive : Attentive history id steps call) (moves : List Move) :
    ∃ after, Attentive (history.play moves) id steps after ∧ call.Continues after ∧
      (∀ time cause?, call.ended = some (time, cause?) → after.ended = some (time, cause?)) ∧
      (call.aborted = true → after.aborted = true) := by
  induction moves generalizing history call with
  | nil => exact ⟨call, attentive, .refl call, fun _ _ ended => ended, fun flag => flag⟩
  | cons move moves ih =>
      obtain ⟨next, attentive', continues, advances⟩ := attentive.add move
      obtain ⟨after, later, continued, stays, flagged⟩ := ih attentive'
      refine ⟨after, later, continues.trans continued, fun time cause? ended => ?_,
        fun flag => flagged (advances.stays flag)⟩
      rcases advances.ended with same | ⟨unended, _⟩
      · exact stays time cause? (same.trans ended)
      · rw [unended] at ended
        cases ended

theorem urgent_add (attentive : Attentive history id steps call) {after : Call} {move : Move}
    (continues : call.Continues after) (urgent : history.state.Urgent call) :
    (history.add move).state.Urgent after := by
  have remains {task : TaskId} {found : Task} {time : Nat} {ending : Ending}
      (present : history.state.tasks[task]? = some found) (life : found.life = .ended time ending) :
      ∃ next, (history.add move).state.tasks[task]? = some next ∧ next.life = .ended time ending := by
    obtain ⟨next, becomes⟩ := State.exists_becomes attentive.sound.wired move present
    exact ⟨next, becomes.found, becomes.evolves.life_of_ended life⟩
  have context (done : (history.state.cause? call.context).isSome = true) :
      ((history.add move).state.cause? after.context).isSome = true := by
    rw [continues.context]
    exact (State.apply_extends history.state move).cause_isSome
      (State.clock_le_apply history.state move) done
  rcases urgent with presses | done
  · cases presses with
    | failed task found time ending failure placed present life outcome =>
        obtain ⟨next, there, life'⟩ := remains present life
        exact .inl (.failed task next time ending failure (continues.tasks ▸ placed) there life' outcome)
    | done _ _ _ _ _ _ ended => exact .inr (context ended)
    | complete all =>
        refine .inl (.complete fun task placed => ?_)
        obtain ⟨found, time, ending, present, life⟩ := all task (continues.tasks ▸ placed)
        obtain ⟨next, there, life'⟩ := remains present life
        exact ⟨next, time, ending, there, life'⟩
  · exact .inr (context done)

/-- A call that something presses while it is in progress ends before time passes. -/
theorem stops {instant : Nat} (attentive : Attentive history id steps call)
    (urgent : history.state.Urgent call)
    (going : call.aborted = false → call.ended = none → history.state.clock = instant)
    (ended : ∀ time cause?, call.ended = some (time, cause?) → time = instant) (moves : List Move) :
    ∃ after, Attentive (history.play moves) id steps after ∧
      (history.play moves).state.Urgent after ∧
      (after.aborted = false → after.ended = none → (history.play moves).state.clock = instant) ∧
      ∀ time cause?, after.ended = some (time, cause?) → time = instant := by
  induction moves generalizing history call with
  | nil => exact ⟨call, attentive, urgent, going, ended⟩
  | cons move moves ih =>
      obtain ⟨next, attentive', continues, advances⟩ := attentive.add move
      obtain ⟨going', ended'⟩ := advances.within (· = instant) going ended
        fun active unended time possible => by
          have quiet : history.state.ready = [] := by
            simp only [State.canJump, Bool.and_eq_true, List.isEmpty_iff] at possible
            exact possible.1
          exact absurd urgent (attentive.not_urgent quiet active unended)
      exact ih attentive' (attentive.urgent_add continues urgent) going' ended'

/-- As long as a call is in progress, time does not pass over the deadline of its context. -/
theorem punctual {due : Nat} (attentive : Attentive history id steps call)
    (deadline : history.state.scopes.deadline? call.context = some due)
    (going : call.aborted = false → call.ended = none → history.state.clock ≤ max call.started due)
    (ended : ∀ time cause?, call.ended = some (time, cause?) → time ≤ max call.started due)
    (moves : List Move) :
    ∃ after, Attentive (history.play moves) id steps after ∧
      (history.play moves).state.scopes.deadline? call.context = some due ∧
      (after.aborted = false → after.ended = none →
        (history.play moves).state.clock ≤ max call.started due) ∧
      ∀ time cause?, after.ended = some (time, cause?) → time ≤ max call.started due := by
  induction moves generalizing history call with
  | nil => exact ⟨call, attentive, deadline, going, ended⟩
  | cons move moves ih =>
      obtain ⟨next, attentive', continues, advances⟩ := attentive.add move
      have still : (history.add move).state.scopes.deadline? call.context = some due := by
        obtain ⟨outer, found, set⟩ := Option.bind_eq_some_iff.mp deadline
        obtain ⟨later, there, _, same, _⟩ :=
          State.apply_extends history.state move call.context outer found
        exact Option.bind_eq_some_iff.mpr ⟨later, there, same ▸ set⟩
      obtain ⟨going', ended'⟩ := advances.within (· ≤ max call.started due) going ended
        fun active unended time possible => by
          obtain ⟨quiet, none_skipped⟩ : history.state.ready = [] ∧
              ∀ timer ∈ history.state.timers, time ≤ timer.due := by
            simpa [State.canJump] using possible
          have bound := going active unended
          obtain ⟨task, _, _, _, _, attends⟩ := attentive.exists_blocked quiet active unended
          rcases Nat.lt_or_ge history.state.clock due with early | late
          · have armed := attends.timed due (attentive.links.deadline_eq.trans deadline) early
            have before := none_skipped _ armed
            simp only at before
            omega
          · have done : (history.state.cause? call.context).isSome = true :=
              history.state.cause_of_deadline deadline late
            exact absurd (.inr done) (attentive.not_urgent quiet active unended)
      rw [← continues.context, ← continues.started] at *
      exact ih attentive' still going' ended'

end Attentive

theorem State.clear_of_tick {state : State} {limit : Nat} (done : state.tick (some limit) = none) :
    state.ready = [] ∧ ∀ timer ∈ state.timers, limit < timer.due := by
  unfold State.tick at done
  split at done
  · cases done
  · rename_i quiet
    refine ⟨quiet, fun timer set => ?_⟩
    cases next : state.nextDue with
    | none =>
        cases timers : state.timers with
        | nil => simp [timers] at set
        | cons first rest =>
            have found := isSome_foldl_earlier rest first.due
            rw [State.nextDue, timers] at next
            have absurd := found.symm.trans (congrArg Option.isSome next)
            cases absurd
    | some due =>
        have least := State.nextDue_le state due next timer set
        simp only [next, Option.all_some, decide_eq_true_eq] at done
        split at done
        · cases done
        · omega

/-- While a call is in progress there is something left to do up to the deadline of its context. -/
theorem Attentive.tick_ne_none {history : History} {id : CallId} {steps : List (String × Script)}
    {call : Call} (attentive : Attentive history id steps call) {due : Nat}
    (deadline : history.state.scopes.deadline? call.context = some due)
    (going : call.aborted = false) (unended : call.ended = none) :
    history.state.tick (some due) ≠ none := by
  intro done
  obtain ⟨quiet, later⟩ := State.clear_of_tick done
  obtain ⟨task, _, _, _, _, attends⟩ := attentive.exists_blocked quiet going unended
  rcases Nat.lt_or_ge history.state.clock due with early | late
  · have armed := attends.timed due (attentive.links.deadline_eq.trans deadline) early
    exact absurd (later _ armed) (Nat.lt_irrefl due)
  · exact attentive.not_urgent quiet going unended
      (.inr (State.cause_of_deadline _ deadline late))

namespace Occasion

variable {occasion : Occasion} {steps : List (String × Script)}

theorem attentive_opened (occasion : Occasion) (nonempty : steps ≠ [])
    (known : occasion.context < occasion.scope)
    (awake : ∀ step ∈ steps, ∀ millis, .sleep millis ∉ step.2) :
    Attentive (occasion.opened steps) occasion.id steps
      (occasion.opening.state.newCall occasion.context steps) := by
  have scopes : (occasion.opened steps).state.scopes =
      occasion.opening.state.scopes.derive occasion.context none :=
    (State.opened_openCall occasion.opening.state occasion.context steps).scopes
  have unjoined : (occasion.opened steps).joinedBy occasion.id = [] :=
    (Tracks.joinedBy_add_of_joined_eq_nil rfl).trans
      (occasion.sound_opening.joinedBy_eq_nil (Nat.le_refl _))
  refine ⟨occasion.sound_opening.add _, occasion.sound_opening.tracks_openCall _ nonempty, ?_, ?_,
    ?_, fun time cause? ended => by cases ended⟩
  · rw [scopes]
    exact (Scopes.agrees_derive known).links
  · intro failed
    rw [unjoined] at failed
    exact absurd rfl failed
  · intro position task found placed present
    obtain ⟨step, named, early⟩ := occasion.task_opened placed
    obtain rfl := Option.some.inj (present.symm.trans early)
    refine ⟨awake step (List.mem_of_getElem? named), fun _ waits => ?_,
      State.watches_new _ _ _ _ _ _, ?_, ?_⟩
    · cases waits
    · intro time ending life
      cases life
    · rintro (doomed | dropped)
      · cases doomed
      · cases dropped

/-- The instants at which the call has to return. -/
def pressing (occasion : Occasion) (steps : List (String × Script)) (call : Call) : Set Nat :=
  {instant | ∃ first rest, occasion.after = first ++ rest ∧
    ((occasion.opened steps).state.play first).clock = instant ∧
    ((occasion.opened steps).state.play first).Presses call}

/-- A call returns as soon as it has to, and no step of it outlasts it. -/
structure Prompt (occasion : Occasion) (steps : List (String × Script)) (call : Call) : Prop where
  least : ∀ time cause?, call.ended = some (time, cause?) →
    IsLeast (occasion.pressing steps call) time
  settled : ∀ time cause?, call.ended = some (time, cause?) → ∀ task ∈ call.tasks,
    ∃ found stop ending, (occasion.history steps).state.tasks[task]? = some found ∧
      found.life = .ended stop ending ∧ stop ≤ time
  /-- It does return before time passes. -/
  returns : call.aborted = false → ∀ instant ∈ occasion.pressing steps call,
    instant < (occasion.history steps).state.clock ∨ (occasion.history steps).state.ready = [] →
      call.ended.isSome = true
  /-- If its context has a deadline, then it returns by then. -/
  punctual : ∀ due, (occasion.history steps).state.scopes.deadline? call.context = some due →
    (∀ time cause?, call.ended = some (time, cause?) → time ≤ max call.started due) ∧
    (call.aborted = false → max call.started due < (occasion.history steps).state.clock ∨
      (occasion.history steps).state.tick (some due) = none → call.ended.isSome = true)

theorem exists_attentive (occasion : Occasion) (nonempty : steps ≠ [])
    (known : occasion.context < occasion.scope)
    (awake : ∀ step ∈ steps, ∀ millis, .sleep millis ∉ step.2) {call : Call}
    (found : occasion.call? steps = some call) {first rest : List Move}
    (split : occasion.after = first ++ rest) :
    ∃ now, Attentive ((occasion.opened steps).play first) occasion.id steps now ∧
      now.Continues call ∧
      (∀ time cause?, now.ended = some (time, cause?) → call.ended = some (time, cause?)) ∧
      (now.aborted = true → call.aborted = true) := by
  obtain ⟨now, attentive, _⟩ := (occasion.attentive_opened nonempty known awake).play first
  obtain ⟨last, attentive', continues, ended, aborted⟩ := attentive.play rest
  have reached := attentive'.tracks.found
  rw [← History.play_append, ← split, play_opened] at reached
  obtain rfl : call = last := Option.some.inj (found.symm.trans reached)
  exact ⟨now, attentive, continues, ended, aborted⟩

theorem mem_pressing_of_ended (occasion : Occasion) (nonempty : steps ≠ [])
    (known : occasion.context < occasion.scope)
    (awake : ∀ step ∈ steps, ∀ millis, .sleep millis ∉ step.2) {call : Call}
    (found : occasion.call? steps = some call) {time : Nat} {cause? : Option Cause}
    (ended : call.ended = some (time, cause?)) : time ∈ occasion.pressing steps call := by
  have attentive := occasion.attentive_opened nonempty known awake
  have reached : ((occasion.opened steps).state.play occasion.after).calls[occasion.id]? =
      some call := by
    rw [← History.state_play]
    exact found
  obtain ⟨first, rest, now, split, there, halted, clock⟩ :=
    State.exists_end attentive.tracks.found rfl reached ended
  obtain ⟨again, attentive', continues, _⟩ := occasion.exists_attentive nonempty known awake found split
  rw [← History.state_play] at there
  obtain rfl : now = again := Option.some.inj (there.symm.trans attentive'.tracks.found)
  refine ⟨first, rest, split, clock, .complete fun task placed => ?_⟩
  obtain ⟨position, placed⟩ := List.getElem?_of_mem placed
  obtain ⟨found, stop, ending, present, life⟩ :=
    attentive'.life_of_ended halted (continues.tasks ▸ placed)
  rw [History.state_play] at present
  exact ⟨found, stop, ending, present, life⟩

/-- Whenever something presses the call, it has returned or returns before time passes. -/
theorem ended_of_presses (occasion : Occasion) (nonempty : steps ≠ [])
    (known : occasion.context < occasion.scope)
    (awake : ∀ step ∈ steps, ∀ millis, .sleep millis ∉ step.2) {call : Call}
    (found : occasion.call? steps = some call) {first rest : List Move}
    (split : occasion.after = first ++ rest)
    (presses : ((occasion.opened steps).state.play first).Presses call) :
    (∀ time cause?, call.ended = some (time, cause?) →
      time ≤ ((occasion.opened steps).state.play first).clock) ∧
    (call.aborted = false → call.ended = none →
      (occasion.history steps).state.clock = ((occasion.opened steps).state.play first).clock ∧
      (occasion.history steps).state.Urgent call) := by
  obtain ⟨now, attentive, continues, stays, _⟩ :=
    occasion.exists_attentive nonempty known awake found split
  have urgent : ((occasion.opened steps).play first).state.Urgent now := by
    rw [History.state_play]
    exact .inl (presses.of_continues continues.tasks.symm continues.context.symm)
  rw [← History.state_play]
  cases halted : now.ended with
  | some stop =>
      have final := stays stop.1 stop.2 halted
      refine ⟨fun time cause? ended => ?_, fun _ unended => ?_⟩
      · obtain ⟨rfl, _⟩ := Prod.mk.inj (Option.some.inj (ended.symm.trans final))
        exact (attentive.last stop.1 stop.2 halted).1
      · rw [unended] at final
        cases final
  | none =>
      obtain ⟨last, attentive', urgent', going, ended⟩ := attentive.stops urgent
        (fun _ _ => rfl) (fun time cause? ended => by rw [halted] at ended; cases ended) rest
      have reached := attentive'.tracks.found
      rw [← History.play_append, ← split, play_opened] at reached going urgent'
      obtain rfl : call = last := Option.some.inj (found.symm.trans reached)
      exact ⟨fun time cause? halted => Nat.le_of_eq (ended time cause? halted),
        fun active unended => ⟨going active unended, urgent'⟩⟩

theorem deadline_opened (occasion : Occasion) (known : occasion.context < occasion.scope)
    {due : Nat}
    (deadline : (occasion.history steps).state.scopes.deadline? occasion.context = some due) :
    (occasion.opened steps).state.scopes.deadline? occasion.context = some due := by
  have scopes : (occasion.opened steps).state.scopes =
      occasion.opening.state.scopes.derive occasion.context none :=
    (State.opened_openCall occasion.opening.state occasion.context steps).scopes
  obtain ⟨outer, _, above, _⟩ := (Scopes.agrees_derive known).links
  rw [← scopes] at above
  obtain ⟨later, there, _, same, _⟩ :=
    State.play_extends (occasion.opened steps).state occasion.after _ outer above
  rw [← History.state_play, play_opened] at there
  obtain ⟨final, there', set⟩ := Option.bind_eq_some_iff.mp deadline
  obtain rfl := Option.some.inj (there.symm.trans there')
  exact Option.bind_eq_some_iff.mpr ⟨outer, above, same ▸ set⟩

theorem in_time (occasion : Occasion) (nonempty : steps ≠ [])
    (known : occasion.context < occasion.scope)
    (awake : ∀ step ∈ steps, ∀ millis, .sleep millis ∉ step.2) {call : Call}
    (found : occasion.call? steps = some call) {due : Nat}
    (deadline : (occasion.history steps).state.scopes.deadline? call.context = some due) :
    (call.aborted = false → call.ended = none →
      (occasion.history steps).state.clock ≤ max call.started due) ∧
    ∀ time cause?, call.ended = some (time, cause?) → time ≤ max call.started due := by
  obtain ⟨again, tracks, opened⟩ := occasion.exists_tracks nonempty
  obtain rfl : call = again := Option.some.inj (found.symm.trans tracks.found)
  have context : call.context = occasion.context := opened.context
  have clock : (occasion.opened steps).state.clock = occasion.opening.state.clock :=
    (State.opened_openCall occasion.opening.state occasion.context steps).clock
  obtain ⟨last, attentive, _, going, ended⟩ :=
    (occasion.attentive_opened nonempty known awake).punctual
      (occasion.deadline_opened known (context ▸ deadline))
      (fun _ _ => clock ▸ Nat.le_max_left _ _) (fun time cause? ended => by cases ended)
      occasion.after
  have reached := attentive.tracks.found
  rw [play_opened] at reached going
  obtain rfl : call = last := Option.some.inj (found.symm.trans reached)
  rw [← opened.started] at going ended
  exact ⟨going, ended⟩

theorem prompt (occasion : Occasion) (nonempty : steps ≠ [])
    (known : occasion.context < occasion.scope)
    (awake : ∀ step ∈ steps, ∀ millis, .sleep millis ∉ step.2) {call : Call}
    (found : occasion.call? steps = some call) : occasion.Prompt steps call := by
  obtain ⟨last, attentive, _⟩ := occasion.exists_attentive nonempty known awake found
    (List.append_nil occasion.after).symm
  rw [play_opened] at attentive
  obtain rfl : call = last := Option.some.inj (found.symm.trans attentive.tracks.found)
  have stops {first rest : List Move} (split : occasion.after = first ++ rest) :=
    occasion.ended_of_presses nonempty known awake found split
  refine ⟨?_, ?_, ?_, ?_⟩
  · intro time cause? ended
    refine ⟨occasion.mem_pressing_of_ended nonempty known awake found ended, ?_⟩
    rintro instant ⟨first, rest, split, rfl, presses⟩
    exact (stops split presses).1 time cause? ended
  · intro time cause? ended task placed
    obtain ⟨position, placed⟩ := List.getElem?_of_mem placed
    obtain ⟨stopped, stop, ending, present, life⟩ :=
      attentive.life_of_ended (by simp [ended]) placed
    exact ⟨stopped, stop, ending, present, life,
      (attentive.last time cause? ended).2 position task stopped stop ending placed present life⟩
  · rintro active instant ⟨first, rest, split, rfl, presses⟩ passed
    by_contra unended
    have unended : call.ended = none := by simpa using unended
    obtain ⟨still, urgent⟩ := (stops split presses).2 active unended
    rcases passed with later | quiet
    · omega
    · exact attentive.not_urgent quiet active unended urgent
  · intro due deadline
    obtain ⟨going, ended⟩ := occasion.in_time nonempty known awake found deadline
    refine ⟨ended, fun active passed => ?_⟩
    by_contra unended
    have unended : call.ended = none := by simpa using unended
    rcases passed with later | done
    · exact absurd (going active unended) (Nat.not_le.mpr later)
    · exact attentive.tick_ne_none deadline active unended done

end Occasion

end Schedule

end OrderDesk
