import OrderDesk.Proofs.Errors
import OrderDesk.Proofs.Meetings

/-! A call works in a scope of its own, which it has derived from its context. Whenever the context
has ended, so has the scope, for the same cause. The converse holds as long as nobody has canceled
the scope itself. Nobody does, if all others leave the scope alone and no body cancels it, before
the call joins a failure. -/

namespace OrderDesk.Schedule

namespace Scopes

structure Inherits (outer own : Scope) (scope : ScopeId) : Prop where
  lineage : own.lineage = scope :: outer.lineage
  deadline : own.deadline = outer.deadline
  canceled : outer.canceled = true → own.canceled = true

def Links (scopes : Scopes) (context scope : ScopeId) : Prop :=
  ∃ outer own, scopes[context]? = some outer ∧ scopes[scope]? = some own ∧
    Inherits outer own scope

/-- The scope was derived from the context, and nobody has canceled it but together with the
context. -/
def Agrees (scopes : Scopes) (context scope : ScopeId) : Prop :=
  ∃ outer own, scopes[context]? = some outer ∧ scopes[scope]? = some own ∧
    Inherits outer own scope ∧ (own.canceled = true → outer.canceled = true)

variable {scopes : Scopes} {context scope : ScopeId}

theorem Agrees.links (agrees : scopes.Agrees context scope) : scopes.Links context scope := by
  obtain ⟨outer, own, above, below, inherits, _⟩ := agrees
  exact ⟨outer, own, above, below, inherits⟩

theorem agrees_derive (known : context < scopes.length) :
    (scopes.derive context none).Agrees context scopes.length := by
  have found := List.getElem?_eq_getElem known
  have same (deadline : Option Nat) : earlier deadline none = deadline := by
    cases deadline <;> rfl
  refine ⟨scopes[context],
    { lineage := scopes.length :: scopes[context].lineage
      deadline := scopes[context].deadline
      canceled := scopes[context].canceled }, ?_, ?_, ⟨rfl, rfl, id⟩, id⟩
  · simp only [derive, found]
    rw [List.getElem?_append_left known]
    exact found
  · simp [derive, found, same]

theorem getElem?_append_of_some {id : ScopeId} {old : Scope} (more : Scope)
    (found : scopes[id]? = some old) : (scopes ++ [more])[id]? = some old := by
  rw [List.getElem?_append_left (List.getElem?_eq_some_iff.mp found).1]
  exact found

theorem Links.append (links : scopes.Links context scope) (more : Scope) :
    Links (scopes ++ [more]) context scope := by
  obtain ⟨outer, own, above, below, inherits⟩ := links
  exact ⟨outer, own, getElem?_append_of_some more above, getElem?_append_of_some more below,
    inherits⟩

theorem Agrees.append (agrees : scopes.Agrees context scope) (more : Scope) :
    Agrees (scopes ++ [more]) context scope := by
  obtain ⟨outer, own, above, below, inherits, back⟩ := agrees
  exact ⟨outer, own, getElem?_append_of_some more above, getElem?_append_of_some more below,
    inherits, back⟩

theorem getElem?_cancel (scopes : Scopes) (target id : ScopeId) :
    (scopes.cancel target)[id]? = scopes[id]?.map fun scope =>
      if scope.lineage.contains target then { scope with canceled := true } else scope := by
  simp [cancel]

theorem Links.cancel (links : scopes.Links context scope) (target : ScopeId) :
    (scopes.cancel target).Links context scope := by
  obtain ⟨outer, own, above, below, inherits⟩ := links
  refine ⟨_, _, by rw [getElem?_cancel, above, Option.map_some],
    by rw [getElem?_cancel, below, Option.map_some], ?_⟩
  by_cases within : target ∈ outer.lineage
  · have covered : target ∈ own.lineage := inherits.lineage ▸ List.mem_cons_of_mem _ within
    simp only [List.contains_iff_mem, within, covered, if_true]
    exact ⟨inherits.lineage, inherits.deadline, fun _ => rfl⟩
  · simp only [List.contains_iff_mem, within, if_false]
    split
    · exact ⟨inherits.lineage, inherits.deadline, fun _ => rfl⟩
    · exact inherits

theorem Agrees.cancel (agrees : scopes.Agrees context scope) {target : ScopeId}
    (other : target ≠ scope) : (scopes.cancel target).Agrees context scope := by
  obtain ⟨outer, own, above, below, inherits, back⟩ := agrees
  have same : target ∈ own.lineage ↔ target ∈ outer.lineage := by
    simp [inherits.lineage, other]
  refine ⟨_, _, by rw [getElem?_cancel, above, Option.map_some],
    by rw [getElem?_cancel, below, Option.map_some], ?_⟩
  by_cases within : target ∈ outer.lineage
  · simp only [List.contains_iff_mem, same, within, if_true]
    exact ⟨⟨inherits.lineage, inherits.deadline, id⟩, id⟩
  · simp only [List.contains_iff_mem, same, within, if_false]
    exact ⟨inherits, back⟩

theorem Links.cause (links : scopes.Links context scope) {now : Nat} {cause : Cause}
    (ended : scopes.cause? context now = some cause) : scopes.cause? scope now = some cause := by
  obtain ⟨outer, own, above, below, inherits⟩ := links
  simp only [cause?, above] at ended
  simp only [cause?, below, inherits.deadline]
  split at ended
  · rename_i late
    rw [if_pos late]
    exact ended
  · rename_i early
    split at ended
    · rename_i flag
      rw [if_neg early, if_pos (inherits.canceled flag)]
      exact ended
    · cases ended

theorem Agrees.cause_eq (agrees : scopes.Agrees context scope) (now : Nat) :
    scopes.cause? scope now = scopes.cause? context now := by
  have forth (cause : Cause) (ended : scopes.cause? context now = some cause) :
      scopes.cause? scope now = some cause := agrees.links.cause ended
  obtain ⟨outer, own, above, below, inherits, back⟩ := agrees
  cases ended : scopes.cause? context now with
  | some cause => exact forth cause ended
  | none =>
      simp only [cause?, above] at ended
      simp only [cause?, below, inherits.deadline]
      split at ended
      · cases ended
      · rename_i early
        split at ended
        · cases ended
        · rename_i clear
          rw [if_neg early, if_neg fun flag => clear (back flag)]

theorem Extends.cause_isSome {before after : Scopes} (grows : before.Extends after)
    {now later : Nat} (order : now ≤ later) (ended : (before.cause? scope now).isSome = true) :
    (after.cause? scope later).isSome = true := by
  cases found : before[scope]? with
  | none => simp [cause?, found] at ended
  | some old =>
      obtain ⟨new, present, _, deadline, canceled⟩ := grows scope old found
      simp only [cause?, found] at ended
      simp only [cause?, present, deadline]
      split at ended
      · rename_i late
        have later_still : (old.deadline.any fun deadline => deadline ≤ later) = true := by
          simp only [Option.any_eq_true, decide_eq_true_eq] at late ⊢
          obtain ⟨due, same, passed⟩ := late
          exact ⟨due, same, Nat.le_trans passed order⟩
        rw [if_pos later_still]
        rfl
      · split at ended
        · rename_i flag
          split
          · rfl
          · rw [if_pos (canceled flag)]
            rfl
        · cases ended

end Scopes

/-- The move is not somebody from outside reaching into the scope. -/
def Move.LeavesAlone (scope : ScopeId) : Move → Prop
  | .cancel target => target ≠ scope
  | .spawn target script => target = scope → .cancel ∉ script
  | _ => True

namespace State

def Restrains (state : State) (scope : ScopeId) : Prop :=
  ∀ task ∈ state.tasks, task.scope = scope → .cancel ∉ task.script

variable {state : State} {scope : ScopeId}

theorem Evolves.script_subset {move : Move} {id : TaskId} {task next : Task}
    (evolves : state.Evolves move id task next) : next.script ⊆ task.script := by
  cases evolves with
  | same _ script _ => exact script ▸ List.Subset.refl _
  | worked _ _ _ worked =>
      cases worked with
      | blocked _ _ _ script => exact script.subset
      | ended _ _ script _ => simp [script]
  | doomed _ _ script _ _ => exact script ▸ List.Subset.refl _
  | dropped _ _ script => simp [script]

theorem cases_task_apply (wired : state.Wired) (move : Move) {id : TaskId} {next : Task}
    (found : (state.apply move).tasks[id]? = some next) :
    (∃ task, state.tasks[id]? = some task ∧ state.Becomes move id task next) ∨
      (∃ context steps index, move = .openCall context steps ∧ id = state.tasks.length + index ∧
        ∃ step, steps[index]? = some step ∧
          next = Task.new state.scopes.length (some ⟨state.calls.length, index⟩) step.2 state.clock) ∨
      ∃ target script, move = .spawn target script ∧ id = state.tasks.length ∧
        next = Task.new target none script state.clock := by
  rcases Nat.lt_or_ge id state.tasks.length with old | new
  · have present := List.getElem?_eq_getElem old
    obtain ⟨again, becomes⟩ := exists_becomes wired move present
    obtain rfl := Option.some.inj (found.symm.trans becomes.found)
    exact .inl ⟨_, present, becomes⟩
  · right
    rcases sameWiring_apply state move with same | ⟨context, steps, rfl⟩ | ⟨target, script, rfl⟩
    · have counted := congrArg List.length same.duties
      have bound := (List.getElem?_eq_some_iff.mp found).1
      simp only [duties, List.length_map] at counted
      exact absurd bound (by omega)
    · have opened := opened_openCall state context steps
      rw [apply, opened.tasks, List.getElem?_append_right new, getElem?_stepTasks] at found
      obtain ⟨script, placed, rfl⟩ := Option.map_eq_some_iff.mp found
      obtain ⟨step, here, rfl⟩ : ∃ step, steps[id - state.tasks.length]? = some step ∧
          step.2 = script := by
        simpa using placed
      exact .inl ⟨context, steps, _, rfl, (Nat.add_sub_cancel' new).symm, step, here, rfl⟩
    · simp only [apply, spawn, tasks_wake] at found
      rw [List.getElem?_append_right new] at found
      have bound := (List.getElem?_eq_some_iff.mp found).1
      have last : id = state.tasks.length := by
        rw [List.length_singleton] at bound
        exact Nat.le_antisymm (Nat.le_of_sub_eq_zero (Nat.lt_one_iff.mp bound)) new
      obtain rfl := List.mem_singleton.mp (List.mem_of_getElem? found)
      exact .inr ⟨target, script, rfl, last, rfl⟩

theorem Restrains.apply (restrains : state.Restrains scope) (wired : state.Wired) {move : Move}
    (alone : move.LeavesAlone scope)
    (fresh : ∀ context steps, move = .openCall context steps → state.scopes.length = scope →
      ∀ step ∈ steps, .cancel ∉ step.2) :
    (state.apply move).Restrains scope := by
  intro next member own
  obtain ⟨id, found⟩ := List.getElem?_of_mem member
  rcases cases_task_apply wired move found with
    ⟨task, present, becomes⟩ | ⟨context, steps, index, rfl, _, step, here, rfl⟩ |
      ⟨target, script, rfl, _, rfl⟩
  · have idle := restrains task (List.mem_of_getElem? present) (becomes.scope.symm.trans own)
    exact fun listed => idle (becomes.evolves.script_subset listed)
  · exact fresh context steps rfl own step (List.mem_of_getElem? here)
  · exact alone own

structure Parts (state : State) : Prop where
  distinct : state.bases.Nodup
  known : ∀ base ∈ state.bases, base < state.scopes.length

theorem parts_start (limiter : Limiter) : (start limiter).Parts :=
  ⟨by simp [start, bases], by simp [start, bases]⟩

theorem bases_openCall (state : State) (context : ScopeId) (steps : List (String × Script)) :
    (state.apply (.openCall context steps)).bases = state.bases ++ [state.scopes.length] := by
  rw [apply, bases, (opened_openCall state context steps).calls, List.map_append]
  rfl

theorem length_scopes_openCall (state : State) (context : ScopeId)
    (steps : List (String × Script)) :
    (state.apply (.openCall context steps)).scopes.length = state.scopes.length + 1 := by
  rw [apply, (opened_openCall state context steps).scopes, Scopes.derive]
  split <;> simp

theorem Parts.apply (parts : state.Parts) (move : Move) : (state.apply move).Parts := by
  have grows := (apply_extends state move).length_le
  have old : ∀ base ∈ state.bases, base < (state.apply move).scopes.length :=
    fun base member => Nat.lt_of_lt_of_le (parts.known base member) grows
  rcases sameWiring_apply state move with same | ⟨context, steps, rfl⟩ | ⟨target, script, rfl⟩
  · exact ⟨same.bases ▸ parts.distinct, same.bases ▸ old⟩
  · refine ⟨?_, fun base member => ?_⟩
    · rw [bases_openCall, List.nodup_append]
      refine ⟨parts.distinct, List.nodup_singleton _, fun base member new last => ?_⟩
      rw [List.mem_singleton.mp last]
      exact Nat.ne_of_lt (parts.known base member)
    · rcases List.mem_append.mp (bases_openCall state context steps ▸ member) with before | new
      · exact old base before
      · rw [List.mem_singleton.mp new, length_scopes_openCall]
        exact Nat.lt_succ_self _
  · have bases : (state.apply (.spawn target script)).bases = state.bases := by
      simp [State.apply, State.spawn, State.bases]
    exact ⟨bases ▸ parts.distinct, bases ▸ old⟩

theorem Parts.play (parts : state.Parts) (moves : List Move) : (state.play moves).Parts := by
  induction moves generalizing state with
  | nil => exact parts
  | cons move moves ih => exact ih (parts.apply move)

theorem Parts.call_unique (parts : state.Parts) {first second : CallId} {one other : Call}
    (found : state.calls[first]? = some one) (found' : state.calls[second]? = some other)
    (same : one.scope = other.scope) : first = second := by
  have placed : state.bases[first]? = some one.scope := by simp [bases, found]
  have placed' : state.bases[second]? = some one.scope := by simp [bases, found', same]
  obtain ⟨bound, here⟩ := List.getElem?_eq_some_iff.mp placed
  obtain ⟨bound', here'⟩ := List.getElem?_eq_some_iff.mp placed'
  exact (parts.distinct.getElem_inj_iff).mp (here.trans here'.symm)

/-- Whatever happens, a scope goes with the context that it was derived from. -/
theorem links_apply {context : ScopeId} (links : state.scopes.Links context scope) (move : Move) :
    (state.apply move).scopes.Links context scope :=
  scopes_apply_keeps (fun scopes => scopes.Links context scope) state move links links.append
    fun target _ => links.cancel target

theorem links_play {context : ScopeId} (links : state.scopes.Links context scope)
    (moves : List Move) : (state.play moves).scopes.Links context scope := by
  induction moves generalizing state with
  | nil => exact links
  | cons move moves ih => exact ih (links_apply links move)

/-- If all others leave the scope of a call alone, then only the turn of the call cancels it. -/
theorem Restrains.turn_of_mayCancel (restrains : state.Restrains scope) (parts : state.Parts)
    {id : CallId} {call : Call} (found : state.calls[id]? = some call) (own : call.scope = scope)
    {move : Move} (alone : move.LeavesAlone scope) (may : state.MayCancel scope move) :
    move = .turn (.call id) := by
  unfold MayCancel at may
  split at may
  · exact absurd may alone
  · obtain ⟨task, present, works, listed⟩ := may
    exact absurd listed (restrains task (List.mem_of_getElem? present) works)
  · rename_i other
    obtain ⟨record, present, same, _⟩ := may
    rw [parts.call_unique present found (same.trans own.symm)]
  · cases may

end State

/-! ## A call that is left alone -/

/-- Nobody but the call cancels its scope, and the call has a failure to join before it does. -/
structure LeftAlone (history : History) (id : CallId) (steps : List (String × Script))
    (call : Call) : Prop where
  sound : history.Sound
  tracks : Tracks history id steps call
  parts : history.state.Parts
  restrains : history.state.Restrains call.scope
  links : history.state.scopes.Links call.context call.scope
  agrees : failures (history.joinedBy id) = [] →
    history.state.scopes.Agrees call.context call.scope

theorem LeftAlone.add {history : History} {id : CallId} {steps : List (String × Script)}
    {call : Call} (leftAlone : LeftAlone history id steps call) {move : Move}
    (alone : move.LeavesAlone call.scope) :
    ∃ after, LeftAlone (history.add move) id steps after ∧ call.Continues after := by
  obtain ⟨sound, tracks, parts, restrains, links, agrees⟩ := leftAlone
  obtain ⟨after, tracked, continues⟩ := tracks.add sound move
  have below : call.scope < history.state.scopes.length := by
    obtain ⟨_, own, _, placed, _⟩ := links
    exact (List.getElem?_eq_some_iff.mp placed).1
  refine ⟨after, ⟨sound.add move, tracked, parts.apply move, ?_, ?_, fun unfailed => ?_⟩, continues⟩
  · rw [continues.scope]
    exact restrains.apply sound.wired alone fun _ _ _ same => absurd same (Nat.ne_of_gt below)
  · rw [continues.scope, continues.context]
    exact State.links_apply links move
  · have joined : failures (history.joinedBy id) = [] := by
      rw [History.joinedBy_add, failures_append] at unfailed
      exact (List.append_eq_nil_iff.mp unfailed).1
    rw [continues.scope, continues.context]
    by_cases turn : move = .turn (.call id)
    · subst turn
      obtain ⟨new, more, scopes⟩ := tracks.scopes_turn_call
      rw [more, failures_append, joined, List.nil_append] at unfailed
      rw [if_pos unfailed] at scopes
      rw [scopes]
      exact agrees joined
    · refine State.scopes_apply_keeps (fun scopes => scopes.Agrees call.context call.scope)
        history.state move (agrees joined) (agrees joined).append fun target may => ?_
      refine (agrees joined).cancel fun same => turn ?_
      exact restrains.turn_of_mayCancel parts tracks.found rfl alone (same ▸ may)

theorem LeftAlone.play {history : History} {id : CallId} {steps : List (String × Script)}
    {call : Call} (leftAlone : LeftAlone history id steps call) (moves : List Move)
    (alone : ∀ move ∈ moves, move.LeavesAlone call.scope) :
    ∃ after, LeftAlone (history.play moves) id steps after ∧ call.Continues after := by
  induction moves generalizing history call with
  | nil => exact ⟨call, leftAlone, .refl call⟩
  | cons move moves ih =>
      obtain ⟨next, leftAlone', continues⟩ := leftAlone.add (alone move (by simp))
      obtain ⟨after, later, continued⟩ := ih leftAlone' fun other member =>
        continues.scope ▸ alone other (by simp [member])
      exact ⟨after, later, continues.trans continued⟩

namespace Occasion

def scope (occasion : Occasion) : ScopeId :=
  occasion.opening.state.scopes.length

def opened (occasion : Occasion) (steps : List (String × Script)) : History :=
  occasion.opening.add (.openCall occasion.context steps)

theorem play_opened (occasion : Occasion) (steps : List (String × Script)) :
    (occasion.opened steps).play occasion.after = occasion.history steps := rfl

theorem parts_opening (occasion : Occasion) : occasion.opening.state.Parts := by
  rw [opening, History.state_play]
  exact (State.parts_start occasion.limiter).play _

theorem restrains_play {state : State} (wired : state.Wired) {scope : ScopeId}
    (restrains : state.Restrains scope) (moves : List Move)
    (alone : ∀ move ∈ moves, move.LeavesAlone scope)
    (below : (state.play moves).scopes.length ≤ scope) : (state.play moves).Restrains scope := by
  induction moves generalizing state with
  | nil => exact restrains
  | cons move moves ih =>
      refine ih (wired.apply move) (restrains.apply wired (alone move (by simp)) ?_)
        (fun other member => alone other (by simp [member])) below
      rintro context steps rfl same
      have grows := (State.play_extends (state.apply (.openCall context steps)) moves).length_le
      rw [State.length_scopes_openCall] at grows
      have reached := Nat.le_trans grows below
      omega

/-- A call on a context that exists is left alone, if nobody else reaches into its scope and no
body cancels it. -/
theorem leftAlone_opened (occasion : Occasion) {steps : List (String × Script)}
    (nonempty : steps ≠ []) (known : occasion.context < occasion.scope)
    (holds : ∀ step ∈ steps, .cancel ∉ step.2)
    (alone : ∀ move ∈ occasion.before, move.LeavesAlone occasion.scope) :
    LeftAlone (occasion.opened steps) occasion.id steps
      (occasion.opening.state.newCall occasion.context steps) := by
  have scopes : (occasion.opened steps).state.scopes =
      occasion.opening.state.scopes.derive occasion.context none :=
    (State.opened_openCall occasion.opening.state occasion.context steps).scopes
  have agrees := Scopes.agrees_derive known
  have restrains : occasion.opening.state.Restrains occasion.scope := by
    have first : (History.start occasion.limiter).state.Restrains occasion.scope := by
      intro task member
      cases member
    have reached := restrains_play (History.sound_start occasion.limiter).wired first
      occasion.before alone
    rw [← History.state_play] at reached
    exact reached (Nat.le_refl _)
  refine ⟨occasion.sound_opening.add _, occasion.sound_opening.tracks_openCall _ nonempty,
    occasion.parts_opening.apply (.openCall occasion.context steps), ?_, ?_, fun _ => ?_⟩
  · exact restrains.apply occasion.sound_opening.wired trivial fun _ _ same _ => by
      obtain ⟨_, rfl⟩ := Move.openCall.inj same
      exact holds
  · rw [scopes]
    exact agrees.links
  · rw [scopes]
    exact agrees

end Occasion

end OrderDesk.Schedule
