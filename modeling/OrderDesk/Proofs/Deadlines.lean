import OrderDesk.Proofs.Answers
import OrderDesk.Proofs.Promptness

/-! Orders in time. The bodies of an order never sleep, and its context has a deadline, so the call
for an order returns by then, however long it waits for a courier and however long its steps are
meant to take. -/

namespace OrderDesk

open Schedule

namespace Schedule

theorem State.aborted_play {state : State} {id : CallId} {call last : Call} {moves : List Move}
    (found : state.calls[id]? = some call) (active : call.aborted = false)
    (kept : .abortCall id ∉ moves) (reached : (state.play moves).calls[id]? = some last) :
    last.aborted = false := by
  induction moves generalizing state call with
  | nil =>
      obtain rfl := Option.some.inj (found.symm.trans reached)
      exact active
  | cons move moves ih =>
      obtain ⟨next, advances⟩ := exists_advances move found
      refine ih advances.found ?_ (fun later => kept (List.mem_cons_of_mem _ later)) reached
      rcases advances.aborted with same | ⟨rfl, _⟩
      · exact same.trans active
      · exact absurd List.mem_cons_self kept

end Schedule

theorem awake_of_order {order : Order} {step : String × Script}
    (member : step ∈ orderPipeline.scripts order) (millis : Nat) : .sleep millis ∉ step.2 := by
  intro listed
  obtain ⟨position, placed⟩ := List.getElem?_of_mem member
  obtain ⟨rest, same, plain, _⟩ := @script_of_order order 0 position step placed
  rw [same] at listed
  rcases List.mem_cons.mp listed with first | later
  · cases first
  · exact absurd (plain _ later) (by simp [Action.isPlain])

namespace Desk

theorem drop_mem_of_abortCall {desk : Desk} {events : List Event} {call : CallId}
    (member : .abortCall call ∈ desk.movesOf events) : .drop call ∈ events := by
  induction events generalizing desk with
  | nil => cases member
  | cons event events ih =>
      rcases List.mem_append.mp member with first | later
      · cases event with
        | handle order =>
            simp only [moves] at first
            split at first <;> simp at first
        | drop other =>
            obtain rfl := Move.abortCall.inj (List.mem_singleton.mp first)
            exact List.mem_cons_self
        | turn worker => cases List.mem_singleton.mp first
        | jump time => cases List.mem_singleton.mp first
      · exact List.mem_cons_of_mem _ (ih later)

/-- Whatever settling does can be done by events, and nothing is given up on the way. -/
theorem exists_run_of_settle (limit : Option Nat) (desk : Desk) :
    ∃ events, (desk.run events).state = desk.state.settle limit ∧ ∀ call, .drop call ∉ events := by
  obtain ⟨moves, _, reached, kinds⟩ := State.exists_follows_of_settle limit desk.state
  have exists_run (moves : List Move)
      (kinds : ∀ move ∈ moves, (∃ worker, move = .turn worker) ∨ ∃ time, move = .jump time) :
      ∀ desk : Desk, ∃ events, (desk.run events).state = desk.state.play moves ∧
        ∀ call, .drop call ∉ events := by
    induction moves with
    | nil => exact fun desk => ⟨[], rfl, fun _ member => by cases member⟩
    | cons move moves ih =>
        intro desk
        have later := ih fun other member => kinds other (List.mem_cons_of_mem _ member)
        rcases kinds move List.mem_cons_self with ⟨worker, rfl⟩ | ⟨time, rfl⟩
        · obtain ⟨events, same, kept⟩ := later (desk.apply (.turn worker))
          exact ⟨.turn worker :: events, same, fun call member => by simp [kept] at member⟩
        · obtain ⟨events, same, kept⟩ := later (desk.apply (.jump time))
          exact ⟨.jump time :: events, same, fun call member => by simp [kept] at member⟩
  obtain ⟨events, same, kept⟩ := exists_run moves kinds desk
  exact ⟨events, same.trans reached, kept⟩

variable {settings : Settings} {before after : List Event} {order : Order}

/-- The call for an order returns within the time that an order may take. -/
theorem prompt_occasion (settings : Settings) (before after : List Event)
    (named : order.id ≠ "") :
    ∃ call, (occasion settings before order after).call? (orderPipeline.scripts order) = some call ∧
      (∀ time cause?, call.ended = some (time, cause?) →
        time ≤ ((ofSettings settings).run before).state.clock + settings.requestTimeout) ∧
      (.drop (occasion settings before order after).id ∉ after →
        ((ofSettings settings).run before).state.clock + settings.requestTimeout <
            ((ofSettings settings).run (before ++ .handle order :: after)).state.clock ∨
          ((ofSettings settings).run (before ++ .handle order :: after)).state.tick
            (some (((ofSettings settings).run before).state.clock + settings.requestTimeout)) =
              none →
        call.ended.isSome = true) := by
  let occasion := occasion settings before order after
  obtain ⟨call, tracks, continues⟩ := occasion.exists_tracks (scripts_ne_nil order)
  have prompt : occasion.Prompt (orderPipeline.scripts order) call :=
    occasion.prompt (scripts_ne_nil order) discreet_occasion.known
      (fun step member millis => awake_of_order member millis) tracks.found
  have reached : (occasion.history (orderPipeline.scripts order)).state =
      ((ofSettings settings).run (before ++ .handle order :: after)).state := state_history named
  obtain ⟨own, placed, deadline, _⟩ :=
    context_play settings before named (List.append_nil occasion.after).symm
  rw [← History.state_play, occasion.play_opened] at placed
  have clock : call.started = ((ofSettings settings).run before).state.clock := by
    rw [continues.started]
    change occasion.opening.state.clock = _
    rw [state_opening]
    rfl
  have set : (occasion.history (orderPipeline.scripts order)).state.scopes.deadline? call.context =
      some (((ofSettings settings).run before).state.clock + settings.requestTimeout) := by
    rw [continues.context]
    exact Option.bind_eq_some_iff.mpr ⟨own, placed, deadline⟩
  obtain ⟨early, returns⟩ := prompt.punctual _ set
  rw [clock, Nat.max_eq_right (Nat.le_add_right _ _)] at early returns
  rw [reached] at returns
  refine ⟨call, tracks.found, early, fun kept => returns ?_⟩
  have opened := (occasion.sound_opening.tracks_openCall occasion.context (scripts_ne_nil order)).found
  have ungiven : .abortCall occasion.id ∉ occasion.after :=
    fun listed => kept (drop_mem_of_abortCall listed)
  refine State.aborted_play opened rfl ungiven ?_
  rw [← History.state_play]
  exact tracks.found

theorem isSome_answer (state : State) {orderId : String} {id : CallId} {call : Call}
    (found : state.calls[id]? = some call) (ended : call.ended.isSome = true) :
    ((Handler.Progress.processing orderId id).answer? state).isSome = true := by
  obtain ⟨stop, same⟩ := Option.isSome_iff_exists.mp ended
  simp [Handler.Progress.answer?, found, same]

/-- Every answer to an order comes in time, and unless the order is given up there is one, once the
time is past or everything has happened that can happen up to it. -/
theorem answers_in_time (settings : Settings) (before after : List Event) (order : Order) :
    let desk := (ofSettings settings).run before
    let progress := (desk.handler.accept desk.state order).2
    let final := (ofSettings settings).run (before ++ .handle order :: after)
    let limit := desk.state.clock + settings.requestTimeout
    (∀ answer time, progress.answer? final.state = some (answer, time) → time ≤ limit) ∧
      ((∀ orderId call, progress = .processing orderId call → .drop call ∉ after) →
        (limit < final.state.clock → (progress.answer? final.state).isSome = true) ∧
        (progress.answer? (final.state.advanceTo limit)).isSome = true) := by
  intro desk progress final limit
  by_cases named : order.id = ""
  · have refused : progress = .answered .missingOrderId desk.state.clock := by
      simp [progress, Handler.accept, named]
    rw [refused]
    refine ⟨fun answer time same => ?_, fun _ => ⟨fun _ => rfl, rfl⟩⟩
    obtain ⟨_, rfl⟩ := Prod.mk.inj (Option.some.inj same)
    exact Nat.le_add_right _ _
  · have processing (later : List Event) :
        progress = .processing order.id (occasion settings before order later).id :=
      processing_accept named
    obtain ⟨call, found, early, returns⟩ :=
      prompt_occasion settings before after named
    rw [Occasion.call?, state_history named] at found
    refine ⟨fun answer time answered => ?_, fun kept => ⟨fun passed => ?_, ?_⟩⟩
    · rw [processing after] at answered
      simp only [Handler.Progress.answer?, Option.bind_eq_bind, Option.bind_eq_some_iff,
        Option.pure_def, Option.some.injEq, Prod.mk.injEq] at answered
      obtain ⟨again, there, stop, ended, _, rfl⟩ := answered
      obtain rfl := Option.some.inj (found.symm.trans there)
      exact early stop.1 stop.2 ended
    · rw [processing after]
      exact isSome_answer final.state found (returns (kept _ _ (processing after)) (.inl passed))
    · obtain ⟨events, settled, ungiven⟩ := final.exists_run_of_settle (some limit)
      obtain ⟨call, found, _, returns⟩ :=
        prompt_occasion settings before (after ++ events) named
      have reached : ((ofSettings settings).run (before ++ .handle order :: (after ++ events))).state =
          final.state.settle (some limit) := by
        rw [← settled, ← List.cons_append, ← List.append_assoc, run, List.foldl_append]
        rfl
      rw [Occasion.call?, state_history named, reached] at found
      rw [reached] at returns
      rw [processing (after ++ events)]
      refine isSome_answer (final.state.advanceTo limit) found (returns ?_ (.inr ?_))
      · intro member
        rcases List.mem_append.mp member with old | new
        · exact kept _ _ (processing (after ++ events)) old
        · exact ungiven _ new
      · exact State.tick_settle (some limit) final.state

end Desk

/-- A call whose bodies never sleep returns at the first instant at which one of its steps has
failed, its context has ended while a step is blocked, or all of its steps have ended. Orders are
such calls, and so each of them is answered within the time that an order may take. -/
theorem calls_return_promptly :
    (∀ (ρ : Type) (pipeline : Pipeline ρ) (request : ρ) (occasion : Occasion),
      occasion.context < occasion.scope →
      (∀ step ∈ pipeline.scripts request, ∀ millis, .sleep millis ∉ step.2) →
      ∃ call, occasion.call? (pipeline.scripts request) = some call ∧
        call.context = occasion.context ∧ call.started = occasion.opening.state.clock ∧
        occasion.Prompt (pipeline.scripts request) call) ∧
    ∀ (settings : Settings) (before after : List Desk.Event) (order : Order),
      let desk := (Desk.ofSettings settings).run before
      let progress := (desk.handler.accept desk.state order).2
      let final := (Desk.ofSettings settings).run (before ++ .handle order :: after)
      let limit := desk.state.clock + settings.requestTimeout
      (∀ answer time, progress.answer? final.state = some (answer, time) → time ≤ limit) ∧
        ((∀ orderId call, progress = .processing orderId call → .drop call ∉ after) →
          (limit < final.state.clock → (progress.answer? final.state).isSome = true) ∧
          (progress.answer? (final.state.advanceTo limit)).isSome = true) := by
  refine ⟨fun ρ pipeline request occasion known awake => ?_, Desk.answers_in_time⟩
  have nonempty : pipeline.scripts request ≠ [] := by
    simpa [Pipeline.scripts] using pipeline.nonempty
  obtain ⟨call, tracks, continues⟩ := occasion.exists_tracks nonempty
  exact ⟨call, tracks.found, continues.context, continues.started,
    occasion.prompt nonempty known awake tracks.found⟩

/-- One body has the only slot, one is in line for it, and one fails. -/
def Pipeline.queued : Pipeline Unit where
  steps :=
    [{ name := "holder", body := fun _ => [.acquire, .wait 30], named := by decide },
      { name := "waiter", body := fun _ => [.acquire, .wait 30], named := by decide },
      { name := "loser", body := fun _ => [.wait 10, .fail (.other (.plain "no"))], named := by decide }]
  nonempty := by decide
  distinct := by decide

def Schedule.Occasion.queued : Occasion where
  limiter := .new 1
  before := [.addBackground]
  context := 0
  after :=
    [.turn (.task 0), .turn (.task 1), .turn (.task 2), .jump 10, .turn (.task 2), .turn (.call 0),
      .turn (.task 0), .turn (.task 1), .turn (.call 0)]

theorem calls_return_promptly_queued :
    (∃ call, Occasion.queued.call? (Pipeline.queued.scripts ()) = some call ∧
      call.ended = some (10, none) ∧
      IsLeast (Occasion.queued.pressing (Pipeline.queued.scripts ()) call) 10) ∧
    let desk := (Desk.ofSettings .usual).run []
    let progress := (desk.handler.accept desk.state (.new "order" 5)).2
    let final := (Desk.ofSettings .usual).run ([] ++ .handle (.new "order" 5) :: [])
    (progress.answer? (final.state.advanceTo 2000)).isSome = true := by
  constructor
  · obtain ⟨call, found, _, _, prompt⟩ := calls_return_promptly.1 Unit Pipeline.queued () .queued
      (by decide +kernel) (by simp [Pipeline.queued, Pipeline.scripts])
    have result : (Occasion.queued.call? (Pipeline.queued.scripts ())).map Call.ended =
        some (some (10, none)) := by
      decide +kernel
    rw [found, Option.map_some, Option.some.injEq] at result
    exact ⟨call, found, result, prompt.least 10 none result⟩
  · exact ((calls_return_promptly.2 .usual [] [] (.new "order" 5)).2 fun _ _ _ => by simp).2

end OrderDesk
