import OrderDesk.Handler
import OrderDesk.Proofs.Errors

/-! What is told of a failure with a tag. The answer names the tag, whatever else is on the chain.
The report of the step names it exactly if no link of the chain is a cancellation: otherwise the
step counts as canceled, and an answer that names a tag may come without a step that has failed. -/

namespace OrderDesk

open Schedule

namespace Failure

theorem isCancellation_iff {failure : Failure} :
    failure.isCancellation = true ↔ ∃ cause, Problem.cancelled cause ∈ failure.chain := by
  rw [isCancellation, cancellation, List.findSome?_isSome_iff]
  constructor
  · rintro ⟨link, member, canceled⟩
    cases link with
    | cancelled cause => exact ⟨cause, member⟩
    | _ => cases canceled
  · rintro ⟨cause, member⟩
    exact ⟨_, member, rfl⟩

theorem wireKind_of_kind {failure : Failure} {tag : String} (tagged : failure.kind = some tag) :
    failure.wireKind = tag := by
  simp only [wireKind, tagged]

end Failure

/-! ## Reports and answers -/

/-- The report of a step tells the tag of its failure, unless there is a cancellation on the
chain. -/
structure StepReport.TellsTag (report : StepReport) (failure : Failure) (tag : String) : Prop where
  error_iff : report.status = .error ∧ report.detail = tag ↔
    ¬ ∃ cause, Problem.cancelled cause ∈ failure.chain
  canceled : (∃ cause, Problem.cancelled cause ∈ failure.chain) →
    report.status = .canceled ∧ report.detail = ""

/-- The reply names the tag of the failure. It has a step with that tag, unless there is a
cancellation on the chain. -/
structure Reply.TellsTag (reply : Reply) (failure : Failure) (tag : String) : Prop where
  error : reply.error = some ⟨tag, "order failed"⟩
  step_iff : (∃ step ∈ reply.steps, step.status = .error ∧ step.detail = tag) ↔
    ¬ ∃ cause, Problem.cancelled cause ∈ failure.chain
  canceled : (∃ cause, Problem.cancelled cause ∈ failure.chain) →
    (∀ step ∈ reply.steps, step.status ≠ .error) ∧ ∃ step ∈ reply.steps, step.status = .canceled

namespace Schedule

theorem tellsTag_classify (name : String) (millis : Nat) {failure : Failure} {tag : String}
    (tagged : failure.kind = some tag) :
    (classify name millis (some failure)).TellsTag failure tag := by
  constructor
  · rw [← Failure.isCancellation_iff]
    by_cases canceled : failure.isCancellation = true
    · simp [classify, canceled]
    · simp [classify, canceled, tagged]
  · intro canceled
    simp [classify, Failure.isCancellation_iff.mpr canceled]

theorem Coherent.tellsTag {state : State} {call : Call} {report : Report}
    (coherent : Coherent state call report) (orderId : String) {failure : Failure} {tag : String}
    (reported : report.error = some failure) (tagged : failure.kind = some tag) :
    (Answer.ofReport orderId report).reply.TellsTag failure tag := by
  have reply : (Answer.ofReport orderId report).reply =
      .failed orderId report.steps tag "order failed" := by
    simp only [Answer.ofReport, reported, Failure.wireKind_of_kind tagged]
  have canceled (link : ∃ cause, Problem.cancelled cause ∈ failure.chain) :=
    coherent.cancellation_iff.mp ⟨failure, reported, Failure.isCancellation_iff.mpr link⟩
  rw [reply]
  refine ⟨rfl, ⟨?_, fun free => ?_⟩, canceled⟩
  · rintro ⟨step, member, failed, _⟩ link
    exact (canceled link).1 step member failed
  · have other : failure.isCancellation = false := by
      simpa [← Failure.isCancellation_iff] using free
    obtain ⟨position, step, _, _, _, _, there, failed, detail, _⟩ :=
      coherent.source failure reported other
    exact ⟨step, List.mem_of_getElem? there, failed, by rw [detail, tagged, Option.getD_some]⟩

/-- What a call that has ended tells of every failure with a tag: of each in the place of its step,
and of the one that it reports in the answer. -/
structure TellsTags (state : State) (call : Call) : Prop where
  steps : ∀ (position : Nat) (task : TaskId) (found : Task) (time : Nat) (ending : Ending)
      (failure : Failure) (tag : String), call.tasks[position]? = some task →
    state.tasks[task]? = some found → found.life = .ended time ending →
      ending.outcome = some failure → failure.kind = some tag →
        ∃ report, call.tally.report.steps[position]? = some report ∧ report.TellsTag failure tag
  answer : ∀ (orderId : String) (failure : Failure) (tag : String),
    call.tally.report.error = some failure → failure.kind = some tag →
      (Answer.ofReport orderId call.tally.report).reply.TellsTag failure tag

theorem Tracks.tellsTags {history : History} {id : CallId} {steps : List (String × Script)}
    {call : Call} (tracks : Tracks history id steps call) (ended : call.ended.isSome = true) :
    TellsTags history.state call := by
  have none_left := tracks.ended.mp ended
  constructor
  · intro position task found time ending failure tag placed present life outcome tagged
    obtain ⟨step, _, named, _⟩ := tracks.exists_working placed
    obtain ⟨task', again, time', ending', placed', present', _, life', report⟩ :=
      tracks.report_of_task none_left named
    obtain rfl : task = task' := Option.some.inj (placed.symm.trans placed')
    obtain rfl : found = again := Option.some.inj (present.symm.trans present')
    obtain ⟨rfl, rfl⟩ := Life.ended.inj (life.symm.trans life')
    rw [outcome] at report
    exact ⟨_, report, tellsTag_classify step.1 _ tagged⟩
  · exact fun orderId failure tag reported tagged =>
      (tracks.coherent none_left).tellsTag orderId reported tagged

end Schedule

/-- The answer names the tag of the failure that the call reports, and the report of a step names
the tag of its own failure, but a cancellation anywhere on the chain keeps the tag out of the report
and leaves it in the answer. -/
theorem Pipeline.tags_told {ρ : Type} (pipeline : Pipeline ρ) (request : ρ) (occasion : Occasion) :
    (∀ (failure : Failure) (tag name : String) (millis : Nat), failure.kind = some tag →
      failure.wireKind = tag ∧ (classify name millis (some failure)).TellsTag failure tag) ∧
    ∃ call, occasion.call? (pipeline.scripts request) = some call ∧
      (call.ended.isSome →
        TellsTags (occasion.history (pipeline.scripts request)).state call) := by
  refine ⟨fun failure tag name millis tagged => ?_, ?_⟩
  · exact ⟨Failure.wireKind_of_kind tagged, tellsTag_classify name millis tagged⟩
  · have nonempty : pipeline.scripts request ≠ [] := by
      simpa [Pipeline.scripts] using pipeline.nonempty
    obtain ⟨call, tracks, _⟩ := occasion.exists_tracks nonempty
    exact ⟨call, tracks.found, tracks.tellsTags⟩

/-- A problem with a tag that was brought about by a cancellation. -/
def Failure.interrupted : Failure :=
  .classified "declined" (.taggable "declined" "declined" (some (.cancelled .canceled)))

def Pipeline.interrupted : Pipeline Unit where
  steps := [{ name := "refund", body := fun _ => [.fail .interrupted], named := by decide }]
  nonempty := by decide
  distinct := by decide

/-- The answer names the tag, but the only step is canceled and has no detail. -/
theorem Pipeline.tags_told_interrupted :
    Failure.interrupted.kind = some "declined" ∧
      ((Occasion.ofTasks [0]).call? (Pipeline.interrupted.scripts ())).map
        (fun call => (call.ended.isSome, Answer.ofReport "o-1" call.tally.report)) =
          some (true, ⟨500, .failed "o-1" [⟨"refund", .canceled, ⟨0⟩, ""⟩] "declined" "order failed"⟩) :=
  ⟨by decide +kernel, by decide +kernel⟩

end OrderDesk
