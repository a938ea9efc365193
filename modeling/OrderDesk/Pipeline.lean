import OrderDesk.Order.Basic
import OrderDesk.Schedule.Action

/-! Steps and pipelines. A step has a name and a body that depends on the request; a pipeline is
a list of steps with names of their own, and it is the same for every request. -/

namespace OrderDesk

open Schedule

inductive WiringError where
  | emptyName
  | noSteps
  | duplicateName (name : String)
  deriving DecidableEq, Repr

def WiringError.message : WiringError → String
  | emptyName => "Step::new: empty step name"
  | noSteps => "Orchestrator::new: no steps"
  | duplicateName name => "Orchestrator::new: duplicate step name " ++ Text.quoted name

structure Step (ρ : Type) where
  name : String
  body : ρ → Script
  named : name ≠ ""

namespace Step

variable {ρ : Type}

def new? (name : String) (body : ρ → Script) : Except WiringError (Step ρ) :=
  if named : name = "" then .error .emptyName
  else .ok { name := name, body := body, named := named }

def summary (step : Step ρ) : String :=
  "Step \x7b name: " ++ Text.quoted step.name ++ " \x7d"

end Step

def firstRepeated? (seen : List String) : List String → Option String
  | [] => none
  | name :: names => if name ∈ seen then some name else firstRepeated? (name :: seen) names

theorem nodup_of_firstRepeated? {seen names : List String}
    (none_repeated : firstRepeated? seen names = none) :
    names.Nodup ∧ ∀ name ∈ names, name ∉ seen := by
  induction names generalizing seen with
  | nil => simp
  | cons name names ih =>
      simp only [firstRepeated?] at none_repeated
      split at none_repeated
      · cases none_repeated
      · rename_i fresh
        obtain ⟨distinct, outside⟩ := ih none_repeated
        refine ⟨List.nodup_cons.mpr ⟨fun member => ?_, distinct⟩, ?_⟩
        · exact outside name member (by simp)
        · intro other member
          rcases List.mem_cons.mp member with same | later
          · exact same ▸ fresh
          · exact fun known => outside other later (by simp [known])

structure Pipeline (ρ : Type) where
  steps : List (Step ρ)
  nonempty : steps ≠ []
  distinct : (steps.map Step.name).Nodup

namespace Pipeline

variable {ρ : Type}

def new? (steps : List (Step ρ)) : Except WiringError (Pipeline ρ) :=
  if empty : steps = [] then .error .noSteps
  else
    match repeated : firstRepeated? [] (steps.map Step.name) with
    | some name => .error (.duplicateName name)
    | none =>
        .ok { steps := steps, nonempty := empty, distinct := (nodup_of_firstRepeated? repeated).1 }

def names (pipeline : Pipeline ρ) : List String :=
  pipeline.steps.map Step.name

def scripts (pipeline : Pipeline ρ) (request : ρ) : List (String × Script) :=
  pipeline.steps.map fun step => (step.name, step.body request)

end Pipeline

/-! ## The steps of an order -/

def failIf (fails : Bool) (note : String) (problem : OrderProblem) : Script :=
  if fails then [.fail (.within note (.ofOrderProblem problem))] else []

/-- Charges the buyer. An order of nothing is declined. -/
def paymentStep : Step Order where
  name := "payment"
  body := fun order =>
    [.enter, .wait (stepLatency order.delays "payment" 150)] ++
      failIf (order.failsAt "payment" || order.amount == 0) "payment" .paymentDeclined
  named := by decide

def vendorStep : Step Order where
  name := "vendor"
  body := fun order =>
    [.enter, .wait (stepLatency order.delays "vendor" 200)] ++
      failIf (order.failsAt "vendor") "vendor notify" .vendorUnavailable
  named := by decide

/-- Assigns a courier, who is busy for the whole assignment. -/
def courierStep : Step Order where
  name := "courier"
  body := fun order =>
    [.enter, .acquire, .wait (stepLatency order.delays "courier" 100)] ++
      failIf (order.failsAt "courier") "courier assign" .noCourier
  named := by decide

def orderPipeline : Pipeline Order where
  steps := [paymentStep, vendorStep, courierStep]
  nonempty := by simp
  distinct := by decide

theorem orderPipeline_names : orderPipeline.names = ["payment", "vendor", "courier"] := rfl

end OrderDesk
