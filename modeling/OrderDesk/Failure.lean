import OrderDesk.Text.Quoted

/-! Why a step failed. A failure stands at the head of a chain: each link may name the problem
underneath it. The first classification tag on the chain and the first cancellation on it decide
what the failure means to everybody else. -/

namespace OrderDesk

inductive Cause where
  | canceled
  | deadline
  deriving DecidableEq, Repr

def Cause.message : Cause → String
  | canceled => "context canceled"
  | deadline => "context deadline exceeded"

inductive OrderProblem where
  | paymentDeclined
  | vendorUnavailable
  | noCourier
  deriving DecidableEq, Repr

namespace OrderProblem

def message : OrderProblem → String
  | paymentDeclined => "payment declined"
  | vendorUnavailable => "vendor unavailable"
  | noCourier => "no courier available"

def tag : OrderProblem → String
  | paymentDeclined => "payment_declined"
  | vendorUnavailable => "vendor_unavailable"
  | noCourier => "no_courier"

end OrderProblem

mutual

inductive Failure where
  /-- The scope came to an end. -/
  | cancelled (cause : Cause)
  /-- A problem with a classification tag. -/
  | classified (tag : String) (source : Problem)
  /-- Another failure, with a note on what was being done. -/
  | within (note : String) (inner : Failure)
  /-- A problem without a tag. -/
  | other (source : Problem)

/-- A link of a chain. Only a failure carries a tag that counts; a taggable problem that was
never classified is a problem like any other. A failure in a box reads like the failure, but the box
hides what it is. -/
inductive Problem where
  | plain (message : String)
  | io (message : String)
  /-- An input or output error made of another problem: it reads like that problem, and the
  chain goes on with what lies under it. -/
  | ioOf (inner : Problem)
  | cancelled (cause : Cause)
  | taggable (tag message : String) (source : Option Problem)
  | order (problem : OrderProblem)
  | step (failure : Failure)
  | boxed (failure : Failure)
  | wrapped (message : String) (source : Option Problem)
  /-- A step body crashed with a message of its own. -/
  | crash (message : String)

end

mutual

def Failure.message : Failure → String
  | .cancelled cause => cause.message
  | .classified _ source => source.message
  | .within note inner => note ++ ": " ++ inner.message
  | .other source => source.message

def Problem.message : Problem → String
  | .plain message => message
  | .io message => message
  | .ioOf inner => inner.message
  | .cancelled cause => cause.message
  | .taggable _ message _ => message
  | .order problem => problem.message
  | .step failure => failure.message
  | .boxed failure => failure.message
  | .wrapped message _ => message
  | .crash message => "task # panicked with message " ++ Text.quoted message

end

mutual

def Failure.links : Failure → List Problem
  | .cancelled cause => [.cancelled cause]
  | .classified _ source => source :: source.links
  | .within _ inner => .boxed inner :: inner.links
  | .other source => source :: source.links

def Problem.links : Problem → List Problem
  | .plain _ => []
  | .io _ => []
  | .ioOf inner => inner.links
  | .cancelled _ => []
  | .taggable _ _ none => []
  | .taggable _ _ (some source) => source :: source.links
  | .order _ => []
  | .step failure => failure.links
  | .boxed failure => failure.links
  | .wrapped _ none => []
  | .wrapped _ (some source) => source :: source.links
  | .crash _ => []

end

namespace Problem

def unboxed : Problem → Problem
  | .boxed failure => .step failure
  | problem => problem

def tag? : Problem → Option String
  | .step (.classified tag _) => some tag
  | _ => none

def cause? : Problem → Option Cause
  | .cancelled cause => some cause
  | _ => none

def isCrash : Problem → Bool
  | .crash _ => true
  | _ => false

end Problem

namespace Failure

/-- The whole chain, beginning with the failure itself. All boxes are looked into. -/
def chain (failure : Failure) : List Problem :=
  (.step failure :: failure.links).map Problem.unboxed

/-- The outermost classification tag on the chain. -/
def kind (failure : Failure) : Option String :=
  failure.chain.findSome? Problem.tag?

/-- The outermost cancellation on the chain. -/
def cancellation (failure : Failure) : Option Cause :=
  failure.chain.findSome? Problem.cause?

def isCancellation (failure : Failure) : Bool :=
  failure.cancellation.isSome

def find? (failure : Failure) (wanted : Problem → Bool) : Option Problem :=
  failure.chain.find? wanted

def ofOrderProblem (problem : OrderProblem) : Failure :=
  .classified problem.tag (.order problem)

/-- The classification that goes out to the client. A tag wins over a cancellation. -/
def wireKind (failure : Failure) : String :=
  match failure.kind, failure.cancellation with
  | some kind, _ => kind
  | none, some .deadline => "timeout"
  | none, some .canceled => "canceled"
  | none, none => "internal"

end Failure

end OrderDesk
