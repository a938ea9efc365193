import OrderDesk.Failure

/-! Scopes: what tells work to stop. A scope ends when it, or a scope it was derived from, is
canceled, or when its deadline comes. Scopes live in one table, where a scope is known by its
place. -/

namespace OrderDesk.Schedule

abbrev ScopeId := Nat

/-- The lineage names the scope itself and all scopes it was derived from, nearest first. -/
structure Scope where
  lineage : List ScopeId
  deadline : Option Nat
  canceled : Bool
  deriving DecidableEq, Repr

def earlier : Option Nat → Option Nat → Option Nat
  | none, other => other
  | one, none => one
  | some one, some other => some (min one other)

abbrev Scopes := List Scope

namespace Scopes

def addBackground (scopes : Scopes) : Scopes :=
  scopes ++ [{ lineage := [scopes.length], deadline := none, canceled := false }]

/-- Adds a scope derived from `parent`. It keeps the earlier deadline, and if its parent is
canceled already, so is it. -/
def derive (scopes : Scopes) (parent : ScopeId) (deadline : Option Nat) : Scopes :=
  match scopes[parent]? with
  | some scope =>
      scopes ++ [{
        lineage := scopes.length :: scope.lineage
        deadline := earlier scope.deadline deadline
        canceled := scope.canceled }]
  | none =>
      scopes ++ [{ lineage := [scopes.length], deadline := deadline, canceled := false }]

def isWithin (scopes : Scopes) (scope ancestor : ScopeId) : Bool :=
  match scopes[scope]? with
  | some scope => scope.lineage.contains ancestor
  | none => false

def cancel (scopes : Scopes) (target : ScopeId) : Scopes :=
  scopes.map fun scope =>
    if scope.lineage.contains target then { scope with canceled := true } else scope

def deadline? (scopes : Scopes) (scope : ScopeId) : Option Nat :=
  scopes[scope]?.bind Scope.deadline

/-- Why a scope has ended by the time `now`, if it has. A deadline that has come hides a
cancellation. -/
def cause? (scopes : Scopes) (scope : ScopeId) (now : Nat) : Option Cause :=
  match scopes[scope]? with
  | none => none
  | some scope =>
      if scope.deadline.any fun deadline => deadline ≤ now then some .deadline
      else if scope.canceled then some .canceled
      else none

/-- What somebody hears who waits for the end of a scope: that the timer for its deadline has fired,
or else that the scope is canceled. -/
def race (scopes : Scopes) (scope : ScopeId) (fired : Nat → Bool) : Option Cause :=
  if (scopes.deadline? scope).any fired then some .deadline
  else if scopes[scope]?.any Scope.canceled then some .canceled
  else none

theorem race_eq {scopes : Scopes} {scope : ScopeId} {fired : Nat → Bool} {now : Nat}
    (exact : ∀ due, scopes.deadline? scope = some due → fired due = decide (due ≤ now)) :
    scopes.race scope fired = scopes.cause? scope now := by
  cases found : scopes[scope]? with
  | none => simp [race, cause?, deadline?, found]
  | some known =>
      cases set : known.deadline with
      | none => simp [race, cause?, deadline?, found, set]
      | some due =>
          have same := exact due (by simp [deadline?, found, set])
          simp [race, cause?, deadline?, found, set, same]

theorem length_cancel (scopes : Scopes) (target : ScopeId) :
    (scopes.cancel target).length = scopes.length := by
  simp [cancel]

end Scopes

end OrderDesk.Schedule
