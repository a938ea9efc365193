import Mathlib.Order.Bounds.Basic
import OrderDesk.Exercise

/-! Chronicles tell what operations say about contexts: from which scope each scope was derived and
with which deadline, which scope each context has, and which scopes were canceled. Deadlines set on
the way to a scope and cancellations of what it descends from are read off the chronicle, and nothing
of a chronicle is ever lost. -/

namespace OrderDesk

open Schedule

namespace Exercise

/-- From which scope a scope was derived, if from any, and the deadline that was set for it then. -/
structure Birth where
  parent : Option ScopeId
  deadline : Option Nat

/-- What the operations say about contexts. Scopes are numbered in the order in which they come
about, and so are contexts. -/
structure Chronicle where
  now : Nat
  births : List Birth
  contexts : List ScopeId
  canceled : List ScopeId

namespace Chronicle

def start : Chronicle :=
  { now := 0, births := [⟨none, none⟩], contexts := [0], canceled := [] }

def scope (chronicle : Chronicle) (context : Nat) : ScopeId :=
  chronicle.contexts.getD context 0

def bear (chronicle : Chronicle) (birth : Birth) : Chronicle :=
  { chronicle with
    births := chronicle.births ++ [birth]
    contexts := chronicle.contexts ++ [chronicle.births.length] }

def add (chronicle : Chronicle) : Operation → Chronicle
  | .background => chronicle.bear ⟨none, none⟩
  | .clone context =>
      { chronicle with contexts := chronicle.contexts ++ [chronicle.scope context] }
  | .child context => chronicle.bear ⟨some (chronicle.scope context), none⟩
  | .withTimeout context millis =>
      chronicle.bear ⟨some (chronicle.scope context), some (chronicle.now + millis)⟩
  | .withDeadline context time => chronicle.bear ⟨some (chronicle.scope context), some time⟩
  | .cancel context =>
      { chronicle with canceled := chronicle.canceled ++ [chronicle.scope context] }
  | .advance millis => { chronicle with now := chronicle.now + millis }
  | _ => chronicle

def ofOperations (operations : List Operation) : Chronicle :=
  operations.foldl add start

/-- A scope descends from itself, from the one that it was derived from, and so on. -/
inductive Descends (chronicle : Chronicle) : ScopeId → ScopeId → Prop
  | self (scope : ScopeId) : Descends chronicle scope scope
  | derived {scope parent above : ScopeId} {deadline : Option Nat}
      (born : chronicle.births[scope]? = some ⟨some parent, deadline⟩)
      (further : Descends chronicle parent above) : Descends chronicle scope above

/-- The deadline was set for the scope or for one that it descends from. -/
def Sets (chronicle : Chronicle) (scope : ScopeId) (time : Nat) : Prop :=
  ∃ above parent, chronicle.Descends scope above ∧
    chronicle.births[above]? = some ⟨parent, some time⟩

def IsPast (chronicle : Chronicle) (scope : ScopeId) : Prop :=
  ∃ time, chronicle.Sets scope time ∧ time ≤ chronicle.now

def IsCanceled (chronicle : Chronicle) (scope : ScopeId) : Prop :=
  ∃ target ∈ chronicle.canceled, chronicle.Descends scope target

variable {chronicle after : Chronicle} {id parent above : ScopeId} {deadline : Option Nat} {time : Nat}

theorem descends_of_root (born : chronicle.births[id]? = some ⟨none, deadline⟩) :
    chronicle.Descends id above ↔ above = id := by
  constructor
  · intro descends
    cases descends with
    | self => rfl
    | derived other => cases born.symm.trans other
  · rintro rfl
    exact .self above

theorem descends_of_derived (born : chronicle.births[id]? = some ⟨some parent, deadline⟩) :
    chronicle.Descends id above ↔ above = id ∨ chronicle.Descends parent above := by
  constructor
  · intro descends
    cases descends with
    | self => exact .inl rfl
    | derived other further =>
        cases born.symm.trans other
        exact .inr further
  · rintro (rfl | further)
    · exact .self above
    · exact .derived born further

theorem sets_of_root (born : chronicle.births[id]? = some ⟨none, deadline⟩) :
    chronicle.Sets id time ↔ deadline = some time := by
  simp only [Sets, descends_of_root born]
  constructor
  · rintro ⟨_, _, rfl, other⟩
    cases born.symm.trans other
    rfl
  · rintro rfl
    exact ⟨id, none, rfl, born⟩

theorem sets_of_derived (born : chronicle.births[id]? = some ⟨some parent, deadline⟩) :
    chronicle.Sets id time ↔ chronicle.Sets parent time ∨ deadline = some time := by
  simp only [Sets, descends_of_derived born]
  constructor
  · rintro ⟨above, other, rfl | further, set⟩
    · cases born.symm.trans set
      exact .inr rfl
    · exact .inl ⟨above, other, further, set⟩
  · rintro (⟨above, other, further, set⟩ | rfl)
    · exact ⟨above, other, .inr further, set⟩
    · exact ⟨id, some parent, .inl rfl, born⟩

theorem Descends.trans {inner outer : ScopeId} (lower : chronicle.Descends inner id)
    (upper : chronicle.Descends id outer) : chronicle.Descends inner outer := by
  induction lower with
  | self => exact upper
  | derived born _ ih => exact .derived born (ih upper)

theorem Descends.isPast {inner outer : ScopeId} (descends : chronicle.Descends inner outer)
    (past : chronicle.IsPast outer) : chronicle.IsPast inner := by
  obtain ⟨time, ⟨above, parent, further, born⟩, order⟩ := past
  exact ⟨time, ⟨above, parent, descends.trans further, born⟩, order⟩

theorem Descends.isCanceled {inner outer : ScopeId} (descends : chronicle.Descends inner outer)
    (canceled : chronicle.IsCanceled outer) : chronicle.IsCanceled inner := by
  obtain ⟨target, member, further⟩ := canceled
  exact ⟨target, member, descends.trans further⟩

/-! ## Further operations -/

structure Grows (chronicle after : Chronicle) : Prop where
  now : chronicle.now ≤ after.now
  births : chronicle.births <+: after.births
  contexts : chronicle.contexts <+: after.contexts
  canceled : chronicle.canceled ⊆ after.canceled

theorem grows_add (chronicle : Chronicle) (operation : Operation) :
    chronicle.Grows (chronicle.add operation) := by
  have grows_bear (birth : Birth) : chronicle.Grows (chronicle.bear birth) :=
    ⟨Nat.le_refl _, List.prefix_append _ _, List.prefix_append _ _, List.Subset.refl _⟩
  have still : chronicle.Grows chronicle :=
    ⟨Nat.le_refl _, List.prefix_refl _, List.prefix_refl _, List.Subset.refl _⟩
  cases operation with
  | background | child | withTimeout | withDeadline => exact grows_bear _
  | clone => exact { still with contexts := List.prefix_append _ _ }
  | cancel => exact { still with canceled := List.subset_append_left _ _ }
  | advance => exact { still with now := Nat.le_add_right _ _ }
  | _ => exact still

theorem grows_foldl (chronicle : Chronicle) (operations : List Operation) :
    chronicle.Grows (operations.foldl add chronicle) := by
  induction operations generalizing chronicle with
  | nil => exact ⟨Nat.le_refl _, List.prefix_refl _, List.prefix_refl _, List.Subset.refl _⟩
  | cons operation operations ih =>
      have first := grows_add chronicle operation
      have rest := ih (chronicle.add operation)
      exact ⟨Nat.le_trans first.now rest.now, first.births.trans rest.births,
        first.contexts.trans rest.contexts, List.Subset.trans first.canceled rest.canceled⟩

theorem getElem?_of_begins {α : Type} {items more : List α} (grows : items <+: more) {index : Nat}
    {item : α} (found : items[index]? = some item) : more[index]? = some item := by
  obtain ⟨bound, rfl⟩ := List.getElem?_eq_some_iff.mp found
  exact List.prefix_iff_getElem?.mp grows index bound

theorem Descends.mono (births : chronicle.births <+: after.births) {inner outer : ScopeId}
    (descends : chronicle.Descends inner outer) : after.Descends inner outer := by
  induction descends with
  | self => exact .self _
  | derived born _ ih => exact .derived (getElem?_of_begins births born) ih

theorem Grows.ended (grows : chronicle.Grows after) {scope : ScopeId}
    (ended : chronicle.IsPast scope ∨ chronicle.IsCanceled scope) :
    after.IsPast scope ∨ after.IsCanceled scope := by
  rcases ended with ⟨time, ⟨above, parent, further, born⟩, order⟩ | ⟨target, member, further⟩
  · exact .inl ⟨time, ⟨above, parent, further.mono grows.births, getElem?_of_begins grows.births born⟩,
      Nat.le_trans order grows.now⟩
  · exact .inr ⟨target, grows.canceled member, further.mono grows.births⟩

theorem Grows.scope_eq (grows : chronicle.Grows after) {context : Nat}
    (known : context < chronicle.contexts.length) :
    after.scope context = chronicle.scope context := by
  have found := List.getElem?_eq_getElem known
  simp only [scope, List.getD_eq_getElem?_getD, found, getElem?_of_begins grows.contexts found]

end Chronicle

/-- The time is the earliest one of the set, where nothing stands for no time at all. -/
def IsEarliest : Option Nat → Set Nat → Prop
  | none, times => times = ∅
  | some time, times => IsLeast times time

theorem IsEarliest.union {first second : Option Nat} {times more : Set Nat}
    (least : IsEarliest first times) (other : IsEarliest second more) :
    IsEarliest (earlier first second) (times ∪ more) := by
  cases first with
  | none =>
      obtain rfl : times = ∅ := least
      rw [Set.empty_union]
      exact other
  | some one =>
      cases second with
      | none =>
          obtain rfl : more = ∅ := other
          rw [Set.union_empty]
          exact least
      | some two => exact IsLeast.union least other

theorem isEarliest_some (deadline : Option Nat) : IsEarliest deadline {time | deadline = some time} := by
  cases deadline with
  | none => exact Set.eq_empty_of_forall_notMem fun time absurd => by cases absurd
  | some time => exact ⟨rfl, fun other same => Nat.le_of_eq (Option.some.inj same)⟩

def Operation.source? : Operation → Option Nat
  | .clone context | .child context | .withTimeout context _ | .withDeadline context _ =>
      some context
  | _ => none

end Exercise

end OrderDesk
