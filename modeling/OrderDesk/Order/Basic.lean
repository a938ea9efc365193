/-! Orders. An order names its buyer's reference and its amount. It may ask one step to fail and
may override how long the steps take, which is how failures and delays are exercised. -/

namespace OrderDesk

/-- Latencies in milliseconds by step name. -/
@[ext]
structure Delays where
  entries : List (String × Int64)
  distinct : (entries.map Prod.fst).Nodup
  deriving DecidableEq, Repr

namespace Delays

def empty : Delays where
  entries := []
  distinct := List.nodup_nil

/-- Sets the entry for `step`, in place if there is one and at the end otherwise. -/
def putEntry (step : String) (millis : Int64) : List (String × Int64) → List (String × Int64)
  | [] => [(step, millis)]
  | entry :: rest =>
      if entry.1 = step then (step, millis) :: rest else entry :: putEntry step millis rest

theorem names_putEntry (step : String) (millis : Int64) (entries : List (String × Int64)) :
    (putEntry step millis entries).map Prod.fst =
      if step ∈ entries.map Prod.fst then entries.map Prod.fst
      else entries.map Prod.fst ++ [step] := by
  induction entries with
  | nil => rfl
  | cons entry rest ih =>
      rw [putEntry]
      split
      · rename_i same
        simp [same]
      · rename_i other
        rw [List.map_cons, ih, List.map_cons]
        by_cases listed : step ∈ rest.map Prod.fst
        · rw [if_pos listed, if_pos (List.mem_cons_of_mem _ listed)]
        · rw [if_neg listed, if_neg (by simp [Ne.symm other, listed]), List.cons_append]

def put (step : String) (millis : Int64) (delays : Delays) : Delays where
  entries := putEntry step millis delays.entries
  distinct := by
    rw [names_putEntry]
    split
    · exact delays.distinct
    · rename_i absent
      refine List.nodup_append.mpr ⟨delays.distinct, by simp, ?_⟩
      rintro name listed _ last rfl
      exact absent (List.mem_singleton.mp last ▸ listed)

/-- The table of these entries, of which the last one for a name counts. -/
def ofEntries (entries : List (String × Int64)) : Delays :=
  entries.foldl (fun delays entry => delays.put entry.1 entry.2) empty

instance : Coe (List (String × Int64)) Delays := ⟨ofEntries⟩

def find? (delays : Delays) (step : String) : Option Int64 :=
  delays.entries.lookup step

def map {α : Type} (delays : Delays) (change : String × Int64 → α) : List α :=
  delays.entries.map change

theorem lookup_putEntry_same (step : String) (millis : Int64) (entries : List (String × Int64)) :
    (putEntry step millis entries).lookup step = some millis := by
  induction entries with
  | nil => simp [putEntry]
  | cons entry rest ih =>
      obtain ⟨first, latency⟩ := entry
      rw [putEntry]
      split
      · simp
      · rename_i other
        have distinct : (step == first) = false := by simpa using fun same => other same.symm
        simpa [List.lookup_cons, distinct] using ih

theorem lookup_putEntry_other {step name : String} (other : name ≠ step) (millis : Int64)
    (entries : List (String × Int64)) :
    (putEntry step millis entries).lookup name = entries.lookup name := by
  have distinct : (name == step) = false := by simpa using other
  induction entries with
  | nil => simp [putEntry, List.lookup_cons, distinct]
  | cons entry rest ih =>
      obtain ⟨first, latency⟩ := entry
      rw [putEntry]
      split
      · rename_i same
        obtain rfl : first = step := same
        simp [List.lookup_cons, distinct]
      · simp [List.lookup_cons, ih]

theorem find?_put_same (delays : Delays) (step : String) (millis : Int64) :
    (delays.put step millis).find? step = some millis :=
  lookup_putEntry_same step millis delays.entries

theorem find?_put_other (delays : Delays) {step name : String} (millis : Int64)
    (other : name ≠ step) : (delays.put step millis).find? name = delays.find? name :=
  lookup_putEntry_other other millis delays.entries

end Delays

structure Order where
  id : String
  amount : UInt64
  failStep : Option String
  delays : Option Delays
  deriving DecidableEq, Repr

namespace Order

def new (id : String) (amount : UInt64) : Order :=
  { id := id, amount := amount, failStep := none, delays := none }

def failingAt (order : Order) (step : String) : Order :=
  { order with failStep := some step }

def withDelay (order : Order) (step : String) (millis : Int64) : Order :=
  { order with delays := some ((order.delays.getD .empty).put step millis) }

def failsAt (order : Order) (step : String) : Bool :=
  order.failStep == some step

end Order

/-- The latency of a step in milliseconds: a positive entry counts, and anything else leaves it
at `usual`. -/
def stepLatency (delays : Option Delays) (step : String) (usual : Nat) : Nat :=
  match delays.bind fun delays => delays.find? step with
  | some millis => if 0 < millis then millis.toInt.toNat else usual
  | none => usual

end OrderDesk
