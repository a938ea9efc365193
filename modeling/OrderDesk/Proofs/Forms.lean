import Mathlib.Data.List.Nodup
import Mathlib.Data.List.Perm.Basic
import OrderDesk.Proofs.Members

/-! What an order has to say. An object describes an order if it has no member twice, and no member but
those of an order, each with a value that suits it. The order of the members makes no difference. What
the fields of an order gather from the members, one after another, is what the members describe. -/

namespace OrderDesk

open Json

theorem lookup_of_mem {α : Type} {entries : List (String × α)}
    (distinct : (entries.map Prod.fst).Nodup) {name : String} {value : α}
    (member : (name, value) ∈ entries) : entries.lookup name = some value := by
  induction entries with
  | nil => cases member
  | cons entry entries ih =>
      obtain ⟨absent, others⟩ := List.nodup_cons.mp distinct
      rcases List.mem_cons.mp member with rfl | later
      · simp
      · have different : (name == entry.1) = false :=
          beq_eq_false_iff_ne.mpr fun same => absent (same ▸ List.mem_map_of_mem later)
        rw [List.lookup_cons, different]
        exact ih others later

theorem lookup_eq_none {α : Type} {entries : List (String × α)} {name : String} :
    entries.lookup name = none ↔ name ∉ entries.map Prod.fst := by
  simp only [List.lookup_eq_none_iff, List.mem_map, not_exists, not_and, bne_iff_ne]
  exact ⟨fun none entry member same => none entry member same.symm,
    fun absent entry member same => absent entry member same.symm⟩

theorem mem_of_lookup {α : Type} {entries : List (String × α)} {name : String} {value : α}
    (found : entries.lookup name = some value) : (name, value) ∈ entries := by
  obtain ⟨front, behind, rfl, _⟩ := List.lookup_eq_some_iff.mp found
  simp

theorem lookup_of_perm {α : Type} {entries others : List (String × α)}
    (distinct : (entries.map Prod.fst).Nodup) (same : entries.Perm others) (name : String) :
    others.lookup name = entries.lookup name := by
  have names := same.map Prod.fst
  cases found : entries.lookup name with
  | some value => exact lookup_of_mem (names.nodup distinct) (same.subset (mem_of_lookup found))
  | none => exact lookup_eq_none.mpr fun member => lookup_eq_none.mp found (names.symm.subset member)

namespace Delays

theorem find?_foldl_put (entries : List (String × Int64)) (delays : Delays) (step : String) :
    find? (entries.foldl (fun delays entry => delays.put entry.1 entry.2) delays) step =
      (entries.reverse.lookup step).or (delays.find? step) := by
  induction entries generalizing delays with
  | nil => rfl
  | cons entry entries ih =>
      obtain ⟨name, millis⟩ := entry
      rw [List.foldl_cons, ih, List.reverse_cons, List.lookup_append, Option.or_assoc]
      congr 1
      by_cases same : step = name
      · subst same
        simp [find?_put_same]
      · have distinct : (step == name) = false := beq_eq_false_iff_ne.mpr same
        rw [find?_put_other _ _ same, List.lookup_cons, distinct]
        rfl

theorem find?_ofEntries (entries : List (String × Int64)) (step : String) :
    (ofEntries entries).find? step = entries.reverse.lookup step := by
  rw [ofEntries, find?_foldl_put]
  exact Option.or_none

end Delays

namespace Order

/-- A latency in milliseconds is an integer, and minus zero is not one. -/
def SaysLatency (entry : String × Value) (latency : String × Int64) : Prop :=
  entry.1 = latency.1 ∧
    ((∃ magnitude, entry.2 = .integer false magnitude ∧ latency.2.toInt = magnitude) ∨
      ∃ magnitude, entry.2 = .integer true magnitude ∧ magnitude ≠ 0 ∧ latency.2.toInt = -magnitude)

def fieldNames : List String := ["order_id", "amount", "fail_step", "delay_ms"]

/-- The members of an object are those of the order. Members may be missing, and in place of two of
them there may be `null`. -/
structure Describes (members : List (String × Value)) (order : Order) : Prop where
  distinct : (members.map Prod.fst).Nodup
  known : ∀ member ∈ members, member.1 ∈ fieldNames
  id : match members.lookup "order_id" with
    | none => order.id = ""
    | some value => value = .text order.id
  amount : match members.lookup "amount" with
    | none => order.amount = 0
    | some value => value = .integer false order.amount.toNat
  failStep : match members.lookup "fail_step" with
    | none | some .null => order.failStep = none
    | some value => ∃ step, value = .text step ∧ order.failStep = some step
  delays : match members.lookup "delay_ms" with
    | none | some .null => order.delays = none
    | some value => ∃ entries latencies, value = .object entries ∧
        List.Forall₂ SaysLatency entries latencies ∧ order.delays = some (.ofEntries latencies)

theorem Describes.perm {members others : List (String × Value)} {order : Order}
    (describes : Describes members order) (same : members.Perm others) : Describes others order := by
  have found (name : String) := lookup_of_perm describes.distinct same name
  obtain ⟨distinct, known, id, amount, failStep, delays⟩ := describes
  exact {
    distinct := (same.map Prod.fst).nodup distinct
    known := fun member included => known member (same.symm.subset included)
    id := by rw [found]; exact id
    amount := by rw [found]; exact amount
    failStep := by rw [found]; exact failStep
    delays := by rw [found]; exact delays }

theorem SaysLatency.names {entries : List (String × Value)} {latencies : List (String × Int64)}
    (said : List.Forall₂ SaysLatency entries latencies) :
    latencies.map Prod.fst = entries.map Prod.fst := by
  induction said with
  | nil => rfl
  | cons head _ ih => rw [List.map_cons, List.map_cons, ih, head.1]

theorem Describes.rearranged {front behind entries others : List (String × Value)} {order : Order}
    (describes : Describes (front ++ ("delay_ms", .object entries) :: behind) order)
    (distinct : (entries.map Prod.fst).Nodup) (same : entries.Perm others) :
    ∃ delays rearranged, order.delays = some delays ∧
      Describes (front ++ ("delay_ms", .object others) :: behind)
        { order with delays := some rearranged } ∧
      ∀ step, Delays.find? rearranged step = Delays.find? delays step := by
  obtain ⟨names, known, id, amount, failStep, delays⟩ := describes
  have names' : ((front ++ ("delay_ms", Value.object others) :: behind).map Prod.fst).Nodup := by
    simpa using names
  have kept {name : String} (other : name ≠ "delay_ms") :
      (front ++ ("delay_ms", Value.object others) :: behind).lookup name =
        (front ++ ("delay_ms", Value.object entries) :: behind).lookup name := by
    have distinct : (name == "delay_ms") = false := beq_eq_false_iff_ne.mpr other
    simp only [List.lookup_append, List.lookup_cons, distinct]
  have here {inner : List (String × Value)} : ("delay_ms", Value.object inner) ∈
      front ++ ("delay_ms", .object inner) :: behind := by simp
  rw [lookup_of_mem names here] at delays
  obtain ⟨_, latencies, object, said, given⟩ := delays
  obtain rfl := Value.object.inj object
  -- The latencies are rearranged along with the entries that say them.
  obtain ⟨moved, said', perm⟩ := List.perm_comp_forall₂ same.symm said
  refine ⟨_, .ofEntries moved, given, ⟨names', fun member listed => ?_, ?_, ?_, ?_, ?_⟩,
    fun step => ?_⟩
  · rcases List.mem_append.mp listed with before | later
    · exact known member (List.mem_append_left _ before)
    · rcases List.mem_cons.mp later with rfl | after
      · simp [fieldNames]
      · exact known member (List.mem_append_right _ (List.mem_cons_of_mem _ after))
  · rw [kept (by decide)]
    exact id
  · rw [kept (by decide)]
    exact amount
  · rw [kept (by decide)]
    exact failStep
  · rw [lookup_of_mem names' here]
    exact ⟨others, moved, rfl, said', rfl⟩
  · rw [Delays.find?_ofEntries, Delays.find?_ofEntries]
    have backwards : latencies.reverse.Perm moved.reverse :=
      ((List.reverse_perm latencies).trans perm.symm).trans (List.reverse_perm moved).symm
    refine lookup_of_perm ?_ backwards step
    rw [List.map_reverse, List.nodup_reverse, SaysLatency.names said]
    exact distinct

end Order

namespace Order

def addEntry (delays : Delays) (entry : String × Value) : Option Delays :=
  entry.2.signed?.map fun millis => delays.put entry.1 millis

def delays? : Value → Option Delays
  | .object entries => entries.foldlM addEntry .empty
  | _ => none

theorem foldlM_addEntry_eq_some {entries : List (String × Value)} {start delays : Delays} :
    entries.foldlM addEntry start = some delays ↔
      ∃ latencies, List.Forall₂ SaysLatency entries latencies ∧
        delays = latencies.foldl (fun delays entry => delays.put entry.1 entry.2) start := by
  induction entries generalizing start with
  | nil =>
      simp [eq_comm]
  | cons entry entries ih =>
      rw [List.foldlM_cons]
      simp only [Option.bind_eq_bind, Option.bind_eq_some_iff, addEntry, Option.map_eq_some_iff,
        Value.signed?_eq_some, ih]
      constructor
      · rintro ⟨_, ⟨millis, said, rfl⟩, latencies, others, rfl⟩
        exact ⟨(entry.1, millis) :: latencies, .cons ⟨rfl, said⟩ others, rfl⟩
      · rintro ⟨_, matched, rfl⟩
        obtain ⟨⟨name, millis⟩, latencies, ⟨same, said⟩, others, rfl⟩ :=
          List.forall₂_cons_left_iff.mp matched
        exact ⟨_, ⟨millis, said, rfl⟩, latencies, others, same ▸ rfl⟩

theorem delays?_eq_some {value : Value} {delays : Delays} :
    delays? value = some delays ↔ ∃ entries latencies, value = .object entries ∧
      List.Forall₂ SaysLatency entries latencies ∧ delays = .ofEntries latencies := by
  cases value with
  | object entries => simp [delays?, foldlM_addEntry_eq_some, Delays.ofEntries]
  | _ => simp [delays?]

theorem delays?_eq_none {value : Value} {char : Char} (begins : value.Begins char)
    (other : char ≠ '\x7b') : delays? value = none := by
  cases value with
  | object => exact absurd begins other
  | _ => rfl

def readEntry (step : String) (delays : Delays) : Reader Delays := fun text => do
  let (millis, text) ← readSigned (← readColon text)
  return (delays.put step millis, text)

theorem makes_readEntry (delays : Delays) (entry : String × Value) :
    MakesMember (readEntry entry.1 delays) entry.2 (addEntry delays entry) :=
  Makes.behind_colon (Makes.map (makes_readSigned entry.2) fun millis => delays.put entry.1 millis)

theorem grounded_readEntry (step : String) (delays : Delays) :
    GroundedMember (readEntry step delays) :=
  Grounded.behind_colon (Grounded.map (grounded_readInteger _ _) fun millis => delays.put step millis)

theorem makes_readDelays (value : Value) : Makes readDelays value (delays? value) := by
  intro before text rest blank spelled stands
  obtain ⟨char, tail, rfl, begins⟩ := spelled.exists_first
  rw [List.cons_append, readDelays, atValue_blank blank begins.solid]
  split
  · rename_i brace
    subst brace
    obtain ⟨entries, rfl⟩ := begins.exists_object
    obtain ⟨blanks, blank', read⟩ := @toOption_members _ readEntry addEntry _ _ spelled
      (fun entry _ delays => makes_readEntry delays entry) .empty rest
    rw [toOption_bind, delays?]
    change (readMembers readEntry _ _ _ _).toOption.bind _ = _
    rw [read]
    cases entries.foldlM addEntry .empty with
    | none => rfl
    | some delays =>
        simp only [Option.map_some, Option.bind_some, closeObject_blank blank']
        rfl
  · rename_i other
    rw [delays?_eq_none begins other]
    rfl

theorem grounded_readDelays : Grounded readDelays := by
  refine grounded_atValue fun {char text rest made} succeeded => ?_
  split at succeeded
  · rename_i brace
    subst brace
    obtain ⟨⟨delays, middle⟩, members, done⟩ := bind_eq_ok.mp succeeded
    obtain ⟨behind, closed, same⟩ := bind_eq_ok.mp done
    obtain ⟨_, rfl⟩ := Prod.mk.inj (Except.ok.inj same)
    exact exists_spelled_object grounded_readEntry members closed
  · cases succeeded

/-! ## Gathering an order -/

def view (name : String) (draft : Draft) (value : Value) : Option Draft :=
  if name = "order_id" then value.text?.map fun id => { draft with id := some id }
  else if name = "amount" then value.unsigned?.map fun amount => { draft with amount := some amount }
  else if name = "fail_step" then
    (value.optional? value.text?).map fun step => { draft with failStep := some step }
  else (value.optional? (delays? value)).map fun delays => { draft with delays := some delays }

theorem makes_fields : ∀ field ∈ shape.fields, ∀ draft value,
    Makes (field.read draft) value (view field.name draft value) := by
  simp only [shape, List.forall_mem_cons]
  refine ⟨fun draft value => ?_, fun draft value => ?_, fun draft value => ?_,
    fun draft value => ?_, List.forall_mem_nil _⟩
  · exact Makes.map (makes_readText value) fun id => { draft with id := some id }
  · exact Makes.map (makes_readUnsigned value) fun amount => { draft with amount := some amount }
  · exact Makes.map (makes_readOptional (makes_readText value)) fun step =>
      { draft with failStep := some step }
  · exact Makes.map (makes_readOptional (makes_readDelays value)) fun delays =>
      { draft with delays := some delays }

theorem grounded_fields : ∀ field ∈ shape.fields, ∀ draft, Grounded (field.read draft) := by
  simp only [shape, List.forall_mem_cons]
  refine ⟨fun draft => ?_, fun draft => ?_, fun draft => ?_, fun draft => ?_, List.forall_mem_nil _⟩
  · exact Grounded.map grounded_readText fun id => { draft with id := some id }
  · exact Grounded.map (grounded_readInteger _ _) fun amount => { draft with amount := some amount }
  · exact Grounded.map (grounded_readOptional grounded_readText) fun step =>
      { draft with failStep := some step }
  · exact Grounded.map (grounded_readOptional grounded_readDelays) fun delays =>
      { draft with delays := some delays }

theorem views_shape (entry : String × Value) : shape.Views view entry := by
  intro field found draft
  have named : field.name = entry.1 := by simpa using List.find?_some found
  rw [← named]
  exact makes_fields field (List.mem_of_find?_eq_some found) draft entry.2

theorem complete?_shape (draft : Draft) : shape.complete? draft = some draft := rfl

theorem makes_shape (members : List (String × Value)) :
    Makes (shape.read {}) (.object members) (members.foldlM (shape.step view) {}) := by
  have makes : Makes (shape.read {}) (.object members)
      ((members.foldlM (shape.step view) {}).bind shape.complete?) :=
    Shape.makes_read (fun entry _ => ⟨views_shape entry, .inl rfl⟩) {}
  rwa [show shape.complete? = some from funext complete?_shape, Option.bind_fun_some] at makes

def Fills {α : Type} (view : Value → Option α) (start : Option α) (given : Option Value)
    (result : Option α) : Prop :=
  match given with
  | none => result = start
  | some value => start = none ∧ ∃ made, view value = some made ∧ result = some made

theorem fills_given {α : Type} {view : Value → Option α} {start result : Option α} {name : String}
    {value : Value} {members : List (String × Value)} :
    (start = none ∧ ∃ made, view value = some made ∧
        Fills view (some made) (members.lookup name) result) ↔
      name ∉ members.map Prod.fst ∧ Fills view start (some value) result := by
  rw [← lookup_eq_none]
  cases members.lookup name <;> simp [Fills]

structure Gathers (draft : Draft) (members : List (String × Value)) (all : Draft) : Prop where
  distinct : (members.map Prod.fst).Nodup
  known : ∀ member ∈ members, member.1 ∈ fieldNames
  id : Fills Value.text? draft.id (members.lookup "order_id") all.id
  amount : Fills Value.unsigned? draft.amount (members.lookup "amount") all.amount
  failStep : Fills (fun value => value.optional? value.text?) draft.failStep
    (members.lookup "fail_step") all.failStep
  delays : Fills (fun value => value.optional? (delays? value)) draft.delays
    (members.lookup "delay_ms") all.delays

theorem gathers_nil {draft all : Draft} : Gathers draft [] all ↔ draft = all := by
  constructor
  · rintro ⟨_, _, id, amount, failStep, delays⟩
    cases all
    cases draft
    simp only [Fills, List.lookup_nil] at id amount failStep delays
    subst id amount failStep delays
    rfl
  · rintro rfl
    exact ⟨.nil, nofun, rfl, rfl, rfl, rfl⟩

theorem exists_step {α : Type} {start made : Option α} {put : α → Draft} {leads : Draft → Prop} :
    (∃ next, (if start.isSome then none else made.map put) = some next ∧ leads next) ↔
      start = none ∧ ∃ value, made = some value ∧ leads (put value) := by
  cases start <;> cases made <;> simp

theorem gathers_iff {draft all : Draft} {members : List (String × Value)} :
    Gathers draft members all ↔ (members.map Prod.fst).Nodup ∧
      (∀ member ∈ members, member.1 ∈ fieldNames) ∧
      Fills Value.text? draft.id (members.lookup "order_id") all.id ∧
      Fills Value.unsigned? draft.amount (members.lookup "amount") all.amount ∧
      Fills (fun value => value.optional? value.text?) draft.failStep
        (members.lookup "fail_step") all.failStep ∧
      Fills (fun value => value.optional? (delays? value)) draft.delays
        (members.lookup "delay_ms") all.delays :=
  ⟨fun ⟨distinct, known, id, amount, failStep, delays⟩ =>
    ⟨distinct, known, id, amount, failStep, delays⟩,
    fun ⟨distinct, known, id, amount, failStep, delays⟩ =>
    ⟨distinct, known, id, amount, failStep, delays⟩⟩

theorem exists_step_gathers {name : String} {value : Value} {members : List (String × Value)}
    {draft all : Draft} :
    (∃ next, shape.step view draft (name, value) = some next ∧ Gathers next members all) ↔
      Gathers draft ((name, value) :: members) all := by
  by_cases known : name ∈ fieldNames
  -- The entry fills one field, and to the other three it makes no difference.
  · simp only [gathers_iff, List.map_cons, List.nodup_cons, List.forall_mem_cons, known, true_and]
    simp only [fieldNames, List.mem_cons, List.not_mem_nil, or_false] at known
    rcases known with rfl | rfl | rfl | rfl
    all_goals simp only [List.lookup_cons, String.reduceBEq]
    · have given := @fills_given _ Value.text? draft.id all.id "order_id" value members
      refine (@exists_step _ _ _ (fun id => { draft with id := some id }) _).trans ?_
      grind
    · have given := @fills_given _ Value.unsigned? draft.amount all.amount "amount" value members
      refine (@exists_step _ _ _ (fun amount => { draft with amount := some amount }) _).trans ?_
      grind
    · have given := @fills_given _ (fun value => value.optional? value.text?) draft.failStep
        all.failStep "fail_step" value members
      refine (@exists_step _ _ _ (fun step => { draft with failStep := some step }) _).trans ?_
      grind
    · have given := @fills_given _ (fun value => value.optional? (delays? value)) draft.delays
        all.delays "delay_ms" value members
      refine (@exists_step _ _ _ (fun delays => { draft with delays := some delays }) _).trans ?_
      grind
  · have unnamed : (shape.fields.find? fun field => field.name == name) = none :=
      List.find?_eq_none.mpr fun field listed named =>
        known (beq_iff_eq.mp named ▸ List.mem_map_of_mem listed)
    simp only [Shape.step, unnamed, reduceCtorEq, false_and, exists_false, false_iff]
    exact fun gathers => known (gathers.known _ List.mem_cons_self)

theorem foldlM_step_eq_some {members : List (String × Value)} {draft all : Draft} :
    members.foldlM (shape.step view) draft = some all ↔ Gathers draft members all := by
  induction members generalizing draft with
  | nil =>
      rw [List.foldlM_nil, gathers_nil]
      exact Option.some_inj
  | cons entry members ih =>
      rw [List.foldlM_cons, ← exists_step_gathers]
      simp only [Option.bind_eq_bind, Option.bind_eq_some_iff, ih]

theorem exists_fills {α : Type} {view : Value → Option α} {given : Option Value} {usual made : α} :
    (∃ result, Fills view none given result ∧ result.getD usual = made) ↔
      match given with
      | none => made = usual
      | some value => view value = some made := by
  cases given <;> simp [Fills, eq_comm]

theorem exists_id {given : Option Value} {id : String} :
    (∃ result, Fills Value.text? none given result ∧ result.getD "" = id) ↔
      match given with
      | none => id = ""
      | some value => value = .text id := by
  rw [exists_fills]
  cases given with
  | none => rfl
  | some value => exact Value.text?_eq_some

theorem exists_amount {given : Option Value} {amount : UInt64} :
    (∃ result, Fills Value.unsigned? none given result ∧ result.getD 0 = amount) ↔
      match given with
      | none => amount = 0
      | some value => value = .integer false amount.toNat := by
  rw [exists_fills]
  cases given with
  | none => rfl
  | some value => exact Value.unsigned?_eq_some

theorem exists_optional {α : Type} {view : Value → Option α} {given : Option Value}
    {made : Option α} :
    (∃ result, Fills (fun value => value.optional? (view value)) none given result ∧
        result.getD none = made) ↔
      match given with
      | none | some .null => made = none
      | some value => ∃ inner, view value = some inner ∧ made = some inner := by
  rw [exists_fills]
  rcases given with _ | value
  · rfl
  · cases value with
    | null => simp [Value.optional?, eq_comm]
    | _ => simp [Value.optional?, @eq_comm _ made]

theorem exists_failStep {given : Option Value} {failStep : Option String} :
    (∃ result, Fills (fun value => value.optional? value.text?) none given result ∧
        result.getD none = failStep) ↔
      match given with
      | none | some .null => failStep = none
      | some value => ∃ step, value = .text step ∧ failStep = some step := by
  simp only [exists_optional, Value.text?_eq_some]

theorem exists_delays {given : Option Value} {delays : Option Delays} :
    (∃ result, Fills (fun value => value.optional? (delays? value)) none given result ∧
        result.getD none = delays) ↔
      match given with
      | none | some .null => delays = none
      | some value => ∃ entries latencies, value = .object entries ∧
          List.Forall₂ SaysLatency entries latencies ∧ delays = some (.ofEntries latencies) := by
  have pick {value : Value} : (∃ inner, delays? value = some inner ∧ delays = some inner) ↔
      ∃ entries latencies, value = .object entries ∧ List.Forall₂ SaysLatency entries latencies ∧
        delays = some (.ofEntries latencies) := by
    simp only [delays?_eq_some]
    constructor
    · rintro ⟨_, ⟨entries, latencies, object, said, rfl⟩, given⟩
      exact ⟨entries, latencies, object, said, given⟩
    · rintro ⟨entries, latencies, object, said, given⟩
      exact ⟨_, ⟨entries, latencies, object, said, rfl⟩, given⟩
  simp only [exists_optional, pick]

/-- The members that lead to an order are those that describe it. -/
theorem exists_gathers {members : List (String × Value)} {order : Order} :
    (∃ all, Gathers {} members all ∧ all.finish = order) ↔ Describes members order := by
  constructor
  · rintro ⟨all, ⟨distinct, known, id, amount, failStep, delays⟩, rfl⟩
    exact ⟨distinct, known, exists_id.mp ⟨_, id, rfl⟩, exists_amount.mp ⟨_, amount, rfl⟩,
      exists_failStep.mp ⟨_, failStep, rfl⟩, exists_delays.mp ⟨_, delays, rfl⟩⟩
  · rintro ⟨distinct, known, id, amount, failStep, delays⟩
    obtain ⟨a, fillsId, id⟩ := exists_id.mpr id
    obtain ⟨b, fillsAmount, amount⟩ := exists_amount.mpr amount
    obtain ⟨c, fillsStep, failStep⟩ := exists_failStep.mpr failStep
    obtain ⟨d, fillsDelays, delays⟩ := exists_delays.mpr delays
    refine ⟨⟨a, b, c, d⟩, ⟨distinct, known, fillsId, fillsAmount, fillsStep, fillsDelays⟩, ?_⟩
    rw [Draft.finish, id, amount, failStep, delays]

end Order

end OrderDesk
