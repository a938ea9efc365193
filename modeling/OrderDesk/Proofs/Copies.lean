import OrderDesk.Proofs.Bodies

/-! An order that is written can be read again. Its written form is a single line whatever its texts
hold, and both the body of a request and a line of a file with this form come to the order that was
written, whichever way the entries of its latency table are listed. -/

namespace OrderDesk

open Json

namespace Delays

theorem putEntry_of_not_mem {entries : List (String × Int64)} {step : String}
    (absent : step ∉ entries.map Prod.fst) (millis : Int64) :
    putEntry step millis entries = entries ++ [(step, millis)] := by
  induction entries with
  | nil => rfl
  | cons entry rest ih =>
      obtain ⟨other, absent⟩ := not_or.mp (mt List.mem_cons.mpr absent)
      rw [putEntry, if_neg (Ne.symm other), ih absent, List.cons_append]

theorem entries_foldl_put {start : Delays} {entries : List (String × Int64)}
    (distinct : ((start.entries ++ entries).map Prod.fst).Nodup) :
    (entries.foldl (fun delays entry => delays.put entry.1 entry.2) start).entries =
      start.entries ++ entries := by
  induction entries generalizing start with
  | nil => simp
  | cons entry entries ih =>
      have absent : entry.1 ∉ start.entries.map Prod.fst := by
        intro member
        rw [List.map_append, List.map_cons] at distinct
        exact (List.nodup_append.mp distinct).2.2 _ member _ List.mem_cons_self rfl
      have put : (start.put entry.1 entry.2).entries = start.entries ++ [entry] :=
        putEntry_of_not_mem absent entry.2
      rw [List.foldl_cons, ih (by simpa [put] using distinct), put, List.append_assoc]
      rfl

theorem ofEntries_entries (delays : Delays) : ofEntries delays.entries = delays :=
  Delays.ext (entries_foldl_put
    (show ((empty.entries ++ delays.entries).map Prod.fst).Nodup from delays.distinct))

end Delays

namespace Order

def latencyMember (entry : String × Int64) : String × Value :=
  (entry.1, .integer (entry.2.toInt < 0) entry.2.toInt.natAbs)

def members (order : Order) : List (String × Value) :=
  [("order_id", .text order.id), ("amount", .integer false order.amount.toNat)] ++
    (match order.failStep with
      | some step => [("fail_step", .text step)]
      | none => []) ++
    (match order.delays with
      | some delays => [("delay_ms", .object (delays.entries.map latencyMember))]
      | none => [])

theorem spells_delaysText (delays : Delays) :
    Spells (delaysText delays) (.object (delays.entries.map latencyMember)) := by
  refine spells_objectText ?_
  rw [Delays.map, List.forall₂_map_left_iff, List.forall₂_map_right_iff, List.forall₂_same]
  exact fun entry _ => .mk entry.1 (spells_integerText entry.2.toInt)

theorem spells_render (order : Order) : Spells order.render.toList (.object order.members) := by
  obtain ⟨id, amount, failStep, delays⟩ := order
  rw [render, String.toList_ofList]
  refine spells_objectText
    (.cons (.mk _ (spells_literal id)) (.cons (.mk _ (spells_naturalText _)) ?_))
  cases failStep <;> cases delays
  · exact .nil
  · exact .cons (.mk _ (spells_delaysText _)) .nil
  · exact .cons (.mk _ (spells_literal _)) .nil
  · exact .cons (.mk _ (spells_literal _)) (.cons (.mk _ (spells_delaysText _)) .nil)

theorem saysLatency_latencyMember (entry : String × Int64) :
    SaysLatency (latencyMember entry) entry := by
  refine ⟨rfl, ?_⟩
  by_cases negative : entry.2.toInt < 0
  · exact .inr ⟨entry.2.toInt.natAbs, by simp [latencyMember, negative], by omega, by omega⟩
  · exact .inl ⟨entry.2.toInt.natAbs, by simp [latencyMember, negative], by omega⟩

theorem describes_members (order : Order) : Describes order.members order := by
  obtain ⟨id, amount, failStep, delays⟩ := order
  have said (table : Delays) :
      ∃ entries latencies, Value.object (table.entries.map latencyMember) = .object entries ∧
        List.Forall₂ SaysLatency entries latencies ∧ some table = some (.ofEntries latencies) := by
    refine ⟨_, table.entries, rfl, ?_, by rw [Delays.ofEntries_entries]⟩
    rw [List.forall₂_map_left_iff, List.forall₂_same]
    exact fun entry _ => saysLatency_latencyMember entry
  cases failStep <;> cases delays
  · exact ⟨by simp [members], by simp [members, fieldNames], rfl, rfl, rfl, rfl⟩
  · exact ⟨by simp [members], by simp [members, fieldNames], rfl, rfl, rfl, said _⟩
  · exact ⟨by simp [members], by simp [members, fieldNames], rfl, rfl, ⟨_, rfl, rfl⟩, rfl⟩
  · exact ⟨by simp [members], by simp [members, fieldNames], rfl, rfl, ⟨_, rfl, rfl⟩, said _⟩

theorem clean_render (order : Order) : Clean order.render.toList := by
  obtain ⟨id, amount, failStep, delays⟩ := order
  have delaysText (delays : Delays) : Clean (delaysText delays) := by
    refine clean_objectText fun member listed => ?_
    obtain ⟨entry, _, rfl⟩ := List.mem_map.mp listed
    exact clean_integerText _
  rw [render, String.toList_ofList]
  refine clean_objectText ?_
  cases failStep <;> cases delays <;>
    simp [clean_literal, clean_naturalText, delaysText]

/-! ## Reading it again -/

theorem parse_render (order : Order) : parse order.render = .ok order := by
  have parsed := (parse_of_spells isBlank_nil isBlank_nil order.spells_render).mpr
    order.describes_members
  rwa [List.nil_append, List.append_nil, String.ofList_toList] at parsed

end Order

namespace Lines

theorem rawLines_of_clean {text : List Char} (clean : Clean text) :
    rawLines [.bytes (text.flatMap String.utf8EncodeChar ++ [lineFeed])] =
      [.ok (text.flatMap String.utf8EncodeChar)] := by
  have noFeed : lineFeed ∉ text.flatMap String.utf8EncodeChar :=
    not_mem_encoding (clean.not_mem (by decide : '\n'.toNat < 0x20)) (by decide) (by decide)
  have noReturn : carriageReturn ∉ text.flatMap String.utf8EncodeChar :=
    not_mem_encoding (clean.not_mem (by decide : '\r'.toNat < 0x20)) (by decide) (by decide)
  have whole : endLine (text.flatMap String.utf8EncodeChar).reverse =
      text.flatMap String.utf8EncodeChar := by
    unfold endLine
    split
    · rename_i last earlier ends
      have member : last ∈ text.flatMap String.utf8EncodeChar :=
        List.mem_reverse.mp (ends ▸ List.mem_cons_self)
      have other : last ≠ carriageReturn := fun same => noReturn (same ▸ member)
      rw [if_neg other, List.reverse_reverse]
    · rename_i nothing
      exact (List.reverse_eq_nil_iff.mp nothing).symm
  rw [rawLines_append, gather_of_not_mem noFeed, whole]
  rfl

theorem item?_render (order : Order) :
    item? (.ok (order.render.toList.flatMap String.utf8EncodeChar)) = some (.ok order) := by
  have solid : order.render.toList.all Text.isBlank = false := by
    simp [Order.render, objectText, Text.isBlank]
  rw [item?, fromUTF8?_eq_some.mpr rfl]
  simp only [solid, Bool.false_eq_true, if_false, Order.parse_render]
  rfl

end Lines

namespace Order

/-- The same order, with the entries of its latency table listed in any way. -/
def Rearranges (written order : Order) : Prop :=
  written.id = order.id ∧ written.amount = order.amount ∧ written.failStep = order.failStep ∧
    Option.Rel (fun delays others => delays.entries.Perm others.entries) written.delays order.delays

theorem Rearranges.find?_eq {written order : Order} (rearranges : written.Rearranges order)
    (step : String) :
    (written.delays.bind fun delays => delays.find? step) =
      order.delays.bind fun delays => delays.find? step := by
  obtain ⟨_, _, _, delays⟩ := written
  obtain ⟨_, _, _, delays'⟩ := order
  obtain ⟨_, _, _, tables⟩ := rearranges
  cases tables with
  | none => rfl
  | @some _ table same => exact lookup_of_perm table.distinct same.symm step

/-- An order comes back from its written form, as the body of a request and as the only line of a
source, however the entries of its latency table are listed and wherever the source is cut. -/
theorem render_returns {order written : Order} (rearranges : written.Rearranges order) :
    Handler.decode written.render.toUTF8 = .ok written ∧
      (∀ parts : List (List UInt8), parts.flatten = Lines.utf8 written.render ++ [Lines.lineFeed] →
        Lines.orders (parts.map .bytes) = [.ok written]) ∧
      ∀ step, (written.delays.bind fun delays => delays.find? step) =
        order.delays.bind fun delays => delays.find? step := by
  refine ⟨?_, fun parts whole => ?_, rearranges.find?_eq⟩
  · rw [Lines.toUTF8_eq, Handler.decode_eq_ok]
    exact ⟨_, rfl, written.parse_render⟩
  · rw [Lines.orders, Lines.rawLines_pieces, whole, Lines.utf8_eq,
      Lines.rawLines_of_clean written.clean_render, List.filterMap_cons, Lines.item?_render]
    rfl

/-- Texts with quotes, backslashes, controls and characters of several bytes, and numbers at their
bounds. -/
def troublesome : Order where
  id := "\"\\\n\x01💡"
  amount := 18446744073709551615
  failStep := some ""
  delays := some ⟨[("é", Int64.minValue), ("", 5)], by decide⟩

def relisted : Order :=
  { troublesome with delays := some ⟨[("", 5), ("é", Int64.minValue)], by decide⟩ }

theorem render_returns_relisted :
    relisted.Rearranges troublesome ∧ Handler.decode relisted.render.toUTF8 = .ok relisted ∧
      Lines.orders [.bytes (Lines.utf8 relisted.render ++ [Lines.lineFeed])] = [.ok relisted] := by
  have rearranges : relisted.Rearranges troublesome := ⟨rfl, rfl, rfl, .some (.swap _ _ _)⟩
  obtain ⟨decoded, read, _⟩ := render_returns rearranges
  exact ⟨rearranges, decoded, read [_] (List.flatten_singleton)⟩

end Order

end OrderDesk
