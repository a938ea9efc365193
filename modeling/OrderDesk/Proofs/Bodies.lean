import OrderDesk.Proofs.Forms
import OrderDesk.Proofs.Pages
import OrderDesk.Proofs.Prints

/-! Which bodies are orders. A body that begins with a brace is an order exactly if it is an object of
the grammar whose members describe one. How the object is spelled makes no difference. -/

namespace OrderDesk

open Json

namespace Order

theorem parse_eq_ok {text : String} {order : Order} :
    parse text = .ok order ↔
      ∃ draft, readAll (shape.read {}) text.toList = .ok draft ∧ draft.finish = order := by
  rw [parse]
  cases readAll (shape.read {}) text.toList with
  | error fault => simp [Except.map]
  | ok draft => simp [Except.map]

theorem parse_of_spells {before inner after : List Char} {members : List (String × Value)}
    {order : Order} (blank : IsBlank before) (blank' : IsBlank after)
    (spelled : Spells inner (.object members)) :
    parse (String.ofList (before ++ inner ++ after)) = .ok order ↔ Describes members order := by
  rw [parse_eq_ok, String.toList_ofList, ← exists_gathers]
  simp only [← foldlM_step_eq_some, ← toOption_readAll (makes_shape members) blank spelled blank',
    toOption_eq_some]

theorem exists_spelled {text : String} {order : Order} {later : List Char}
    (brace : skipBlanks text.toList = '\x7b' :: later) (succeeded : parse text = .ok order) :
    ∃ before inner after members, text.toList = before ++ inner ++ after ∧ IsBlank before ∧
      IsBlank after ∧ Spells inner (.object members) := by
  obtain ⟨draft, read, _⟩ := parse_eq_ok.mp succeeded
  obtain ⟨after, succeeded, behind⟩ := readAll_eq_ok.mp read
  obtain ⟨before, inner, value, split, blank, spelled⟩ :=
    Shape.exists_spelled rfl grounded_fields brace succeeded
  obtain ⟨char, rest, rfl, begins⟩ := spelled.exists_first
  have first : skipBlanks text.toList = char :: (rest ++ after) := by
    rw [split, blank.skip]
    exact skipBlanks_cons begins.solid _
  obtain ⟨rfl, _⟩ := List.cons.inj (first.symm.trans brace)
  obtain ⟨members, rfl⟩ := begins.exists_object
  refine ⟨before, _, after, members, by rw [split, List.append_assoc], blank, ?_, spelled⟩
  exact fun char member => isJsonBlank_iff.mp (skipBlanks_eq_nil.mp behind char member)

end Order

namespace Handler

theorem decode_eq_ok_iff {body : ByteArray} {order : Order} :
    decode body = .ok order ↔ Order.ofBytes? body = some order := by
  rw [decode]
  cases Order.ofBytes? body <;> simp

theorem decode_eq_ok {bytes : List UInt8} {order : Order} :
    decode ⟨bytes.toArray⟩ = .ok order ↔
      ∃ text, bytes = text.toList.flatMap String.utf8EncodeChar ∧ Order.parse text = .ok order := by
  simp only [decode_eq_ok_iff, Order.ofBytes?, Option.bind_eq_bind, Option.bind_eq_some_iff,
    Lines.fromUTF8?_eq_some, toOption_eq_some]

theorem decode_encoding {text : List Char} {order : Order} :
    decode ⟨(text.flatMap String.utf8EncodeChar).toArray⟩ = .ok order ↔
      Order.parse (String.ofList text) = .ok order := by
  rw [decode_eq_ok]
  constructor
  · rintro ⟨other, encoded, parsed⟩
    have same : String.ofList text = other := by
      rw [← Option.some_inj, ← Lines.fromUTF8?_eq_some.mpr encoded]
      exact (Lines.fromUTF8?_eq_some.mpr (by rw [String.toList_ofList])).symm
    exact same ▸ parsed
  · intro parsed
    exact ⟨_, by rw [String.toList_ofList], parsed⟩

/-- A document that is an object is the order that its members describe, or none. -/
theorem decode_of_document {bytes : List UInt8} {members : List (String × Value)}
    (document : IsDocument bytes (.object members)) {order : Order} :
    decode ⟨bytes.toArray⟩ = .ok order ↔ Order.Describes members order := by
  obtain ⟨before, inner, after, rfl, blank, blank', spelled⟩ := document
  rw [decode_encoding, Order.parse_of_spells blank blank' spelled]

def blankBytes : List UInt8 := [0x20, 0x09, 0x0a, 0x0d]

theorem exists_blankByte {char : Char} (blank : Text.isJsonBlank char = true) :
    ∃ byte ∈ blankBytes, String.utf8EncodeChar char = [byte] := by
  have listed := isJsonBlank_iff.mp blank
  simp only [List.mem_cons, List.not_mem_nil, or_false] at listed
  rcases listed with rfl | rfl | rfl | rfl
  · exact ⟨0x20, by decide, by decide⟩
  · exact ⟨0x09, by decide, by decide⟩
  · exact ⟨0x0a, by decide, by decide⟩
  · exact ⟨0x0d, by decide, by decide⟩

theorem isJsonBlank_of_byte {char : Char} {byte : UInt8} (listed : byte ∈ blankBytes)
    (member : byte ∈ String.utf8EncodeChar char) : Text.isJsonBlank char = true := by
  simp only [blankBytes, List.mem_cons, List.not_mem_nil, or_false] at listed
  rcases listed with rfl | rfl | rfl | rfl
  · have same : char = ' ' := Lines.eq_of_mem_utf8EncodeChar member (by decide) (by decide)
    exact same ▸ rfl
  · have same : char = '\t' := Lines.eq_of_mem_utf8EncodeChar member (by decide) (by decide)
    exact same ▸ rfl
  · have same : char = '\n' := Lines.eq_of_mem_utf8EncodeChar member (by decide) (by decide)
    exact same ▸ rfl
  · have same : char = '\r' := Lines.eq_of_mem_utf8EncodeChar member (by decide) (by decide)
    exact same ▸ rfl

/-- The first byte that is no blank tells the first character that is none. -/
theorem exists_brace_of_bytes {text : List Char}
    (opens : (text.flatMap String.utf8EncodeChar).find? (fun byte => byte ∉ blankBytes) =
      some 0x7b) : ∃ later, skipBlanks text = '\x7b' :: later := by
  induction text with
  | nil => cases opens
  | cons char text ih =>
      cases blank : Text.isJsonBlank char with
      | true =>
          obtain ⟨byte, listed, encoded⟩ := exists_blankByte blank
          rw [List.flatMap_cons, encoded, List.singleton_append,
            List.find?_cons_of_neg (by simpa using listed)] at opens
          rw [skipBlanks, List.dropWhile_cons_of_pos blank]
          exact ih opens
      | false =>
          -- A blank byte is a blank character, so the first byte of this one is none.
          obtain ⟨byte, rest, encoded⟩ :=
            List.exists_cons_of_ne_nil (@String.utf8EncodeChar_ne_nil char)
          have other : byte ∉ blankBytes := fun listed => by
            have member : byte ∈ String.utf8EncodeChar char := encoded ▸ List.mem_cons_self
            rw [isJsonBlank_of_byte listed member] at blank
            cases blank
          rw [List.flatMap_cons, encoded, List.cons_append,
            List.find?_cons_of_pos (by simpa using other), Option.some_inj] at opens
          subst opens
          have member : 0x7b ∈ String.utf8EncodeChar char := encoded ▸ List.mem_cons_self
          have same : char = '\x7b' := Lines.eq_of_mem_utf8EncodeChar member (by decide) (by decide)
          subst same
          exact ⟨text, skipBlanks_cons (by decide) text⟩

/-- A body that begins with a brace is accepted exactly if it is an object of the grammar whose members
describe an order, and it is that order. Members may come in any order and with any blanks, entries of
the latency table as well, and the last entry for a name counts. -/
theorem decode_accepts_exactly_orders (bytes : List UInt8)
    (opens : bytes.find? (fun byte => byte ∉ blankBytes) = some 0x7b) :
    (∀ order, decode ⟨bytes.toArray⟩ = .ok order ↔
        ∃ members, IsDocument bytes (.object members) ∧ Order.Describes members order) ∧
      (∀ latencies step, (Delays.ofEntries latencies).find? step = latencies.reverse.lookup step) ∧
      (∀ members others other, IsDocument bytes (.object members) → members.Perm others →
        IsDocument other (.object others) → decode ⟨other.toArray⟩ = decode ⟨bytes.toArray⟩) ∧
      ∀ front behind entries others other order,
        IsDocument bytes (.object (front ++ ("delay_ms", .object entries) :: behind)) →
        (entries.map Prod.fst).Nodup → entries.Perm others →
        IsDocument other (.object (front ++ ("delay_ms", .object others) :: behind)) →
        decode ⟨bytes.toArray⟩ = .ok order → ∃ delays rearranged, order.delays = some delays ∧
          decode ⟨other.toArray⟩ = .ok { order with delays := some rearranged } ∧
          ∀ step, Delays.find? rearranged step = Delays.find? delays step := by
  refine ⟨fun order => ⟨fun decoded => ?_, ?_⟩, Delays.find?_ofEntries, ?_, ?_⟩
  · obtain ⟨text, encoded, parsed⟩ := decode_eq_ok.mp decoded
    obtain ⟨later, brace⟩ := exists_brace_of_bytes (encoded ▸ opens)
    obtain ⟨before, inner, after, members, split, blank, blank', spelled⟩ :=
      Order.exists_spelled brace parsed
    have document : IsDocument bytes (.object members) :=
      ⟨before, inner, after, split ▸ encoded, blank, blank', spelled⟩
    exact ⟨members, document, (decode_of_document document).mp decoded⟩
  · rintro ⟨members, document, describes⟩
    exact (decode_of_document document).mpr describes
  · intro members others other document same document'
    have accepted : Order.ofBytes? ⟨other.toArray⟩ = Order.ofBytes? ⟨bytes.toArray⟩ := by
      refine Option.ext fun order => ?_
      rw [← decode_eq_ok_iff, ← decode_eq_ok_iff, decode_of_document document,
        decode_of_document document']
      exact ⟨fun describes => describes.perm same.symm, fun describes => describes.perm same⟩
    rw [decode, decode, accepted]
  · intro front behind entries others other order document distinct same document' decoded
    obtain ⟨delays, rearranged, given, describes, found⟩ :=
      ((decode_of_document document).mp decoded).rearranged distinct same
    exact ⟨delays, rearranged, given, (decode_of_document document').mpr describes, found⟩

/-- A blank, and an order that overrides the latency of one step twice. -/
def overriddenTwice : List UInt8 :=
  (' ' :: objectText [("delay_ms", objectText [("a", integerText 1), ("a", integerText (-2))]),
    ("amount", naturalText 7)]).flatMap String.utf8EncodeChar

theorem decode_overriddenTwice :
    overriddenTwice.find? (fun byte => byte ∉ blankBytes) = some 0x7b ∧
      decode ⟨overriddenTwice.toArray⟩ =
        .ok { id := "", amount := 7, failStep := none, delays := some (.ofEntries [("a", -2)]) } := by
  have opens : overriddenTwice.find? (fun byte => byte ∉ blankBytes) = some 0x7b := by decide
  have millis : Spells (integerText (-2)) (.integer true 2) := by
    simpa using spells_integerText (-2)
  have entries := spells_objectText (.cons (.mk "a" (spells_integerText 1))
    (.cons (.mk "a" millis) .nil))
  have spelled := spells_objectText (.cons (.mk "delay_ms" entries)
    (.cons (.mk "amount" (spells_naturalText 7)) .nil))
  have document : IsDocument overriddenTwice _ :=
    ⟨[' '], _, [], by rw [List.append_nil]; rfl, by simp [IsBlank], nofun, spelled⟩
  have said : List.Forall₂ Order.SaysLatency [("a", .integer false 1), ("a", .integer true 2)]
      [("a", 1), ("a", -2)] :=
    .cons ⟨rfl, .inl ⟨1, rfl, rfl⟩⟩ (.cons ⟨rfl, .inr ⟨2, rfl, by decide, rfl⟩⟩ .nil)
  refine ⟨opens, ((decode_accepts_exactly_orders _ opens).1 _).mpr ⟨_, document, ?_⟩⟩
  exact {
    distinct := by decide
    known := by simp [Order.fieldNames]
    id := rfl
    amount := rfl
    failStep := rfl
    delays := ⟨_, _, rfl, said, rfl⟩ }

end Handler

end OrderDesk
