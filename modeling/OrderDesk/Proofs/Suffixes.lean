import OrderDesk.Proofs.Entrances

/-! What may stand behind an order. The text of an order ends with its closing bracket, so a body that
goes on behind it is no order unless it goes on with blanks alone, and then it is the same order. So a
body that breaks off is never taken for another order, and neither are two orders in one body. -/

namespace OrderDesk

open Json

namespace Lines

theorem eq_of_append_utf8EncodeChar {char other : Char} {behind later : List UInt8}
    (same : String.utf8EncodeChar char ++ behind = String.utf8EncodeChar other ++ later) :
    char = other := by
  have first (char : Char) (behind : List UInt8) :
      (String.utf8EncodeChar char ++ behind).toByteArray.utf8DecodeChar? 0 = some char := by
    rw [List.toByteArray_append]
    exact ByteArray.utf8DecodeChar?_utf8EncodeChar_append
  have decoded := first char behind
  rw [same, first other later] at decoded
  exact (Option.some.inj decoded).symm

/-- A text whose bytes begin with those of another text begins with that text. -/
theorem exists_more {text longer : List Char} {suffix : List UInt8}
    (split : longer.flatMap String.utf8EncodeChar = text.flatMap String.utf8EncodeChar ++ suffix) :
    ∃ more, longer = text ++ more ∧ suffix = more.flatMap String.utf8EncodeChar := by
  induction text generalizing longer with
  | nil => exact ⟨longer, rfl, split.symm⟩
  | cons char text ih =>
      cases longer with
      | nil =>
          rw [List.flatMap_nil, List.flatMap_cons, List.append_assoc] at split
          exact absurd (List.append_eq_nil_iff.mp split.symm).1 String.utf8EncodeChar_ne_nil
      | cons other longer =>
          rw [List.flatMap_cons, List.flatMap_cons, List.append_assoc] at split
          obtain rfl := eq_of_append_utf8EncodeChar split
          obtain ⟨more, rfl, same⟩ := ih (List.append_cancel_left split)
          exact ⟨more, rfl, same⟩

end Lines

namespace Json

variable {α : Type}

/-- Behind a text that is read as a whole there may be blanks, and nothing else. -/
theorem readAll_append {read : Reader α} (leaves : Leaves (fun _ => True) read) {text : List Char}
    {value : α} (succeeded : readAll read text = .ok value) (more : List Char) (other : α) :
    readAll read (text ++ more) = .ok other ↔
      other = value ∧ ∀ char ∈ more, Text.isJsonBlank char = true := by
  obtain ⟨rest, found, ended⟩ := readAll_eq_ok.mp succeeded
  obtain ⟨used, rfl, _, _, takes⟩ := leaves text value rest found
  have longer : read (used ++ rest ++ more) = .ok (value, rest ++ more) := by
    rw [List.append_assoc]
    exact takes _ trivial
  rw [skipBlanks_eq_nil] at ended
  rw [readAll_eq_ok, longer]
  constructor
  · rintro ⟨left, same, blank⟩
    obtain ⟨rfl, rfl⟩ := Prod.mk.inj (Except.ok.inj same)
    rw [skipBlanks_eq_nil] at blank
    exact ⟨rfl, fun char member => blank char (List.mem_append_right _ member)⟩
  · rintro ⟨rfl, blank⟩
    exact ⟨_, rfl, skipBlanks_eq_nil.mpr (List.forall_mem_append.mpr ⟨ended, blank⟩)⟩

end Json

namespace Order

theorem parse_append {text : String} {order : Order} (parsed : parse text = .ok order)
    (more : List Char) (other : Order) :
    parse (text ++ String.ofList more) = .ok other ↔
      other = order ∧ ∀ char ∈ more, Text.isJsonBlank char = true := by
  obtain ⟨draft, read, rfl⟩ := parse_eq_ok.mp parsed
  rw [parse_eq_ok, String.toList_append, String.toList_ofList]
  simp only [readAll_append leaves_shape read more]
  constructor
  · rintro ⟨_, ⟨rfl, blank⟩, rfl⟩
    exact ⟨rfl, blank⟩
  · rintro ⟨rfl, blank⟩
    exact ⟨draft, ⟨rfl, blank⟩, rfl⟩

end Order

/-! ## Bodies -/

namespace Handler

theorem blankBytes_of_isJsonBlank {text : List Char}
    (blank : ∀ char ∈ text, Text.isJsonBlank char = true) :
    ∀ byte ∈ text.flatMap String.utf8EncodeChar, byte ∈ blankBytes := by
  intro byte member
  obtain ⟨char, listed, inside⟩ := List.mem_flatMap.mp member
  obtain ⟨single, blank, encoded⟩ := exists_blankByte (blank char listed)
  rw [encoded, List.mem_singleton] at inside
  exact inside ▸ blank

theorem exists_blank_of_byte {byte : UInt8} (listed : byte ∈ blankBytes) :
    ∃ char, Text.isJsonBlank char = true ∧ String.utf8EncodeChar char = [byte] := by
  simp only [blankBytes, List.mem_cons, List.not_mem_nil, or_false] at listed
  rcases listed with rfl | rfl | rfl | rfl
  · exact ⟨' ', by decide, by decide⟩
  · exact ⟨'\t', by decide, by decide⟩
  · exact ⟨'\n', by decide, by decide⟩
  · exact ⟨'\r', by decide, by decide⟩

theorem exists_blanks_of_bytes {bytes : List UInt8} (blank : ∀ byte ∈ bytes, byte ∈ blankBytes) :
    ∃ text : List Char, bytes = text.flatMap String.utf8EncodeChar ∧
      ∀ char ∈ text, Text.isJsonBlank char = true := by
  induction bytes with
  | nil => exact ⟨[], rfl, nofun⟩
  | cons byte bytes ih =>
      obtain ⟨first, others⟩ := List.forall_mem_cons.mp blank
      obtain ⟨char, white, encoded⟩ := exists_blank_of_byte first
      obtain ⟨text, rfl, blanks⟩ := ih others
      refine ⟨char :: text, ?_, List.forall_mem_cons.mpr ⟨white, blanks⟩⟩
      rw [List.flatMap_cons, encoded, List.singleton_append]

theorem decode_of_not_ok {body : ByteArray} (refused : ∀ order, decode body ≠ .ok order) :
    decode body = .error .invalidJson := by
  cases found : Order.ofBytes? body with
  | some order => exact absurd (decode_eq_ok_iff.mpr found) (refused order)
  | none => rw [decode, found]

theorem decode_append_eq_ok {bytes suffix : List UInt8} {order other : Order}
    (accepted : decode ⟨bytes.toArray⟩ = .ok order) :
    decode ⟨(bytes ++ suffix).toArray⟩ = .ok other ↔
      other = order ∧ ∀ byte ∈ suffix, byte ∈ blankBytes := by
  obtain ⟨text, rfl, parsed⟩ := decode_eq_ok.mp accepted
  rw [decode_eq_ok]
  constructor
  · rintro ⟨longer, encoded, reparsed⟩
    obtain ⟨more, whole, rfl⟩ := Lines.exists_more encoded.symm
    obtain rfl : longer = text ++ String.ofList more := by
      rw [← String.toList_inj, whole, String.toList_append, String.toList_ofList]
    obtain ⟨same, blank⟩ := (Order.parse_append parsed more other).mp reparsed
    exact ⟨same, blankBytes_of_isJsonBlank blank⟩
  · rintro ⟨rfl, blank⟩
    obtain ⟨more, rfl, blanks⟩ := exists_blanks_of_bytes blank
    refine ⟨text ++ String.ofList more, ?_, (Order.parse_append parsed more other).mpr ⟨rfl, blanks⟩⟩
    rw [String.toList_append, String.toList_ofList, List.flatMap_append]

theorem exists_solid_byte {bytes : List UInt8} {order : Order}
    (accepted : decode ⟨bytes.toArray⟩ = .ok order) : ∃ byte ∈ bytes, byte ∉ blankBytes := by
  by_contra! blank
  obtain ⟨text, rfl, parsed⟩ := decode_eq_ok.mp accepted
  have white : ∀ char ∈ text.toList, Text.isJsonBlank char = true := by
    intro char member
    obtain ⟨byte, inside⟩ := List.exists_mem_of_ne_nil _ (@String.utf8EncodeChar_ne_nil char)
    exact isJsonBlank_of_byte (blank byte (List.mem_flatMap.mpr ⟨char, member, inside⟩)) inside
  have refused := Order.parse_of_blank fun char member =>
    Text.isBlank_of_isJsonBlank (white char member)
  rw [parsed] at refused
  cases refused

/-- Behind the body of an order there may be blanks, which change nothing, and nothing else. So what is
left of an order that breaks off before its last character is refused, and so are two orders in a
row. -/
theorem decode_append {bytes : List UInt8} {order : Order}
    (accepted : decode ⟨bytes.toArray⟩ = .ok order) :
    (∀ suffix other, decode ⟨(bytes ++ suffix).toArray⟩ = .ok other ↔
        other = order ∧ ∀ byte ∈ suffix, byte ∈ blankBytes) ∧
      (∀ front behind, bytes = front ++ behind → (∃ byte ∈ behind, byte ∉ blankBytes) →
        decode ⟨front.toArray⟩ = .error .invalidJson) ∧
      ∀ second other, decode ⟨second.toArray⟩ = .ok other →
        decode ⟨(bytes ++ second).toArray⟩ = .error .invalidJson := by
  refine ⟨fun _ _ => decode_append_eq_ok accepted, ?_, ?_⟩
  · rintro front behind rfl ⟨byte, member, solid⟩
    refine decode_of_not_ok fun other complete => ?_
    exact solid (((decode_append_eq_ok complete).mp accepted).2 byte member)
  · intro second other accepted'
    obtain ⟨byte, member, solid⟩ := exists_solid_byte accepted'
    exact decode_of_not_ok fun _ both => solid (((decode_append_eq_ok accepted).mp both).2 byte member)

def shortBody : List UInt8 := "\x7b\"amount\":7\x7d".toList.flatMap String.utf8EncodeChar

theorem decode_append_shortBody :
    decode ⟨shortBody.toArray⟩ = .ok (.new "" 7) ∧
      decode ⟨(shortBody ++ [0x0d, 0x0a]).toArray⟩ = .ok (.new "" 7) ∧
      decode ⟨(shortBody ++ shortBody).toArray⟩ = .error .invalidJson ∧
      decode ⟨shortBody.dropLast.toArray⟩ = .error .invalidJson := by
  have accepted : decode ⟨shortBody.toArray⟩ = .ok (.new "" 7) := by decide +kernel
  obtain ⟨behind, breaks, doubles⟩ := decode_append accepted
  exact ⟨accepted, (behind _ _).mpr ⟨rfl, by decide +kernel⟩, doubles _ _ accepted,
    breaks _ [0x7d] (by decide) ⟨0x7d, by decide⟩⟩

end Handler

end OrderDesk
