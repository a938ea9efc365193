import OrderDesk.Proofs.Suffixes

/-! Orders that are written as lists. A record may stand as a list of its fields, in their own order,
where the last ones may be missing. So a body is an order exactly if it is one value of the grammar,
either an object with the members of an order or a list of what would be its members; and a body that
is none is refused before anything is done for it. -/

namespace OrderDesk

namespace Json

variable {σ : Type}

theorem exists_bracket {text rest : List Char} (succeeded : closeList text = .ok rest) :
    ∃ blanks, IsBlank blanks ∧ text = blanks ++ ']' :: rest := by
  obtain ⟨blanks, blank, whole⟩ := exists_isBlank text
  unfold closeList at succeeded
  split at succeeded
  · cases succeeded
  · cases succeeded
    rename_i found
    exact ⟨blanks, blank, found ▸ whole⟩
  · split at succeeded <;> cases succeeded
  · cases succeeded

theorem closeList_of_leads {first : Bool} {lead before text : List Char} {value : Value}
    (leads : Leads first lead) (blank : IsBlank before) (spelled : Spells text value)
    (rest : List Char) : (closeList (lead ++ (before ++ (text ++ rest)))).toOption = none := by
  have goes := nextElement_of_leads leads blank spelled rest
  rw [Option.eq_none_iff_forall_ne_some]
  intro later closed
  obtain ⟨blanks, isBlank, whole⟩ := exists_bracket (toOption_eq_some.mp closed)
  rw [whole, nextElement_of_closes (isBlank.closes (by decide) later)] at goes
  cases goes

theorem exists_lead_of_nextElement {first : Bool} {text behind : List Char}
    (succeeded : nextElement first text = .ok (some behind)) :
    ∃ lead before, Leads first lead ∧ IsBlank before ∧ text = lead ++ (before ++ behind) := by
  obtain ⟨blanks, blank, whole⟩ := exists_isBlank text
  unfold nextElement at succeeded
  split at succeeded
  · cases succeeded
  · cases succeeded
  · rename_i later comma
    split at succeeded
    · rename_i opening
      cases succeeded
      exact ⟨[], blanks, by simp [Leads, opening], blank, by rw [whole, comma]; rfl⟩
    · rename_i notFirst
      obtain ⟨more, blank', inside⟩ := exists_isBlank later
      obtain rfl : first = false := by simpa using notFirst
      split at succeeded
      · cases succeeded
      · cases succeeded
      · cases succeeded
        refine ⟨blanks ++ [','], more, leads_comma blank, blank', ?_⟩
        rw [whole, comma]
        nth_rewrite 1 [inside]
        simp
  · split at succeeded
    · rename_i opening
      cases succeeded
      exact ⟨[], blanks, by simp [Leads, opening], blank, whole⟩
    · cases succeeded

theorem Value.Begins.exists_list {value : Value} (begins : value.Begins '[') :
    ∃ elements, value = .list elements := by
  rcases value with _ | value | _ | _ | _ | elements | _
  case list => exact ⟨elements, rfl⟩
  case boolean => cases value <;> cases begins
  all_goals simp [Value.Begins, isDigit] at begins

namespace Shape

variable {shape : Shape σ}

def row (view : String → σ → Value → Option σ) : List (Field σ) → σ → List Value → Option σ
  | fields, gathered, [] => if fields.any Field.required then none else some gathered
  | [], _, _ :: _ => none
  | field :: fields, gathered, value :: values =>
      (view field.name gathered value).bind fun grown => row view fields grown values

theorem toOption_readFields_of_closes (fields : List (Field σ)) (index : Nat) (gathered : σ)
    {text : List Char} (closes : Closes ']' text) :
    (readFields shape fields index gathered text).toOption =
      if fields.any Field.required then none else some (gathered, text) := by
  induction fields with
  | nil => rfl
  | cons field fields ih =>
      rw [readFields, nextElement_of_closes closes, List.any_cons]
      cases required : field.required with
      | true => rfl
      | false => exact ih

def readRow (shape : Shape σ) (fields : List (Field σ)) (index : Nat) (gathered : σ) : Reader σ :=
  fun text => do
    let (all, rest) ← readFields shape fields index gathered text
    return (all, ← closeList rest)

theorem toOption_readRow_of_closes (fields : List (Field σ)) (index : Nat) (gathered : σ)
    {blanks : List Char} (blank : IsBlank blanks) (tail : List Char) :
    (readRow shape fields index gathered (blanks ++ ']' :: tail)).toOption =
      if fields.any Field.required then none else some (gathered, tail) := by
  have closes : Closes ']' (blanks ++ ']' :: tail) := blank.closes (by decide) tail
  rw [readRow, toOption_bind, toOption_readFields_of_closes fields index gathered closes]
  split
  · rfl
  · simp only [Option.bind_some, closeList_blank blank]
    rfl

theorem toOption_readRow_succ {field : Field σ} {fields : List (Field σ)} {index : Nat}
    {lead before text rest : List Char} {value : Value} {gathered : σ} {result : Option σ}
    (leads : Leads (index == 0) lead) (blank : IsBlank before) (spelled : Spells text value)
    (stands : Stands rest) (makes : Makes (field.read gathered) value result) :
    (readRow shape (field :: fields) index gathered (lead ++ (before ++ (text ++ rest)))).toOption =
      result.bind fun grown => (readRow shape fields (index + 1) grown rest).toOption := by
  have made := makes isBlank_nil spelled stands
  rw [List.nil_append] at made
  rw [readRow, readFields, nextElement_of_leads leads blank spelled rest]
  change ((field.read gathered (text ++ rest) >>= fun read =>
    readFields shape fields (index + 1) read.1 read.2) >>= fun read =>
      closeList read.2 >>= fun rest => pure (read.1, rest)).toOption = _
  rw [bind_assoc, toOption_bind, made]
  cases result <;> rfl

theorem toOption_readRow_nil {first : Bool} {lead before text : List Char} {value : Value}
    (leads : Leads first lead) (blank : IsBlank before) (spelled : Spells text value)
    (rest : List Char) (index : Nat) (gathered : σ) :
    (readRow shape [] index gathered (lead ++ (before ++ (text ++ rest)))).toOption = none := by
  change (closeList _ >>= fun rest => pure (gathered, rest)).toOption = none
  rw [toOption_bind, closeList_of_leads leads blank spelled]
  rfl

theorem toOption_readRow {view : String → σ → Value → Option σ} {body : List Char}
    {elements : List Value} (spelled : Separated Spells body elements) {fields : List (Field σ)}
    (makes : ∀ field ∈ fields, ∀ gathered value,
      Makes (field.read gathered) value (view field.name gathered value))
    {index : Nat} {lead : List Char} (leads : Leads (index == 0) lead) (gathered : σ)
    (tail : List Char) :
    (readRow shape fields index gathered (lead ++ (body ++ ']' :: tail))).toOption =
      (row view fields gathered elements).map fun all => (all, tail) := by
  induction spelled generalizing fields index lead gathered with
  | @last before text after element blank given blank' =>
      have split : before ++ text ++ after ++ ']' :: tail =
          before ++ (text ++ (after ++ ']' :: tail)) := by simp
      rw [split]
      cases fields with
      | nil => exact toOption_readRow_nil leads blank given _ index gathered
      | cons field fields =>
          have stands : Stands (after ++ ']' :: tail) := blank'.stands (.inr (.inr rfl))
          rw [toOption_readRow_succ leads blank given stands
            (makes field List.mem_cons_self gathered element), row]
          cases view field.name gathered element with
          | none => rfl
          | some grown =>
              rw [Option.bind_some, Option.bind_some, toOption_readRow_of_closes _ _ _ blank', row]
              split <;> rfl
  | @more before text after rest element elements blank given blank' others ih =>
      have split : before ++ text ++ after ++ ',' :: rest ++ ']' :: tail =
          before ++ (text ++ (after ++ [','] ++ (rest ++ ']' :: tail))) := by simp
      rw [split]
      cases fields with
      | nil => exact toOption_readRow_nil leads blank given _ index gathered
      | cons field fields =>
          have stands : Stands (after ++ [','] ++ (rest ++ ']' :: tail)) := by
            rw [List.append_assoc]
            exact blank'.stands (.inl rfl)
          rw [toOption_readRow_succ leads blank given stands
            (makes field List.mem_cons_self gathered element), row]
          cases view field.name gathered element with
          | none => rfl
          | some grown =>
              have behind : Leads (index + 1 == 0) (after ++ [',']) := leads_comma blank'
              exact ih (fun field member => makes field (List.mem_cons_of_mem _ member)) behind grown

/-- A record is read off a list by its fields in their own order. -/
theorem makes_read_row {view : String → σ → Value → Option σ}
    (makes : ∀ field ∈ shape.fields, ∀ gathered value,
      Makes (field.read gathered) value (view field.name gathered value))
    (empty : σ) (elements : List Value) :
    Makes (shape.read empty) (.list elements) (row view shape.fields empty elements) := by
  intro before text rest blank spelled stands
  obtain ⟨inner, rfl, given⟩ := spelled.exists_elements
  have whole : inner ++ [']'] ++ rest = inner ++ ']' :: rest := by simp
  rw [List.cons_append, Shape.read, atValue_blank blank (by decide), if_neg (by decide),
    if_pos rfl, whole]
  change (readRow shape shape.fields 0 empty (inner ++ ']' :: rest)).toOption = _
  rcases given with ⟨blank, rfl⟩ | given
  · rw [toOption_readRow_of_closes _ _ _ blank, row]
    split <;> rfl
  · have leads : Leads (0 == 0) [] := rfl
    exact toOption_readRow given makes leads empty rest

theorem exists_separated_row {fields : List (Field σ)}
    (grounded : ∀ field ∈ fields, ∀ gathered, Grounded (field.read gathered)) {index : Nat}
    {gathered all : σ} {text blanks tail : List Char} (blank : IsBlank blanks)
    (succeeded : readFields shape fields index gathered text = .ok (all, blanks ++ ']' :: tail)) :
    text = blanks ++ ']' :: tail ∨ ∃ lead body elements, Leads (index == 0) lead ∧
      text = lead ++ (body ++ ']' :: tail) ∧ Separated Spells body elements := by
  -- The blanks in front of the closing bracket belong to the last element that is read.
  induction fields generalizing index gathered text with
  | nil =>
      obtain ⟨_, same⟩ := Prod.mk.inj (Except.ok.inj succeeded)
      exact .inl same
  | cons field fields ih =>
      obtain ⟨next, found, goes⟩ := bind_eq_ok.mp succeeded
      cases next with
      | none =>
          obtain ⟨same, _⟩ := readFields_of_closes (closes_of_nextElement found) succeeded
          exact .inl same.symm
      | some behind =>
          obtain ⟨⟨grown, later⟩, read, remain⟩ := bind_eq_ok.mp goes
          obtain ⟨lead, before, leads, blank', rfl⟩ := exists_lead_of_nextElement found
          obtain ⟨more, inner, value, rfl, blank'', spelled⟩ :=
            grounded field List.mem_cons_self gathered read
          have front : IsBlank (before ++ more) := blank'.append blank''
          refine .inr ?_
          rcases ih (fun field member => grounded field (List.mem_cons_of_mem _ member)) remain with
            rfl | ⟨lead', body, elements, leads', rfl, others⟩
          · exact ⟨lead, _, _, leads, by simp, .last front spelled blank⟩
          · obtain ⟨between, isBlank, rfl⟩ := leads'
            exact ⟨lead, _, _, leads, by simp, .more front spelled isBlank others⟩

theorem exists_spelled_row
    (grounded : ∀ field ∈ shape.fields, ∀ gathered, Grounded (field.read gathered)) {empty made : σ}
    {text later rest : List Char} (bracket : skipBlanks text = '[' :: later)
    (succeeded : shape.read empty text = .ok (made, rest)) :
    ∃ before inner elements, text = before ++ (inner ++ rest) ∧ IsBlank before ∧
      Spells inner (.list elements) := by
  obtain ⟨before, blank, whole⟩ := exists_isBlank text
  rw [Shape.read, atValue, bracket] at succeeded
  obtain ⟨⟨all, middle⟩, fields, done⟩ := bind_eq_ok.mp succeeded
  obtain ⟨behind, closed, same⟩ := bind_eq_ok.mp done
  obtain ⟨_, rfl⟩ := Prod.mk.inj (Except.ok.inj same)
  obtain ⟨blanks, isBlank, rfl⟩ := exists_bracket closed
  rcases exists_separated_row grounded isBlank fields with rfl | ⟨lead, body, elements, rfl, rfl, given⟩
  · exact ⟨before, _, _, by rw [whole, bracket]; simp, blank, .emptyList isBlank⟩
  · exact ⟨before, _, _, by rw [whole, bracket]; simp, blank, .list given⟩

end Shape

end Json

open Json

namespace Order

/-- What a value says of an order: an object by the names of its members, a list by the places of its
elements, and any other value nothing. -/
def SaidBy : Value → Order → Prop
  | .object members, order => Describes members order
  | .list elements, order =>
      elements.length ≤ fieldNames.length ∧ Describes (fieldNames.zip elements) order
  | _, _ => False

/-- The elements of a list count as the members that stand in their places. -/
theorem row_eq (elements : List Value) :
    Shape.row view shape.fields {} elements =
      if elements.length ≤ fieldNames.length then
        (fieldNames.zip elements).foldlM (shape.step view) {} else none := by
  -- There are four fields, each empty when its turn comes. A fifth element is one too many.
  rcases elements with _ | ⟨_, _ | ⟨_, _ | ⟨_, _ | ⟨_, _ | ⟨_, elements⟩⟩⟩⟩⟩
  · rfl
  all_goals
    simp [Shape.row, shape, fieldNames, Shape.step, view, Option.map_eq_bind, Option.bind_assoc]

theorem makes_row (elements : List Value) :
    Makes (shape.read {}) (.list elements) (Shape.row view shape.fields {} elements) :=
  Shape.makes_read_row makes_fields {} elements

theorem row_eq_some {elements : List Value} {order : Order} :
    (∃ all, Shape.row view shape.fields {} elements = some all ∧ all.finish = order) ↔
      SaidBy (.list elements) order := by
  rw [SaidBy, ← exists_gathers, row_eq]
  by_cases fits : elements.length ≤ fieldNames.length
  · simp [fits, foldlM_step_eq_some]
  · simp [fits]

theorem parse_of_spells_list {before inner after : List Char} {elements : List Value} {order : Order}
    (blank : IsBlank before) (blank' : IsBlank after) (spelled : Spells inner (.list elements)) :
    parse (String.ofList (before ++ inner ++ after)) = .ok order ↔ SaidBy (.list elements) order := by
  rw [parse_eq_ok, String.toList_ofList, ← row_eq_some]
  simp only [← toOption_readAll (makes_row elements) blank spelled blank', toOption_eq_some]

theorem exists_opening {text : String} {order : Order} (parsed : parse text = .ok order) :
    ∃ later, skipBlanks text.toList = '\x7b' :: later ∨ skipBlanks text.toList = '[' :: later := by
  obtain ⟨draft, read, _⟩ := parse_eq_ok.mp parsed
  obtain ⟨rest, found, _⟩ := readAll_eq_ok.mp read
  rw [Shape.read, atValue] at found
  split at found
  · cases found
  · rename_i char later first
    split at found
    · rename_i brace
      exact ⟨later, .inl (brace ▸ first)⟩
    · split at found
      · rename_i bracket
        exact ⟨later, .inr (bracket ▸ first)⟩
      · cases found

theorem exists_spelled_value {text : String} {order : Order} (parsed : parse text = .ok order) :
    ∃ before inner after value, text.toList = before ++ inner ++ after ∧ IsBlank before ∧
      IsBlank after ∧ Spells inner value := by
  obtain ⟨later, brace | bracket⟩ := exists_opening parsed
  · obtain ⟨before, inner, after, members, split, blank, blank', spelled⟩ :=
      exists_spelled brace parsed
    exact ⟨before, inner, after, _, split, blank, blank', spelled⟩
  · obtain ⟨draft, read, _⟩ := parse_eq_ok.mp parsed
    obtain ⟨after, succeeded, behind⟩ := readAll_eq_ok.mp read
    obtain ⟨before, inner, elements, split, blank, spelled⟩ :=
      Shape.exists_spelled_row grounded_fields bracket succeeded
    refine ⟨before, inner, after, _, by rw [split, List.append_assoc], blank, ?_, spelled⟩
    exact fun char member => isJsonBlank_iff.mp (skipBlanks_eq_nil.mp behind char member)

theorem exists_record {before inner after : List Char} {value : Value} {order : Order}
    (blank : IsBlank before) (spelled : Spells inner value)
    (parsed : parse (String.ofList (before ++ inner ++ after)) = .ok order) :
    (∃ members, value = .object members) ∨ ∃ elements, value = .list elements := by
  obtain ⟨char, rest, rfl, begins⟩ := spelled.exists_first
  have first : skipBlanks (before ++ char :: rest ++ after) = char :: (rest ++ after) := by
    rw [List.append_assoc, blank.skip]
    exact skipBlanks_cons begins.solid _
  obtain ⟨later, opening⟩ := exists_opening parsed
  rw [String.toList_ofList, first] at opening
  rcases opening with brace | bracket
  · obtain ⟨rfl, _⟩ := List.cons.inj brace
    exact .inl begins.exists_object
  · obtain ⟨rfl, _⟩ := List.cons.inj bracket
    exact .inr begins.exists_list

/-- Whatever a text spells, it is the order that the value tells, or none. -/
theorem parse_eq_ok_iff {before inner after : List Char} {value : Value} {order : Order}
    (blank : IsBlank before) (blank' : IsBlank after) (spelled : Spells inner value) :
    parse (String.ofList (before ++ inner ++ after)) = .ok order ↔ SaidBy value order := by
  have other (parsed : parse (String.ofList (before ++ inner ++ after)) = .ok order) :=
    exists_record blank spelled parsed
  cases value with
  | object members => exact parse_of_spells blank blank' spelled
  | list elements => exact parse_of_spells_list blank blank' spelled
  | _ => exact iff_of_false (fun parsed => by simpa using other parsed) (fun said => said)

end Order

/-! ## Bodies -/

namespace Handler

theorem decode_of_value {bytes : List UInt8} {value : Value} (document : IsDocument bytes value)
    {order : Order} : decode ⟨bytes.toArray⟩ = .ok order ↔ Order.SaidBy value order := by
  obtain ⟨before, inner, after, rfl, blank, blank', spelled⟩ := document
  rw [decode_encoding, Order.parse_eq_ok_iff blank blank' spelled]

theorem exists_document {bytes : List UInt8} {order : Order}
    (decoded : decode ⟨bytes.toArray⟩ = .ok order) : ∃ value, IsDocument bytes value := by
  obtain ⟨text, rfl, parsed⟩ := decode_eq_ok.mp decoded
  obtain ⟨before, inner, after, value, split, blank, blank', spelled⟩ :=
    Order.exists_spelled_value parsed
  exact ⟨value, before, inner, after, by rw [split], blank, blank', spelled⟩

theorem acceptBody_of_refused {body : ByteArray} (refused : ∀ order, decode body ≠ .ok order)
    (handler : Handler) (state : Schedule.State) :
    handler.acceptBody state body = (state, .answered .invalidJson state.clock) := by
  rw [acceptBody, decode_of_not_ok refused]

/-- A body is an order exactly if it is one value of the grammar that says what the order is: an object
with the members of an order, or a list of them in their places, with at most one element for each
field. Any other body is answered at once, with the state as it was. -/
theorem decode_accepts_records (bytes : List UInt8) :
    (∀ order, decode ⟨bytes.toArray⟩ = .ok order ↔
        ∃ value, IsDocument bytes value ∧ Order.SaidBy value order) ∧
      (∀ value order, IsDocument bytes value →
        (decode ⟨bytes.toArray⟩ = .ok order ↔ Order.SaidBy value order)) ∧
      ((∀ order, decode ⟨bytes.toArray⟩ ≠ .ok order) →
        decode ⟨bytes.toArray⟩ = .error .invalidJson ∧
        (∀ (handler : Handler) state, handler.acceptBody state ⟨bytes.toArray⟩ =
          (state, .answered .invalidJson state.clock)) ∧
        ∀ (handler : Handler) state, bytes.length ≤ Http.bodyLimit →
          Http.accept handler state { method := "POST", target := "/order", body := ⟨bytes.toArray⟩ } =
            (state, .handled (.answered .invalidJson state.clock))) ∧
      Answer.invalidJson.status = 400 ∧ Answer.invalidJson.reply.steps = [] ∧
      Answer.invalidJson.reply.error = some ⟨"bad_request", "invalid JSON"⟩ := by
  refine ⟨fun order => ⟨fun decoded => ?_, ?_⟩, fun value order document => decode_of_value document,
    fun refused => ⟨decode_of_not_ok refused, acceptBody_of_refused refused, ?_⟩, rfl, rfl, rfl⟩
  · obtain ⟨value, document⟩ := exists_document decoded
    exact ⟨value, document, (decode_of_value document).mp decoded⟩
  · rintro ⟨value, document, said⟩
    exact (decode_of_value document).mpr said
  · intro handler state small
    have fits : ¬ Http.bodyLimit < (⟨bytes.toArray⟩ : ByteArray).size := Nat.not_lt.mpr small
    simp only [Http.accept, Desk.path_order, if_true, if_neg fits, acceptBody_of_refused refused]

def listedBody : List UInt8 := "[\"o-1\",5]".toList.flatMap String.utf8EncodeChar

/-- A list is no object, but it may be an order. -/
theorem decode_listedBody :
    (∃ elements, IsDocument listedBody (.list elements)) ∧
      listedBody.find? (fun byte => byte ∉ blankBytes) ≠ some 0x7b ∧
      decode ⟨listedBody.toArray⟩ = .ok (.new "o-1" 5) := by
  have spelled := spells_listText (.cons (spells_literal "o-1") (.cons (spells_naturalText 5) .nil))
  refine ⟨⟨_, [], _, [], ?_, nofun, nofun, spelled⟩, by decide, by decide +kernel⟩
  rfl

end Handler

end OrderDesk
