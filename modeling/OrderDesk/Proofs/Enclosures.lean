import OrderDesk.Proofs.TextPrefixes

/-! What a reader takes off the front of a text, if the value is enclosed in brackets. An object or a
list of fields ends with its own bracket, so nothing that follows has a say in it. So whether a text is
an order, and which one, does not depend on blanks behind it. -/

namespace OrderDesk.Json

open Text

variable {α β σ : Type}

theorem stands_of_skipBlanks {text rest : List Char} {char : Char}
    (found : skipBlanks text = char :: rest) (stands : Stands (char :: rest)) : Stands text := by
  cases text with
  | nil => trivial
  | cons first text =>
      cases blank : isJsonBlank first with
      | true =>
          simp only [isJsonBlank, Bool.or_eq_true, beq_iff_eq] at blank
          rcases blank with ((rfl | rfl) | rfl) | rfl <;> exact ⟨rfl, by decide, by decide, by decide⟩
      | false =>
          rw [skipBlanks_cons blank] at found
          obtain ⟨rfl, rfl⟩ := List.cons.inj found
          exact stands

def Closes (close : Char) (text : List Char) : Prop :=
  ∃ rest, skipBlanks text = close :: rest

theorem Closes.stands {text : List Char} {close : Char} (closes : Closes close text)
    (bracket : close = '\x7d' ∨ close = ']') : Stands text := by
  obtain ⟨rest, found⟩ := closes
  refine stands_of_skipBlanks found ?_
  rcases bracket with rfl | rfl <;> exact ⟨rfl, by decide, by decide, by decide⟩

theorem nextKey_of_closes {first : Bool} {text : List Char} (closes : Closes '\x7d' text) :
    nextKey first text = .ok none := by
  obtain ⟨rest, found⟩ := closes
  simp only [nextKey, found]

theorem closes_of_nextKey {first : Bool} {text : List Char}
    (succeeded : nextKey first text = .ok none) : Closes '\x7d' text := by
  unfold nextKey at succeeded
  repeat' split at succeeded
  all_goals first
    | exact ⟨_, ‹skipBlanks text = '\x7d' :: _›⟩
    | cases succeeded
    | obtain ⟨_, _, absurd⟩ := bind_eq_ok.mp succeeded
      cases absurd

theorem exists_key {first : Bool} {text rest : List Char} {key : String}
    (succeeded : nextKey first text = .ok (some (key, rest))) :
    (first = false → Stands text) ∧ ∃ used, text = used ++ rest ∧ used ≠ [] ∧ Tight used ∧
      ∀ other, nextKey first (used ++ other) = .ok (some (key, other)) := by
  unfold nextKey at succeeded
  split at succeeded
  · cases succeeded
  · cases succeeded
  · rename_i later comma
    split at succeeded
    · cases succeeded
    · rename_i behind
      split at succeeded <;> try cases succeeded
      rename_i inner quote
      obtain ⟨scanned, found, done⟩ := bind_eq_ok.mp succeeded
      obtain rfl := Option.some.inj (Except.ok.inj done)
      obtain ⟨blanks, rfl, solid, skips⟩ := exists_solid comma
      obtain ⟨more, rfl, _, skipped⟩ := exists_solid quote
      obtain ⟨used, rfl, _, tight, takes⟩ := leaves_scanText [] inner key rest found
      refine ⟨fun _ => stands_of_skipBlanks comma ⟨rfl, by decide, by decide, by decide⟩,
        blanks ++ ',' :: (more ++ '"' :: used), by simp, by simp, ?_, fun other => ?_⟩
      · exact tight_append_cons solid (tight_append_cons (by decide) tight)
      · have front : skipBlanks (blanks ++ ',' :: (more ++ '"' :: used) ++ other) =
            ',' :: (more ++ '"' :: (used ++ other)) := by
          rw [List.append_assoc, skips, List.cons_append, skipBlanks_cons solid, List.append_assoc,
            List.cons_append]
        have inside : skipBlanks (more ++ '"' :: (used ++ other)) = '"' :: (used ++ other) := by
          rw [skipped]
          exact skipBlanks_cons (by decide) _
        simp only [nextKey, front, behind, inside]
        exact bind_eq_ok.mpr ⟨(key, other), takes other trivial, rfl⟩
  · rename_i later quote
    split at succeeded
    · rename_i opening
      obtain ⟨scanned, found, done⟩ := bind_eq_ok.mp succeeded
      obtain rfl := Option.some.inj (Except.ok.inj done)
      obtain ⟨blanks, rfl, solid, skips⟩ := exists_solid quote
      obtain ⟨used, rfl, _, tight, takes⟩ := leaves_scanText [] later key rest found
      refine ⟨fun behind => by simp [behind] at opening, blanks ++ '"' :: used, by simp, by simp,
        tight_append_cons solid tight, fun other => ?_⟩
      have front : skipBlanks (blanks ++ '"' :: used ++ other) = '"' :: (used ++ other) := by
        rw [List.append_assoc, skips]
        exact skipBlanks_cons solid _
      simp only [nextKey, front, opening, if_true]
      exact bind_eq_ok.mpr ⟨(key, other), takes other trivial, rfl⟩
    · cases succeeded
  · split at succeeded <;> cases succeeded

/-- The members of an object, up to its closing brace. A reader with more rounds than characters to
take off never runs out of them. -/
theorem exists_members {member : String → σ → Reader σ}
    (leaves : ∀ key gathered, Leaves Stands (member key gathered)) {fuel : Nat} {first : Bool}
    {gathered all : σ} {text rest : List Char}
    (succeeded : readMembers member fuel first gathered text = .ok (all, rest)) :
    (first = false → Stands text) ∧ Closes '\x7d' rest ∧ ∃ used, text = used ++ rest ∧
      ∀ other rounds, Closes '\x7d' other → used.length < rounds →
        readMembers member rounds first gathered (used ++ other) = .ok (all, other) := by
  induction fuel generalizing first gathered text with
  | zero => cases succeeded
  | succ fuel ih =>
      simp only [readMembers] at succeeded
      obtain ⟨next, found, goes⟩ := bind_eq_ok.mp succeeded
      cases next with
      | none =>
          obtain ⟨rfl, rfl⟩ := Prod.mk.inj (Except.ok.inj goes)
          have closes := closes_of_nextKey found
          refine ⟨fun _ => closes.stands (.inl rfl), closes, [], rfl, fun other rounds closed more => ?_⟩
          cases rounds with
          | zero => cases more
          | succ rounds => exact bind_eq_ok.mpr ⟨none, nextKey_of_closes closed, rfl⟩
      | some entry =>
          obtain ⟨key, behind⟩ := entry
          obtain ⟨⟨grown, later⟩, read, remain⟩ := bind_eq_ok.mp goes
          obtain ⟨stands, keyed, rfl, some_used, _, names⟩ := exists_key found
          obtain ⟨used, rfl, _, _, takes⟩ := leaves key gathered behind grown later read
          obtain ⟨separates, closes, more, rfl, continues⟩ := ih remain
          refine ⟨stands, closes, keyed ++ used ++ more, by simp, fun other rounds closed enough => ?_⟩
          cases rounds with
          | zero => cases enough
          | succ rounds =>
              have positive := List.length_pos_iff.mpr some_used
              simp only [List.length_append] at enough
              have fits : Stands (more ++ other) := by
                cases more with
                | nil => exact closed.stands (.inl rfl)
                | cons char more => exact separates rfl
              rw [List.append_assoc, List.append_assoc]
              refine bind_eq_ok.mpr ⟨some (key, used ++ (more ++ other)), names _, ?_⟩
              refine bind_eq_ok.mpr ⟨(grown, more ++ other), takes _ fits, ?_⟩
              exact continues other rounds closed (by omega)

/-- An object ends with its closing brace, whatever comes behind it. -/
theorem exists_object {member : String → σ → Reader σ}
    (leaves : ∀ key gathered, Leaves Stands (member key gathered)) {empty all : σ}
    {text middle rest : List Char}
    (members : readMembers member (text.length + 1) true empty text = .ok (all, middle))
    (closed : closeObject middle = .ok rest) :
    ∃ used, text = used ++ rest ∧ Tight used ∧ ∀ other, ∃ middle,
      readMembers member ((used ++ other).length + 1) true empty (used ++ other) = .ok (all, middle) ∧
        closeObject middle = .ok other := by
  obtain ⟨_, _, used, rfl, takes⟩ := exists_members leaves members
  obtain ⟨blanks, rfl, skips⟩ := closeObject_eq_ok closed
  refine ⟨used ++ (blanks ++ ['\x7d']), by simp, ?_, fun other => ⟨blanks ++ '\x7d' :: other, ?_, ?_⟩⟩
  · rw [← List.append_assoc]
    exact tight_append_cons (by decide) tight_nil
  · have split : used ++ (blanks ++ ['\x7d']) ++ other = used ++ (blanks ++ '\x7d' :: other) := by simp
    rw [split]
    exact takes _ _ ⟨other, skips other⟩ (by simp only [List.length_append]; omega)
  · simp only [closeObject, skips]

theorem leaves_map {fits : List Char → Prop} {read : Reader α} (leaves : Leaves fits read)
    (make : α → β) :
    Leaves fits fun text => do
      let (value, text) ← read text
      return (make value, text) := by
  intro text value rest succeeded
  obtain ⟨⟨inner, later⟩, found, done⟩ := bind_eq_ok.mp succeeded
  obtain ⟨rfl, rfl⟩ := Prod.mk.inj (Except.ok.inj done)
  obtain ⟨used, split, some_used, tight, takes⟩ := leaves text inner later found
  exact ⟨used, split, some_used, tight, fun other given =>
    bind_eq_ok.mpr ⟨(inner, other), takes other given, rfl⟩⟩

theorem leaves_colon {fits : List Char → Prop} {read : Reader α} (leaves : Leaves fits read) :
    Leaves fits (fun text => readColon text >>= read) := by
  intro text value rest succeeded
  obtain ⟨behind, colon, found⟩ := bind_eq_ok.mp succeeded
  obtain ⟨blanks, rfl, colons⟩ := readColon_eq_ok colon
  obtain ⟨used, rfl, _, tight, takes⟩ := leaves behind value rest found
  refine ⟨blanks ++ ':' :: used, by simp, by simp, tight_append_cons (by decide) tight,
    fun other given => bind_eq_ok.mpr ⟨used ++ other, ?_, takes other given⟩⟩
  rw [List.append_assoc]
  exact colons _

theorem nextElement_of_closes {first : Bool} {text : List Char} (closes : Closes ']' text) :
    nextElement first text = .ok none := by
  obtain ⟨rest, found⟩ := closes
  simp only [nextElement, found]

theorem closes_of_nextElement {first : Bool} {text : List Char}
    (succeeded : nextElement first text = .ok none) : Closes ']' text := by
  unfold nextElement at succeeded
  repeat' split at succeeded
  all_goals first
    | exact ⟨_, ‹skipBlanks text = ']' :: _›⟩
    | cases succeeded

theorem exists_element {first : Bool} {text behind : List Char}
    (succeeded : nextElement first text = .ok (some behind)) :
    (first = false → Stands text) ∧ ∃ used char tail, behind = char :: tail ∧
      text = used ++ behind ∧ isJsonBlank char = false ∧
      ∀ other, nextElement first (used ++ char :: other) = .ok (some (char :: other)) := by
  unfold nextElement at succeeded
  split at succeeded
  · cases succeeded
  · cases succeeded
  · rename_i later comma
    obtain ⟨blanks, rfl, solid, skips⟩ := exists_solid comma
    split at succeeded
    · rename_i opening
      cases succeeded
      refine ⟨fun behind => by simp [behind] at opening, blanks, ',', later, rfl, rfl, solid,
        fun other => ?_⟩
      simp only [nextElement, skips, skipBlanks_cons solid, opening, if_true]
    · rename_i notFirst
      split at succeeded
      · cases succeeded
      · cases succeeded
      · rename_i some_left notClosed
        cases succeeded
        obtain ⟨char, tail, found⟩ := List.exists_cons_of_ne_nil some_left
        obtain ⟨more, rfl, hard, skipped⟩ := exists_solid found
        refine ⟨fun _ => stands_of_skipBlanks comma ⟨rfl, by decide, by decide, by decide⟩,
          blanks ++ ',' :: more, char, tail, found, by simp [found], hard, fun other => ?_⟩
        have front : skipBlanks (blanks ++ ',' :: more ++ char :: other) =
            ',' :: (more ++ char :: other) := by
          rw [List.append_assoc, skips]
          exact skipBlanks_cons solid _
        have inside : skipBlanks (more ++ char :: other) = char :: other := by
          rw [skipped]
          exact skipBlanks_cons hard _
        simp only [nextElement, front, notFirst, inside, Bool.false_eq_true, if_false]
        split
        · rename_i empty
          cases empty
        · rename_i close
          exact (notClosed tail (found.trans (congrArg (· :: tail) (List.cons.inj close).1))).elim
        · rfl
  · rename_i some_left notClosed notComma
    split at succeeded
    · rename_i opening
      cases succeeded
      obtain ⟨char, tail, found⟩ := List.exists_cons_of_ne_nil some_left
      obtain ⟨blanks, rfl, solid, skips⟩ := exists_solid found
      refine ⟨fun behind => by simp [behind] at opening, blanks, char, tail, found, by rw [found],
        solid, fun other => ?_⟩
      have front : skipBlanks (blanks ++ char :: other) = char :: other := by
        rw [skips]
        exact skipBlanks_cons solid _
      simp only [nextElement, front, opening, if_true]
      split
      · rename_i empty
        cases empty
      · rename_i close
        exact (notClosed tail (found.trans (congrArg (· :: tail) (List.cons.inj close).1))).elim
      · rename_i comma
        rw [comma]
      · rfl
    · cases succeeded

namespace Shape

variable {shape : Shape σ}

theorem readFields_of_closes {fields : List (Field σ)} {index : Nat} {gathered all : σ}
    {text rest : List Char} (closes : Closes ']' text)
    (succeeded : readFields shape fields index gathered text = .ok (all, rest)) :
    rest = text ∧ ∀ other, Closes ']' other →
      readFields shape fields index gathered other = .ok (all, other) := by
  induction fields with
  | nil =>
      obtain ⟨rfl, rfl⟩ := Prod.mk.inj (Except.ok.inj succeeded)
      exact ⟨rfl, fun other _ => rfl⟩
  | cons field fields ih =>
      obtain ⟨next, found, remain⟩ := bind_eq_ok.mp succeeded
      obtain rfl := Except.ok.inj (found.symm.trans (nextElement_of_closes closes))
      simp only at remain
      split at remain
      · cases remain
      · rename_i optional
        obtain ⟨same, takes⟩ := ih remain
        refine ⟨same, fun other closed => bind_eq_ok.mpr ⟨none, nextElement_of_closes closed, ?_⟩⟩
        simp only [optional]
        exact takes other closed

theorem exists_fields {fields : List (Field σ)}
    (leaves : ∀ field ∈ fields, ∀ gathered, Leaves Stands (field.read gathered)) {index : Nat}
    {gathered all : σ} {text rest : List Char}
    (succeeded : readFields shape fields index gathered text = .ok (all, rest))
    (closes : Closes ']' rest) :
    (index ≠ 0 → Stands text) ∧ ∃ used, text = used ++ rest ∧ ∀ other, Closes ']' other →
      readFields shape fields index gathered (used ++ other) = .ok (all, other) := by
  induction fields generalizing index gathered text with
  | nil =>
      obtain ⟨rfl, rfl⟩ := Prod.mk.inj (Except.ok.inj succeeded)
      exact ⟨fun _ => closes.stands (.inr rfl), [], rfl, fun other _ => rfl⟩
  | cons field fields ih =>
      obtain ⟨next, found, remain⟩ := bind_eq_ok.mp succeeded
      cases next with
      | none =>
          have closed := closes_of_nextElement found
          obtain ⟨rfl, takes⟩ := readFields_of_closes closed succeeded
          exact ⟨fun _ => closed.stands (.inr rfl), [], rfl, takes⟩
      | some behind =>
          obtain ⟨⟨grown, later⟩, read, rows⟩ := bind_eq_ok.mp remain
          obtain ⟨stands, start, char, tail, rfl, rfl, _, starts⟩ := exists_element found
          obtain ⟨used, split, some_used, _, takes⟩ :=
            leaves field List.mem_cons_self gathered _ grown later read
          obtain ⟨separates, more, rfl, continues⟩ :=
            ih (fun field member => leaves field (List.mem_cons_of_mem _ member)) rows
          obtain ⟨first, used, rfl⟩ := List.exists_cons_of_ne_nil some_used
          obtain ⟨rfl, rfl⟩ := List.cons.inj split
          refine ⟨fun later => stands (by simpa using later), start ++ char :: used ++ more, by simp,
            fun other closed => ?_⟩
          have fits : Stands (more ++ other) := by
            cases more with
            | nil => exact closed.stands (.inr rfl)
            | cons char more => exact separates (Nat.succ_ne_zero index)
          rw [List.append_assoc, List.append_assoc]
          refine bind_eq_ok.mpr ⟨some (char :: (used ++ (more ++ other))), starts _, ?_⟩
          exact bind_eq_ok.mpr ⟨(grown, more ++ other), takes _ fits, continues other closed⟩

theorem leaves_member (strict : shape.strict = true)
    (leaves : ∀ field ∈ shape.fields, ∀ gathered, Leaves Stands (field.read gathered))
    (key : String) (gathered : σ) : Leaves Stands (shape.member key gathered) := by
  intro text value rest succeeded
  unfold member at succeeded ⊢
  split at succeeded
  · rename_i field found
    split at succeeded
    · cases succeeded
    · rename_i fresh
      obtain ⟨used, split, some_used, tight, takes⟩ :=
        leaves_colon (leaves field (List.mem_of_find?_eq_some found) gathered) text value rest
          succeeded
      refine ⟨used, split, some_used, tight, fun other stands => ?_⟩
      simp only [fresh]
      exact takes other stands
  · simp only [strict, if_true] at succeeded
    cases succeeded

theorem leaves_read (strict : shape.strict = true)
    (leaves : ∀ field ∈ shape.fields, ∀ gathered, Leaves Stands (field.read gathered)) (empty : σ) :
    Leaves (fun _ => True) (shape.read empty) := by
  refine leaves_atValue fun char text value rest _ succeeded => ?_
  split at succeeded
  · rename_i brace
    obtain ⟨⟨all, middle⟩, members, done⟩ := bind_eq_ok.mp succeeded
    simp only at done
    split at done
    · cases done
    · rename_i complete
      obtain ⟨behind, closed, same⟩ := bind_eq_ok.mp done
      obtain ⟨rfl, rfl⟩ := Prod.mk.inj (Except.ok.inj same)
      obtain ⟨used, split, tight, takes⟩ := exists_object (leaves_member strict leaves) members closed
      refine ⟨used, split, tight, fun other _ => ?_⟩
      obtain ⟨middle, members, closed⟩ := takes other
      rw [if_pos brace]
      refine bind_eq_ok.mpr ⟨(all, middle), members, ?_⟩
      simp only [complete]
      exact bind_eq_ok.mpr ⟨other, closed, rfl⟩
  · rename_i notBrace
    split at succeeded
    · rename_i bracket
      obtain ⟨⟨all, middle⟩, rows, done⟩ := bind_eq_ok.mp succeeded
      obtain ⟨behind, closed, same⟩ := bind_eq_ok.mp done
      obtain ⟨rfl, rfl⟩ := Prod.mk.inj (Except.ok.inj same)
      obtain ⟨blanks, rfl, skips⟩ := closeList_eq_ok closed
      obtain ⟨_, used, rfl, takes⟩ := exists_fields leaves rows ⟨_, skips _⟩
      refine ⟨used ++ (blanks ++ [']']), by simp, ?_, fun other _ => ?_⟩
      · rw [← List.append_assoc]
        exact tight_append_cons (by decide) tight_nil
      · have split : used ++ (blanks ++ [']']) ++ other = used ++ (blanks ++ ']' :: other) := by simp
        rw [if_neg notBrace, if_pos bracket, split]
        refine bind_eq_ok.mpr ⟨(all, blanks ++ ']' :: other), takes _ ⟨other, skips other⟩, ?_⟩
        exact bind_eq_ok.mpr ⟨other, by simp only [closeList, skips], rfl⟩
    · cases succeeded

end Shape

/-! ## Whole texts -/

theorem mapError_eq_ok {ε ε' : Type} {change : ε → ε'} {result : Except ε α} {value : α} :
    result.mapError change = .ok value ↔ result = .ok value := by
  cases result with
  | error problem =>
      constructor
      · intro same
        cases same
      · intro same
        cases same
  | ok found =>
      constructor
      · intro same
        exact congrArg Except.ok (Except.ok.inj same)
      · intro same
        exact congrArg Except.ok (Except.ok.inj same)

theorem readAll_eq_ok {read : Reader α} {text : List Char} {value : α} :
    readAll read text = .ok value ↔ ∃ rest, read text = .ok (value, rest) ∧ skipBlanks rest = [] := by
  unfold readAll
  rw [mapError_eq_ok, bind_eq_ok]
  constructor
  · rintro ⟨⟨found, rest⟩, succeeded, done⟩
    cases behind : skipBlanks rest with
    | nil =>
        simp only [behind] at done
        obtain rfl := Except.ok.inj done
        exact ⟨rest, succeeded, behind⟩
    | cons char later =>
        simp only [behind] at done
        cases done
  · rintro ⟨rest, succeeded, behind⟩
    refine ⟨(value, rest), succeeded, ?_⟩
    simp only [behind]
    rfl

theorem skipBlanks_eq_nil {text : List Char} :
    skipBlanks text = [] ↔ ∀ char ∈ text, isJsonBlank char = true := by
  constructor
  · intro none_left
    obtain ⟨blanks, blank, split⟩ := exists_blanks text
    rw [none_left, List.append_nil] at split
    exact split ▸ blank
  · intro blank
    rw [← List.append_nil text, skipBlanks_append blank]
    rfl

theorem toOption_eq_some {ε : Type} {result : Except ε α} {value : α} :
    result.toOption = some value ↔ result = .ok value := by
  cases result <;> simp [Except.toOption]

theorem readAll_append_blanks {read : Reader α} (leaves : Leaves (fun _ => True) read)
    {blanks : List Char} (blank : ∀ char ∈ blanks, isJsonBlank char = true) (text : List Char) :
    (readAll read (text ++ blanks)).toOption = (readAll read text).toOption := by
  refine Option.ext fun value => ?_
  rw [toOption_eq_some, toOption_eq_some, readAll_eq_ok, readAll_eq_ok]
  constructor
  · rintro ⟨rest, succeeded, ended⟩
    rw [skipBlanks_eq_nil] at ended
    obtain ⟨used, split, some_used, tight, takes⟩ := leaves _ value rest succeeded
    rcases List.append_eq_append_iff.mp split with ⟨more, rfl, left⟩ | ⟨more, rfl, rfl⟩
    · -- What was used ends before the blanks, as it does not end with one.
      have nothing : more = [] := by
        cases ends : more.getLast? with
        | none => exact List.getLast?_eq_none_iff.mp ends
        | some last =>
            have solid := tight last (by simp [List.getLast?_append, ends])
            have member : last ∈ blanks := left ▸ List.mem_append_left _ (List.mem_of_getLast? ends)
            simp [blank last member] at solid
      subst nothing
      refine ⟨[], ?_, rfl⟩
      have alone := takes [] trivial
      simpa using alone
    · exact ⟨more, takes more trivial, skipBlanks_eq_nil.mpr fun char member =>
        ended char (List.mem_append_left _ member)⟩
  · rintro ⟨rest, succeeded, ended⟩
    rw [skipBlanks_eq_nil] at ended
    obtain ⟨used, rfl, _, _, takes⟩ := leaves _ value rest succeeded
    refine ⟨rest ++ blanks, ?_, skipBlanks_eq_nil.mpr fun char member => ?_⟩
    · rw [List.append_assoc]
      exact takes _ trivial
    · exact (List.mem_append.mp member).elim (ended char) (blank char)

end OrderDesk.Json

namespace OrderDesk.Order

open Json

theorem leaves_readDelays : Leaves (fun _ => True) readDelays := by
  refine leaves_atValue fun char text delays rest _ succeeded => ?_
  split at succeeded
  · rename_i brace
    obtain ⟨⟨all, middle⟩, members, done⟩ := bind_eq_ok.mp succeeded
    obtain ⟨behind, closed, same⟩ := bind_eq_ok.mp done
    obtain ⟨rfl, rfl⟩ := Prod.mk.inj (Except.ok.inj same)
    have signed : Leaves Stands readSigned := leaves_readInteger _ _
    have leaves (step : String) (delays : Delays) :=
      leaves_colon (leaves_map signed fun millis => delays.put step millis)
    obtain ⟨used, rfl, tight, takes⟩ := exists_object leaves members closed
    refine ⟨used, rfl, tight, fun other _ => ?_⟩
    obtain ⟨middle, members, closed⟩ := takes other
    rw [if_pos brace]
    exact bind_eq_ok.mpr ⟨(all, middle), members, bind_eq_ok.mpr ⟨other, closed, rfl⟩⟩
  · cases succeeded

theorem leaves_shape : Leaves (fun _ => True) (shape.read {}) := by
  have unsigned : Leaves Stands readUnsigned := leaves_readInteger _ _
  have strict : shape.strict = true := rfl
  have leaves : ∀ field ∈ shape.fields, ∀ draft, Leaves Stands (field.read draft) := by
    simp only [shape, List.forall_mem_cons]
    refine ⟨fun draft => ?_, fun draft => ?_, fun draft => ?_, fun draft => ?_, nofun⟩
    · exact (leaves_map leaves_readText fun id => { draft with id := some id }).weaken
        fun _ _ => trivial
    · exact leaves_map unsigned fun amount => { draft with amount := some amount }
    · exact (leaves_map (leaves_readOptional leaves_readText) fun step =>
        { draft with failStep := some step }).weaken fun _ _ => trivial
    · exact (leaves_map (leaves_readOptional leaves_readDelays) fun delays =>
        { draft with delays := some delays }).weaken fun _ _ => trivial
  exact Shape.leaves_read strict leaves {}

theorem parse_append_blanks (text : String) {blanks : List Char}
    (blank : ∀ char ∈ blanks, Text.isJsonBlank char = true) :
    (parse (text ++ String.ofList blanks)).toOption = (parse text).toOption := by
  have toOption_map {result : Except ReadError Draft} :
      (result.map Draft.finish).toOption = result.toOption.map Draft.finish := by
    cases result <;> rfl
  simp only [parse, String.toList_append, String.toList_ofList, toOption_map,
    readAll_append_blanks leaves_shape blank text.toList]

end OrderDesk.Order
