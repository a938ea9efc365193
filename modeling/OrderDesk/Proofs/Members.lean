import Mathlib.Data.List.Forall2
import OrderDesk.Proofs.Scalars

/-! Objects and lists, as they are spelled and as they are read. What is gathered of an object is a fold
over its members, whatever blanks stand between them, and a list is read element by element. -/

namespace OrderDesk.Json

open Text

variable {α σ : Type}

def Leads (first : Bool) (lead : List Char) : Prop :=
  if first then lead = [] else ∃ blanks, IsBlank blanks ∧ lead = blanks ++ [',']

theorem leads_comma {blanks : List Char} (blank : IsBlank blanks) : Leads false (blanks ++ [',']) :=
  ⟨blanks, blank, rfl⟩

theorem IsBlank.stands {blanks : List Char} (blank : IsBlank blanks) {char : Char} {rest : List Char}
    (mark : char = ',' ∨ char = '\x7d' ∨ char = ']') : Stands (blanks ++ char :: rest) := by
  have solid : isJsonBlank char = false := by rcases mark with rfl | rfl | rfl <;> rfl
  refine stands_of_skipBlanks (blank.skip _ |>.trans (skipBlanks_cons solid rest)) ?_
  rcases mark with rfl | rfl | rfl <;> exact ⟨rfl, by decide, by decide, by decide⟩

theorem IsBlank.closes {blanks : List Char} (blank : IsBlank blanks) {close : Char}
    (solid : isJsonBlank close = false) (rest : List Char) : Closes close (blanks ++ close :: rest) :=
  ⟨rest, blank.skip _ |>.trans (skipBlanks_cons solid rest)⟩

theorem readColon_blank {blanks : List Char} (blank : IsBlank blanks) (rest : List Char) :
    readColon (blanks ++ ':' :: rest) = .ok rest := by
  have front : skipBlanks (blanks ++ ':' :: rest) = ':' :: rest := by
    rw [blank.skip, skipBlanks_cons (by decide)]
  simp only [readColon, front]

theorem closeObject_blank {blanks : List Char} (blank : IsBlank blanks) (rest : List Char) :
    closeObject (blanks ++ '\x7d' :: rest) = .ok rest := by
  have front : skipBlanks (blanks ++ '\x7d' :: rest) = '\x7d' :: rest := by
    rw [blank.skip, skipBlanks_cons (by decide)]
  simp only [closeObject, front]

theorem closeList_blank {blanks : List Char} (blank : IsBlank blanks) (rest : List Char) :
    closeList (blanks ++ ']' :: rest) = .ok rest := by
  have front : skipBlanks (blanks ++ ']' :: rest) = ']' :: rest := by
    rw [blank.skip, skipBlanks_cons (by decide)]
  simp only [closeList, front]

theorem nextKey_of_leads {first : Bool} {lead before key meant : List Char} (leads : Leads first lead)
    (blank : IsBlank before) (isKey : SpellsText key meant) (rest : List Char) :
    nextKey first (lead ++ (before ++ '"' :: (key ++ '"' :: rest))) =
      .ok (some (String.ofList meant, rest)) := by
  have inside : skipBlanks (before ++ '"' :: (key ++ '"' :: rest)) = '"' :: (key ++ '"' :: rest) := by
    rw [blank.skip, skipBlanks_cons (by decide)]
  cases first with
  | true =>
      obtain rfl := leads
      simp only [nextKey, List.nil_append, inside, if_true, scanText_of_spells isKey]
      rfl
  | false =>
      obtain ⟨blanks, blank', rfl⟩ := leads
      have front : skipBlanks (blanks ++ [','] ++ (before ++ '"' :: (key ++ '"' :: rest))) =
          ',' :: (before ++ '"' :: (key ++ '"' :: rest)) := by
        rw [List.append_assoc, blank'.skip]
        exact skipBlanks_cons (by decide) _
      simp only [nextKey, front, inside, Bool.false_eq_true, if_false, scanText_of_spells isKey]
      rfl

theorem exists_lead {first : Bool} {text rest : List Char} {key : String}
    (succeeded : nextKey first text = .ok (some (key, rest))) :
    ∃ lead before written meant, Leads first lead ∧ IsBlank before ∧ SpellsText written meant ∧
      text = lead ++ (before ++ '"' :: (written ++ '"' :: rest)) := by
  obtain ⟨before, blank, whole⟩ := exists_isBlank text
  unfold nextKey at succeeded
  split at succeeded
  · cases succeeded
  · cases succeeded
  · rename_i later comma
    obtain ⟨more, blank', behind⟩ := exists_isBlank later
    split at succeeded
    · cases succeeded
    · rename_i notFirst
      split at succeeded <;> try cases succeeded
      rename_i inner quote
      obtain ⟨_, found, done⟩ := bind_eq_ok.mp succeeded
      obtain rfl := Option.some.inj (Except.ok.inj done)
      obtain ⟨written, meant, isKey, rfl, _⟩ := exists_spellsText found
      obtain rfl : first = false := by simpa using notFirst
      refine ⟨before ++ [','], more, written, meant, leads_comma blank, blank', isKey, ?_⟩
      rw [whole, comma, behind, quote]
      simp
  · rename_i later quote
    split at succeeded
    · rename_i opening
      obtain ⟨_, found, done⟩ := bind_eq_ok.mp succeeded
      obtain rfl := Option.some.inj (Except.ok.inj done)
      obtain ⟨written, meant, isKey, rfl, _⟩ := exists_spellsText found
      refine ⟨[], before, written, meant, by simp [Leads, opening], blank, isKey, ?_⟩
      rw [whole, quote]
      rfl
    · cases succeeded
  · split at succeeded <;> cases succeeded

def MakesMember (read : Reader σ) (value : Value) (result : Option σ) : Prop :=
  ∀ ⦃before after text rest : List Char⦄, IsBlank before → IsBlank after → Spells text value →
    Stands rest → (read (before ++ ':' :: (after ++ (text ++ rest)))).toOption =
      result.map fun made => (made, rest)

theorem Makes.behind_colon {read : Reader σ} {value : Value} {result : Option σ}
    (makes : Makes read value result) :
    MakesMember (fun text => readColon text >>= read) value result := by
  intro before after text rest blank blank' spelled stands
  have colon := readColon_blank blank (after ++ (text ++ rest))
  simp only [colon]
  exact makes blank' spelled stands

theorem toOption_readMembers_succ {member : String → σ → Reader σ} {first : Bool}
    {lead before key meant : List Char} (leads : Leads first lead) (blank : IsBlank before)
    (isKey : SpellsText key meant) (rounds : Nat) (gathered : σ) (rest : List Char) :
    (readMembers member (rounds + 1) first gathered
        (lead ++ (before ++ '"' :: (key ++ '"' :: rest)))).toOption =
      (member (String.ofList meant) gathered rest).toOption.bind fun read =>
        (readMembers member rounds false read.1 read.2).toOption := by
  rw [readMembers, nextKey_of_leads leads blank isKey]
  exact toOption_bind (member (String.ofList meant) gathered rest) fun read =>
    readMembers member rounds false read.1 read.2

theorem readMembers_of_closes {member : String → σ → Reader σ} {first : Bool} {rounds : Nat}
    (some_left : rounds ≠ 0) {text : List Char} (closes : Closes '\x7d' text) (gathered : σ) :
    readMembers member rounds first gathered text = .ok (gathered, text) := by
  obtain ⟨rounds, rfl⟩ := Nat.exists_eq_succ_of_ne_zero some_left
  rw [readMembers, nextKey_of_closes closes]
  rfl

/-- The members of an object, up to its closing brace, are folded into what is gathered. -/
theorem toOption_readMembers {member : String → σ → Reader σ} {step : σ → String × Value → Option σ}
    {body : List Char} {members : List (String × Value)}
    (spelled : Separated (SpellsMember Spells) body members)
    (makes : ∀ entry ∈ members, ∀ gathered,
      MakesMember (member entry.1 gathered) entry.2 (step gathered entry))
    {first : Bool} {lead : List Char} (leads : Leads first lead) {fuel : Nat}
    (enough : (lead ++ body).length < fuel) (gathered : σ) (tail : List Char) :
    ∃ blanks, IsBlank blanks ∧
      (readMembers member fuel first gathered (lead ++ (body ++ '\x7d' :: tail))).toOption =
        (members.foldlM step gathered).map fun all => (all, blanks ++ '\x7d' :: tail) := by
  -- Every member takes characters off the text, and so the fuel outlasts the members.
  induction spelled generalizing first lead fuel gathered with
  | @last before text after entry blank given blank' =>
      obtain @⟨key, meant, ahead, behind, inner, value, isKey, blank₁, blank₂, spelled⟩ := given
      obtain ⟨rounds, rfl⟩ := Nat.exists_eq_succ_of_ne_zero (Nat.ne_of_gt (Nat.zero_lt_of_lt enough))
      have some_left : rounds ≠ 0 := by
        simp only [List.length_append, List.length_cons] at enough
        omega
      have stands : Stands (after ++ '\x7d' :: tail) := blank'.stands (.inr (.inl rfl))
      have made := makes _ List.mem_cons_self gathered blank₁ blank₂ spelled stands
      refine ⟨after, blank', ?_⟩
      have split : before ++ ('"' :: key ++ '"' :: ahead ++ ':' :: behind ++ inner) ++ after ++
          '\x7d' :: tail = before ++ '"' :: (key ++ '"' ::
            (ahead ++ ':' :: (behind ++ (inner ++ (after ++ '\x7d' :: tail))))) := by simp
      rw [split, toOption_readMembers_succ leads blank isKey, made]
      simp only [List.foldlM_cons, List.foldlM_nil]
      cases step gathered (String.ofList meant, value) with
      | none => rfl
      | some grown =>
          have closes : Closes '\x7d' (after ++ '\x7d' :: tail) := blank'.closes (by decide) tail
          simp only [Option.map_some, Option.bind_some, readMembers_of_closes some_left closes]
          rfl
  | @more before text after rest entry entries blank given blank' others ih =>
      obtain @⟨key, meant, ahead, behind, inner, value, isKey, blank₁, blank₂, spelled⟩ := given
      obtain ⟨rounds, rfl⟩ := Nat.exists_eq_succ_of_ne_zero (Nat.ne_of_gt (Nat.zero_lt_of_lt enough))
      have stands : Stands (after ++ ',' :: (rest ++ '\x7d' :: tail)) := blank'.stands (.inl rfl)
      have made := makes _ List.mem_cons_self gathered blank₁ blank₂ spelled stands
      have split : before ++ ('"' :: key ++ '"' :: ahead ++ ':' :: behind ++ inner) ++ after ++
          ',' :: rest ++ '\x7d' :: tail = before ++ '"' :: (key ++ '"' ::
            (ahead ++ ':' :: (behind ++ (inner ++ (after ++ ',' :: (rest ++ '\x7d' :: tail)))))) := by
        simp
      have again : after ++ ',' :: (rest ++ '\x7d' :: tail) =
          after ++ [','] ++ (rest ++ '\x7d' :: tail) := by simp
      have fewer : (after ++ [','] ++ rest).length < rounds := by
        simp only [List.length_append, List.length_cons, List.length_nil] at enough ⊢
        omega
      have goes (grown : σ) := ih (fun entry member => makes entry (List.mem_cons_of_mem _ member))
        (leads_comma blank') fewer grown
      rw [split, List.foldlM_cons]
      simp only [toOption_readMembers_succ leads blank isKey, made]
      cases step gathered (String.ofList meant, value) with
      | none => exact ⟨[], isBlank_nil, rfl⟩
      | some grown =>
          obtain ⟨blanks, isBlank, read⟩ := goes grown
          refine ⟨blanks, isBlank, ?_⟩
          simp only [Option.map_some, Option.bind_some, again, read]
          rfl

def GroundedMember (read : Reader σ) : Prop :=
  ∀ ⦃text rest : List Char⦄ ⦃made : σ⦄, read text = .ok (made, rest) →
    ∃ before after inner value, text = before ++ ':' :: (after ++ (inner ++ rest)) ∧
      IsBlank before ∧ IsBlank after ∧ Spells inner value

theorem Grounded.behind_colon {read : Reader σ} (grounded : Grounded read) :
    GroundedMember fun text => readColon text >>= read := by
  intro text rest made succeeded
  obtain ⟨later, colon, found⟩ := bind_eq_ok.mp succeeded
  obtain ⟨before, blank, whole⟩ := exists_isBlank text
  obtain ⟨after, inner, value, rfl, blank', spelled⟩ := grounded found
  refine ⟨before, after, inner, value, ?_, blank, blank', spelled⟩
  unfold readColon at colon
  split at colon <;> try cases colon
  rename_i behind
  rw [whole, behind]

theorem exists_separated {member : String → σ → Reader σ}
    (grounded : ∀ key gathered, GroundedMember (member key gathered)) {fuel : Nat} {first : Bool}
    {gathered all : σ} {text blanks tail : List Char} (blank : IsBlank blanks)
    (succeeded : readMembers member fuel first gathered text = .ok (all, blanks ++ tail)) :
    text = blanks ++ tail ∨ ∃ lead body members, Leads first lead ∧
      text = lead ++ (body ++ tail) ∧ Separated (SpellsMember Spells) body members := by
  -- What stands in front of the closing brace belongs to the last member that is read.
  induction fuel generalizing first gathered text with
  | zero => cases succeeded
  | succ fuel ih =>
      simp only [readMembers] at succeeded
      obtain ⟨next, found, goes⟩ := bind_eq_ok.mp succeeded
      cases next with
      | none =>
          obtain ⟨_, same⟩ := Prod.mk.inj (Except.ok.inj goes)
          exact .inl same
      | some entry =>
          obtain ⟨key, behind⟩ := entry
          obtain ⟨⟨grown, later⟩, read, remain⟩ := bind_eq_ok.mp goes
          obtain ⟨lead, before, written, meant, leads, isBlank, isKey, rfl⟩ := exists_lead found
          obtain ⟨ahead, after, inner, value, rfl, blank₁, blank₂, spelled⟩ := grounded _ _ read
          have given := SpellsMember.mk isKey blank₁ blank₂ spelled
          refine .inr ?_
          rcases ih remain with rfl | ⟨lead', body, members, leads', rfl, others⟩
          · exact ⟨lead, _, _, leads, by simp, .last isBlank given blank⟩
          · obtain ⟨more, blank₃, rfl⟩ := leads'
            exact ⟨lead, _, _, leads, by simp, .more isBlank given blank₃ others⟩

theorem Spells.exists_members {text : List Char} {members : List (String × Value)}
    (spelled : Spells text (.object members)) :
    ∃ inner, text = '\x7b' :: (inner ++ ['\x7d']) ∧
      ((IsBlank inner ∧ members = []) ∨ Separated (SpellsMember Spells) inner members) := by
  cases spelled with
  | emptyObject blank => exact ⟨_, rfl, .inl ⟨blank, rfl⟩⟩
  | object spelled => exact ⟨_, rfl, .inr spelled⟩

theorem Value.Begins.exists_object {value : Value} (begins : value.Begins '\x7b') :
    ∃ members, value = .object members := by
  rcases value with _ | value | _ | _ | _ | _ | members
  case object => exact ⟨members, rfl⟩
  case boolean => cases value <;> cases begins
  all_goals simp [Value.Begins, isDigit] at begins

theorem toOption_members {member : String → σ → Reader σ} {step : σ → String × Value → Option σ}
    {text : List Char} {members : List (String × Value)}
    (spelled : Spells ('\x7b' :: text) (.object members))
    (makes : ∀ entry ∈ members, ∀ gathered,
      MakesMember (member entry.1 gathered) entry.2 (step gathered entry))
    (empty : σ) (rest : List Char) :
    ∃ blanks, IsBlank blanks ∧
      (readMembers member ((text ++ rest).length + 1) true empty (text ++ rest)).toOption =
        (members.foldlM step empty).map fun all => (all, blanks ++ '\x7d' :: rest) := by
  obtain ⟨inner, split, given⟩ := spelled.exists_members
  obtain ⟨_, rfl⟩ := List.cons.inj split
  have whole : inner ++ ['\x7d'] ++ rest = inner ++ '\x7d' :: rest := by simp
  rw [whole]
  rcases given with ⟨blank, rfl⟩ | given
  · refine ⟨inner, blank, ?_⟩
    rw [readMembers_of_closes (Nat.succ_ne_zero _) (blank.closes (by decide) rest)]
    rfl
  · have leads : Leads true [] := rfl
    have enough : ([] ++ inner).length < (inner ++ '\x7d' :: rest).length + 1 := by
      simp only [List.nil_append, List.length_append]
      omega
    exact toOption_readMembers given makes leads enough empty rest

theorem exists_brace {text rest : List Char} (succeeded : closeObject text = .ok rest) :
    ∃ blanks, IsBlank blanks ∧ text = blanks ++ '\x7d' :: rest := by
  obtain ⟨blanks, blank, whole⟩ := exists_isBlank text
  unfold closeObject at succeeded
  split at succeeded <;> try cases succeeded
  rename_i found
  exact ⟨blanks, blank, found ▸ whole⟩

theorem exists_spelled_object {member : String → σ → Reader σ}
    (grounded : ∀ key gathered, GroundedMember (member key gathered)) {fuel : Nat} {empty all : σ}
    {text middle rest : List Char}
    (members : readMembers member fuel true empty text = .ok (all, middle))
    (closed : closeObject middle = .ok rest) :
    ∃ inner value, '\x7b' :: text = inner ++ rest ∧ Spells inner value := by
  obtain ⟨blanks, blank, rfl⟩ := exists_brace closed
  rcases exists_separated grounded blank members with rfl | ⟨lead, body, members, rfl, rfl, spelled⟩
  · exact ⟨_, _, by simp, .emptyObject blank⟩
  · exact ⟨_, _, by simp, .object spelled⟩

/-! ## Records -/

namespace Shape

variable {shape : Shape σ}

/-- What becomes of what has been gathered when a member is added, given what its value says. -/
def step (shape : Shape σ) (view : String → σ → Value → Option σ) (gathered : σ)
    (entry : String × Value) : Option σ :=
  match shape.fields.find? fun field => field.name == entry.1 with
  | some field => if field.filled gathered then none else view entry.1 gathered entry.2
  | none => none

def complete? (shape : Shape σ) (gathered : σ) : Option σ :=
  if (shape.missing? gathered).isNone then some gathered else none

def Views (shape : Shape σ) (view : String → σ → Value → Option σ) (entry : String × Value) : Prop :=
  ∀ field, (shape.fields.find? fun field => field.name == entry.1) = some field → ∀ gathered,
    Makes (field.read gathered) entry.2 (view entry.1 gathered entry.2)

theorem makes_member {view : String → σ → Value → Option σ} {entry : String × Value}
    (views : shape.Views view entry) (known : shape.strict = true ∨
      (shape.fields.find? fun field => field.name == entry.1).isSome = true) (gathered : σ) :
    MakesMember (shape.member entry.1 gathered) entry.2 (shape.step view gathered entry) := by
  intro before after text rest blank blank' spelled stands
  cases found : shape.fields.find? fun field => field.name == entry.1 with
  | none =>
      have strict : shape.strict = true := by simpa [found] using known
      simp only [member, step, found, strict, if_true]
      rfl
  | some field =>
      simp only [member, step, found]
      split
      · rfl
      · exact Makes.behind_colon (views field found gathered) blank blank' spelled stands

/-- A record is read off an object by a fold over its members. -/
theorem makes_read {view : String → σ → Value → Option σ} {members : List (String × Value)}
    (views : ∀ entry ∈ members, shape.Views view entry ∧ (shape.strict = true ∨
      (shape.fields.find? fun field => field.name == entry.1).isSome = true)) (empty : σ) :
    Makes (shape.read empty) (.object members)
      ((members.foldlM (shape.step view) empty).bind shape.complete?) := by
  intro before text rest blank spelled stands
  obtain ⟨char, tail, rfl, begins⟩ := spelled.exists_first
  obtain rfl : char = '\x7b' := begins
  obtain ⟨blanks, blank', read⟩ := toOption_members spelled
    (fun entry member gathered => makes_member (views entry member).1 (views entry member).2 gathered)
    empty rest
  rw [List.cons_append, Shape.read, atValue_blank blank (by decide), if_pos rfl, toOption_bind, read]
  cases members.foldlM (shape.step view) empty with
  | none => rfl
  | some all =>
      simp only [Option.map_some, Option.bind_some, complete?]
      cases shape.missing? all with
      | some field => rfl
      | none =>
          simp only [closeObject_blank blank']
          rfl

theorem groundedMember (strict : shape.strict = true)
    (grounded : ∀ field ∈ shape.fields, ∀ gathered, Grounded (field.read gathered)) (key : String)
    (gathered : σ) : GroundedMember (shape.member key gathered) := by
  intro text rest made succeeded
  unfold member at succeeded
  split at succeeded
  · rename_i field found
    split at succeeded
    · cases succeeded
    · exact Grounded.behind_colon (grounded field (List.mem_of_find?_eq_some found) gathered)
        succeeded
  · rw [if_pos strict] at succeeded
    cases succeeded

/-- A strict record that begins with a brace is an object of the grammar. -/
theorem exists_spelled (strict : shape.strict = true)
    (grounded : ∀ field ∈ shape.fields, ∀ gathered, Grounded (field.read gathered)) {empty made : σ}
    {text later rest : List Char} (brace : skipBlanks text = '\x7b' :: later)
    (succeeded : shape.read empty text = .ok (made, rest)) :
    ∃ before inner value, text = before ++ (inner ++ rest) ∧ IsBlank before ∧ Spells inner value := by
  obtain ⟨before, blank, whole⟩ := exists_isBlank text
  simp only [Shape.read, atValue, brace, if_true] at succeeded
  obtain ⟨⟨all, middle⟩, members, done⟩ := bind_eq_ok.mp succeeded
  simp only at done
  split at done
  · cases done
  · obtain ⟨behind, closed, same⟩ := bind_eq_ok.mp done
    obtain ⟨_, rfl⟩ := Prod.mk.inj (Except.ok.inj same)
    obtain ⟨inner, value, split, spelled⟩ :=
      exists_spelled_object (groundedMember strict grounded) members closed
    exact ⟨before, inner, value, by rw [whole, brace, split], blank, spelled⟩

end Shape

theorem Spells.exists_elements {text : List Char} {elements : List Value}
    (spelled : Spells text (.list elements)) :
    ∃ inner, text = '[' :: (inner ++ [']']) ∧
      ((IsBlank inner ∧ elements = []) ∨ Separated Spells inner elements) := by
  cases spelled with
  | emptyList blank => exact ⟨_, rfl, .inl ⟨blank, rfl⟩⟩
  | list spelled => exact ⟨_, rfl, .inr spelled⟩

theorem Value.Begins.ne_mark {value : Value} {char : Char} (begins : value.Begins char) :
    char ≠ ',' ∧ char ≠ ']' := by
  have number (first : char = '-' ∨ isDigit char = true) : char ≠ ',' ∧ char ≠ ']' := by
    constructor
    · rintro rfl
      simp [isDigit] at first
    · rintro rfl
      simp [isDigit] at first
  cases value with
  | integer => exact number begins
  | decimal => exact number begins
  | boolean value => cases value <;> exact begins ▸ by decide
  | _ => exact begins ▸ by decide

theorem nextElement_of_leads {first : Bool} {lead before text : List Char} {value : Value}
    (leads : Leads first lead) (blank : IsBlank before) (spelled : Spells text value)
    (rest : List Char) :
    nextElement first (lead ++ (before ++ (text ++ rest))) = .ok (some (text ++ rest)) := by
  obtain ⟨char, tail, rfl, begins⟩ := spelled.exists_first
  obtain ⟨notComma, notClose⟩ := begins.ne_mark
  have inside : skipBlanks (before ++ (char :: tail ++ rest)) = char :: tail ++ rest := by
    rw [blank.skip]
    exact skipBlanks_cons begins.solid _
  cases first with
  | true =>
      obtain rfl := leads
      rw [List.nil_append, nextElement, inside]
      split
      · rename_i empty
        cases empty
      · rename_i close
        exact absurd (List.cons.inj close).1 notClose
      · rename_i comma
        exact absurd (List.cons.inj comma).1 notComma
      · rfl
  | false =>
      obtain ⟨blanks, blank', rfl⟩ := leads
      have front : skipBlanks (blanks ++ [','] ++ (before ++ (char :: tail ++ rest))) =
          ',' :: (before ++ (char :: tail ++ rest)) := by
        rw [List.append_assoc, blank'.skip]
        exact skipBlanks_cons (by decide) _
      simp only [nextElement, front, inside, Bool.false_eq_true, if_false]
      split
      · rename_i empty
        cases empty
      · rename_i close
        exact absurd (List.cons.inj close).1 notClose
      · rfl

theorem readElements_of_closes {read : Reader α} {first : Bool} {rounds : Nat}
    (some_left : rounds ≠ 0) {text : List Char} (closes : Closes ']' text) :
    readElements read rounds first text = .ok ([], text) := by
  obtain ⟨rounds, rfl⟩ := Nat.exists_eq_succ_of_ne_zero some_left
  rw [readElements, nextElement_of_closes closes]
  rfl

theorem Makes.eq_ok {read : Reader α} {value : Value} {made : α} (makes : Makes read value (some made))
    {text rest : List Char} (spelled : Spells text value) (stands : Stands rest) :
    read (text ++ rest) = .ok (made, rest) := by
  have result := makes isBlank_nil spelled stands
  rw [List.nil_append, Option.map_some] at result
  exact toOption_eq_some.mp result

theorem readElements_succ {read : Reader α} {first : Bool} {lead before text : List Char}
    {value : Value} {made : α} (leads : Leads first lead) (blank : IsBlank before)
    (spelled : Spells text value) (makes : Makes read value (some made)) (rounds : Nat)
    {rest behind : List Char} {others : List α} (stands : Stands rest)
    (goes : readElements read rounds false rest = .ok (others, behind)) :
    readElements read (rounds + 1) first (lead ++ (before ++ (text ++ rest))) =
      .ok (made :: others, behind) := by
  rw [readElements, nextElement_of_leads leads blank spelled]
  refine bind_eq_ok.mpr ⟨_, rfl, bind_eq_ok.mpr ⟨_, makes.eq_ok spelled stands, ?_⟩⟩
  exact bind_eq_ok.mpr ⟨_, goes, rfl⟩

theorem exists_readElements {read : Reader α} {body : List Char} {elements : List Value}
    (spelled : Separated Spells body elements) {made : List α}
    (makes : List.Forall₂ (fun element value => Makes read element (some value)) elements made)
    {first : Bool} {lead : List Char} (leads : Leads first lead) {fuel : Nat}
    (enough : (lead ++ body).length < fuel) (tail : List Char) :
    ∃ blanks, IsBlank blanks ∧ readElements read fuel first (lead ++ (body ++ ']' :: tail)) =
      .ok (made, blanks ++ ']' :: tail) := by
  induction spelled generalizing first lead fuel made with
  | @last before text after element blank given blank' =>
      obtain ⟨rounds, rfl⟩ := Nat.exists_eq_succ_of_ne_zero (Nat.ne_of_gt (Nat.zero_lt_of_lt enough))
      have some_left : rounds ≠ 0 := by
        obtain ⟨char, tail, rfl, _⟩ := given.exists_first
        simp only [List.length_append, List.length_cons] at enough
        omega
      obtain ⟨value, _, first_made, rest, rfl⟩ := List.forall₂_cons_left_iff.mp makes
      obtain rfl := List.forall₂_nil_left_iff.mp rest
      have split : before ++ text ++ after ++ ']' :: tail =
          before ++ (text ++ (after ++ ']' :: tail)) := by simp
      have closes : Closes ']' (after ++ ']' :: tail) := blank'.closes (by decide) tail
      refine ⟨after, blank', ?_⟩
      rw [split]
      exact readElements_succ leads blank given first_made rounds (blank'.stands (.inr (.inr rfl)))
        (readElements_of_closes some_left closes)
  | @more before text after rest element elements blank given blank' others ih =>
      obtain ⟨rounds, rfl⟩ := Nat.exists_eq_succ_of_ne_zero (Nat.ne_of_gt (Nat.zero_lt_of_lt enough))
      obtain ⟨value, values, first_made, rest_made, rfl⟩ := List.forall₂_cons_left_iff.mp makes
      have split : before ++ text ++ after ++ ',' :: rest ++ ']' :: tail =
          before ++ (text ++ (after ++ [','] ++ (rest ++ ']' :: tail))) := by simp
      have fewer : (after ++ [','] ++ rest).length < rounds := by
        obtain ⟨char, tail, rfl, _⟩ := given.exists_first
        simp only [List.length_append, List.length_cons, List.length_nil] at enough ⊢
        omega
      have stands : Stands (after ++ [','] ++ (rest ++ ']' :: tail)) := by
        rw [List.append_assoc]
        exact blank'.stands (.inl rfl)
      obtain ⟨blanks, isBlank, goes⟩ := ih rest_made (leads_comma blank') fewer
      refine ⟨blanks, isBlank, ?_⟩
      rw [split]
      exact readElements_succ leads blank given first_made rounds stands goes

theorem makes_readList {read : Reader α} {elements : List Value} {made : List α}
    (makes : List.Forall₂ (fun element value => Makes read element (some value)) elements made) :
    Makes (readList read) (.list elements) (some made) := by
  intro before text rest blank spelled stands
  obtain ⟨inner, rfl, given⟩ := spelled.exists_elements
  have whole : inner ++ [']'] ++ rest = inner ++ ']' :: rest := by simp
  have read : ∃ blanks, IsBlank blanks ∧
      readElements read ((inner ++ ']' :: rest).length + 1) true (inner ++ ']' :: rest) =
        .ok (made, blanks ++ ']' :: rest) := by
    rcases given with ⟨blank, rfl⟩ | given
    · obtain rfl := List.forall₂_nil_left_iff.mp makes
      exact ⟨inner, blank, readElements_of_closes (Nat.succ_ne_zero _) (blank.closes (by decide) rest)⟩
    · have leads : Leads true [] := rfl
      have enough : ([] ++ inner).length < (inner ++ ']' :: rest).length + 1 := by
        simp only [List.nil_append, List.length_append]
        omega
      exact exists_readElements given makes leads enough rest
  obtain ⟨blanks, isBlank, read⟩ := read
  rw [List.cons_append, readList, atValue_blank blank (by decide), if_pos rfl, whole, Option.map_some,
    toOption_eq_some]
  exact bind_eq_ok.mpr ⟨_, read, bind_eq_ok.mpr ⟨_, closeList_blank isBlank rest, rfl⟩⟩

end OrderDesk.Json
