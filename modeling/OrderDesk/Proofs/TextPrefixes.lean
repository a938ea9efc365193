import OrderDesk.Order.Text

/-! What a reader takes off the front of a text. A value is read from a piece of the text that does
not end with a blank, and it is the same whatever follows that piece, apart from a number, which goes
on as long as it can. Here are words, brackets, texts, integers and values that may be missing. -/

namespace OrderDesk.Json

open Text

variable {α β : Type}

def Tight (text : List Char) : Prop :=
  ∀ last ∈ text.getLast?, isJsonBlank last = false

/-- The text does not begin with anything that could belong to a number. -/
def Stands : List Char → Prop
  | [] => True
  | char :: _ => isDigit char = false ∧ char ≠ '.' ∧ char ≠ 'e' ∧ char ≠ 'E'

/-- Whenever the reader succeeds, it does so with the value of a piece off the front of the text, and
it would do so before any other rest that fits. -/
def Leaves (fits : List Char → Prop) (read : Reader α) : Prop :=
  ∀ text value rest, read text = .ok (value, rest) → ∃ used, text = used ++ rest ∧ used ≠ [] ∧
    Tight used ∧ ∀ other, fits other → read (used ++ other) = .ok (value, other)

theorem tight_nil : Tight [] := nofun

theorem tight_append_cons {first second : List Char} {char : Char} (solid : isJsonBlank char = false)
    (after : Tight second) : Tight (first ++ char :: second) := by
  intro last member
  rw [List.getLast?_append, List.getLast?_cons] at member
  simp only [Option.some_or, Option.mem_def, Option.some.injEq] at member
  cases ends : second.getLast? with
  | none => simpa [← member, ends] using solid
  | some final => exact after last (by simpa [ends] using member)

theorem Tight.of_cons {char : Char} {text : List Char} (tight : Tight (char :: text)) :
    Tight text := fun last member =>
  tight last (by simp [List.getLast?_cons, Option.mem_def.mp member])

theorem Leaves.weaken {fits less : List Char → Prop} {read : Reader α} (leaves : Leaves fits read)
    (fewer : ∀ other, less other → fits other) : Leaves less read := by
  intro text value rest succeeded
  obtain ⟨used, split, some_used, tight, takes⟩ := leaves text value rest succeeded
  exact ⟨used, split, some_used, tight, fun other given => takes other (fewer other given)⟩

theorem bind_eq_ok {ε : Type} {first : Except ε α} {next : α → Except ε β} {value : β} :
    (first >>= next) = .ok value ↔ ∃ middle, first = .ok middle ∧ next middle = .ok value := by
  cases first <;> simp [bind, Except.bind]

theorem skipBlanks_append {blanks : List Char} (blank : ∀ char ∈ blanks, isJsonBlank char = true)
    (text : List Char) : skipBlanks (blanks ++ text) = skipBlanks text :=
  List.dropWhile_append_of_pos blank

theorem skipBlanks_cons {char : Char} (solid : isJsonBlank char = false) (text : List Char) :
    skipBlanks (char :: text) = char :: text := by
  simp [skipBlanks, solid]

theorem exists_blanks (text : List Char) :
    ∃ blanks, (∀ char ∈ blanks, isJsonBlank char = true) ∧ text = blanks ++ skipBlanks text :=
  ⟨text.takeWhile isJsonBlank, List.all_eq_true.mp List.all_takeWhile,
    List.takeWhile_append_dropWhile.symm⟩

theorem solid_of_skipBlanks {text rest : List Char} {char : Char}
    (found : skipBlanks text = char :: rest) : isJsonBlank char = false := by
  have first := List.head?_dropWhile_not isJsonBlank text
  rw [show text.dropWhile isJsonBlank = char :: rest from found] at first
  simpa using first

theorem exists_solid {text rest : List Char} {char : Char} (found : skipBlanks text = char :: rest) :
    ∃ blanks, text = blanks ++ char :: rest ∧ isJsonBlank char = false ∧
      ∀ other, skipBlanks (blanks ++ other) = skipBlanks other := by
  obtain ⟨blanks, blank, split⟩ := exists_blanks text
  exact ⟨blanks, found ▸ split, solid_of_skipBlanks found, fun other => skipBlanks_append blank other⟩

theorem leaves_atValue {fits : List Char → Prop} {read : Char → List Char → Except Fault (α × List Char)}
    (leaves : ∀ char text value rest, isJsonBlank char = false → read char text = .ok (value, rest) →
      ∃ used, text = used ++ rest ∧ Tight used ∧
        ∀ other, fits other → read char (used ++ other) = .ok (value, other)) :
    Leaves fits (atValue read) := by
  intro text value rest succeeded
  unfold atValue at succeeded
  split at succeeded
  · cases succeeded
  · rename_i char later found
    obtain ⟨blanks, rfl, solid, skips⟩ := exists_solid found
    obtain ⟨used, rfl, tight, takes⟩ := leaves char later value rest solid succeeded
    refine ⟨blanks ++ char :: used, by simp, by simp, tight_append_cons solid tight,
      fun other given => ?_⟩
    have front : skipBlanks (blanks ++ char :: used ++ other) = char :: (used ++ other) := by
      rw [List.append_assoc, skips]
      exact skipBlanks_cons solid _
    simp only [atValue, front, takes other given]

theorem readWord_eq_ok {word text rest : List Char} :
    readWord word text = .ok rest ↔ text = word ++ rest := by
  induction word generalizing text with
  | nil => simp [readWord]
  | cons wanted word ih =>
      cases text with
      | nil => simp [readWord]
      | cons char text =>
          simp only [readWord, List.cons_append, List.cons.injEq]
          split
          · rename_i same
            simp [same, ih]
          · rename_i other
            simp [other]

theorem readColon_eq_ok {text rest : List Char} (succeeded : readColon text = .ok rest) :
    ∃ blanks, text = blanks ++ ':' :: rest ∧
      ∀ other, readColon (blanks ++ ':' :: other) = .ok other := by
  unfold readColon at succeeded
  split at succeeded <;> try cases succeeded
  rename_i found
  obtain ⟨blanks, rfl, solid, skips⟩ := exists_solid found
  refine ⟨blanks, rfl, fun other => ?_⟩
  simp only [readColon, skips, skipBlanks_cons solid]

theorem closeObject_eq_ok {text rest : List Char} (succeeded : closeObject text = .ok rest) :
    ∃ blanks, text = blanks ++ '\x7d' :: rest ∧
      ∀ other, skipBlanks (blanks ++ '\x7d' :: other) = '\x7d' :: other := by
  unfold closeObject at succeeded
  split at succeeded <;> try cases succeeded
  rename_i found
  obtain ⟨blanks, rfl, solid, skips⟩ := exists_solid found
  exact ⟨blanks, rfl, fun other => by rw [skips, skipBlanks_cons solid]⟩

theorem closeList_eq_ok {text rest : List Char} (succeeded : closeList text = .ok rest) :
    ∃ blanks, text = blanks ++ ']' :: rest ∧
      ∀ other, skipBlanks (blanks ++ ']' :: other) = ']' :: other := by
  unfold closeList at succeeded
  split at succeeded
  · cases succeeded
  · cases succeeded
    rename_i found
    obtain ⟨blanks, rfl, solid, skips⟩ := exists_solid found
    exact ⟨blanks, rfl, fun other => by rw [skips, skipBlanks_cons solid]⟩
  · split at succeeded <;> cases succeeded
  · cases succeeded

theorem scanText_escape {seen rest : List Char} {char escaped : Char} (other : char ≠ 'u')
    (found : shortEscape? char = some escaped) :
    scanText seen ('\\' :: char :: rest) = scanText (escaped :: seen) rest := by
  rw [scanText.eq_def]
  split <;> grind

theorem scanText_plain {seen rest : List Char} {char : Char} (notQuote : char ≠ '"')
    (notBackslash : char ≠ '\\') (notControl : ¬ char.toNat < 0x20) :
    scanText seen (char :: rest) = scanText (char :: seen) rest := by
  rw [scanText.eq_def]
  split <;> grind

/-- A text ends with the first quote that is not escaped, and nobody looks behind it. -/
theorem exists_quote {seen text rest : List Char} {value : String}
    (succeeded : scanText seen text = .ok (value, rest)) :
    ∃ used, text = used ++ '"' :: rest ∧
      ∀ other, scanText seen (used ++ '"' :: other) = .ok (value, other) := by
  have step {seen later text tail : List Char} (front : List Char)
      (goes : ∀ other, scanText seen (front ++ other) = scanText later other)
      (found : ∃ used, tail = used ++ '"' :: rest ∧
        ∀ other, scanText later (used ++ '"' :: other) = .ok (value, other))
      (split : text = front ++ tail) :
      ∃ used, text = used ++ '"' :: rest ∧
        ∀ other, scanText seen (used ++ '"' :: other) = .ok (value, other) := by
    obtain ⟨used, rfl, takes⟩ := found
    refine ⟨front ++ used, by rw [split, List.append_assoc], fun other => ?_⟩
    rw [List.append_assoc, goes, takes other]
  fun_induction scanText seen text <;> try cases succeeded
  case case2 seen =>
    exact ⟨[], rfl, fun other => by simp [scanText]⟩
  case case6 seen a b c d unit found notLow high e f g h tail low found' isLow ih =>
    refine step ['\\', 'u', a, b, c, d, '\\', 'u', e, f, g, h] (fun other => ?_) (ih succeeded) rfl
    simp [scanText, found, notLow, high, found', isLow]
  case case9 seen a b c d tail unit found notLow notHigh ih =>
    refine step ['\\', 'u', a, b, c, d] (fun other => ?_) (ih succeeded) rfl
    simp [scanText, found, notLow, notHigh]
  case case11 seen char tail _ notUnit escaped found ih =>
    exact step ['\\', char] (fun _ => scanText_escape notUnit found) (ih succeeded) rfl
  case case15 seen char tail notQuote _ _ before alone notControl ih =>
    have notBackslash : char ≠ '\\' := fun same => by
      cases tail with
      | nil => exact alone same rfl
      | cons next tail => exact before next tail same rfl
    exact step [char] (fun _ => scanText_plain notQuote notBackslash notControl) (ih succeeded) rfl

theorem leaves_scanText (seen : List Char) : Leaves (fun _ => True) (scanText seen) := by
  intro text value rest succeeded
  obtain ⟨used, rfl, takes⟩ := exists_quote succeeded
  refine ⟨used ++ ['"'], by simp, by simp, tight_append_cons (by decide) tight_nil, fun other _ => ?_⟩
  rw [List.append_assoc]
  exact takes other

theorem leaves_readText : Leaves (fun _ => True) readText := by
  refine leaves_atValue fun char text value rest _ succeeded => ?_
  split at succeeded
  · rename_i quote
    obtain ⟨used, split, _, tight, takes⟩ := leaves_scanText [] text value rest succeeded
    exact ⟨used, split, tight, fun other given => by simp only [quote, if_true, takes other given]⟩
  · cases succeeded

/-! ## Integers -/

def Number.integer? : Number → Option Int
  | .natural value => some value
  | .negative value => some (-value)
  | .float _ => none

theorem integer?_finishFloat {negative : Bool} {significand : Nat} {exponent : Int} {number : Number}
    {text rest : List Char}
    (succeeded : finishFloat negative significand exponent text = .ok (number, rest)) :
    number.integer? = none := by
  unfold finishFloat at succeeded
  split at succeeded <;> cases succeeded
  rfl

theorem integer?_readExponent {negative : Bool} {significand : Nat} {scale : Int} {number : Number}
    {text rest : List Char}
    (succeeded : readExponent negative significand scale text = .ok (number, rest)) :
    number.integer? = none := by
  simp only [readExponent] at succeeded
  repeat' split at succeeded
  all_goals first
    | exact integer?_finishFloat succeeded
    | cases succeeded
  rfl

theorem integer?_readScale {negative : Bool} {significand : Nat} {scale : Int} {number : Number}
    {text rest : List Char}
    (succeeded : readScale negative significand scale text = .ok (number, rest)) :
    number.integer? = none := by
  unfold readScale at succeeded
  split at succeeded
  · exact integer?_readExponent succeeded
  · exact integer?_readExponent succeeded
  · exact integer?_finishFloat succeeded

theorem integer?_readFraction {negative : Bool} {significand : Nat} {scale : Int} {number : Number}
    {text rest : List Char}
    (succeeded : readFraction negative significand scale text = .ok (number, rest)) :
    number.integer? = none := by
  simp only [readFraction] at succeeded
  split at succeeded
  · exact integer?_readScale succeeded
  · split at succeeded
    · cases succeeded
    · exact integer?_readScale succeeded

theorem readTail_of_stands (negative : Bool) (significand scale : Nat) {text : List Char}
    (stands : Stands text) :
    readTail negative significand scale text =
      if scale ≠ 0 then finishFloat negative significand scale text
      else if !negative then .ok (.natural significand, text)
      else if significand = 0 || 1 <<< 63 < significand then finishFloat true significand 0 text
      else .ok (.negative significand, text) := by
  cases text with
  | nil => rfl
  | cons char text =>
      obtain ⟨_, point, small, great⟩ := stands
      rw [readTail.eq_def]
      split <;> simp_all

theorem readTail_integer {negative : Bool} {significand scale : Nat} {number : Number}
    {text rest : List Char}
    (succeeded : readTail negative significand scale text = .ok (number, rest))
    (integer : number.integer? ≠ none) :
    scale = 0 ∧ rest = text ∧
      ∀ other, Stands other → readTail negative significand 0 other = .ok (number, other) := by
  unfold readTail at succeeded
  split at succeeded
  · exact absurd (integer?_readFraction succeeded) integer
  · exact absurd (integer?_readExponent succeeded) integer
  · exact absurd (integer?_readExponent succeeded) integer
  · split at succeeded
    · exact absurd (integer?_finishFloat succeeded) integer
    · rename_i exact_scale
      have none_left : scale = 0 := by simpa using exact_scale
      split at succeeded
      · rename_i plus
        obtain ⟨rfl, rfl⟩ := Prod.mk.inj (Except.ok.inj succeeded)
        exact ⟨none_left, rfl, fun other stands => by simp [readTail_of_stands _ _ _ stands, plus]⟩
      · rename_i minus
        split at succeeded
        · exact absurd (integer?_finishFloat succeeded) integer
        · rename_i small
          obtain ⟨rfl, rfl⟩ := Prod.mk.inj (Except.ok.inj succeeded)
          refine ⟨none_left, rfl, fun other stands => ?_⟩
          rw [readTail_of_stands _ _ _ stands]
          simp only [ne_eq, not_true_eq_false, if_false, minus, small, Bool.false_eq_true]

theorem startsWithDigit_of_stands {text : List Char} (stands : Stands text) :
    startsWithDigit text = false := by
  cases text with
  | nil => rfl
  | cons char text => exact stands.1

theorem dropDigits_eq_zero {text rest : List Char} {start : Nat}
    (none_dropped : dropDigits start text = (start, rest)) :
    rest = text ∧ startsWithDigit text = false := by
  have grows (start : Nat) (text : List Char) : start ≤ (dropDigits start text).1 := by
    induction text generalizing start with
    | nil => exact Nat.le_refl _
    | cons char text ih =>
        simp only [dropDigits]
        split
        · exact Nat.le_of_succ_le (ih (start + 1))
        · exact Nat.le_refl _
  cases text with
  | nil => simpa [dropDigits, startsWithDigit, eq_comm] using none_dropped
  | cons char text =>
      simp only [dropDigits] at none_dropped
      split at none_dropped
      · have more := grows (start + 1) text
        rw [none_dropped] at more
        exact absurd more (Nat.not_succ_le_self start)
      · rename_i other
        exact ⟨(Prod.mk.inj none_dropped).2.symm, by simpa [startsWithDigit] using other⟩

theorem dropDigits_of_not_digit {text : List Char} (other : startsWithDigit text = false)
    (start : Nat) : dropDigits start text = (start, text) := by
  cases text with
  | nil => rfl
  | cons char text =>
      simp only [startsWithDigit] at other
      simp [dropDigits, other]

theorem exists_takeDigits {bound value count : Nat} {text : List Char}
    (complete : startsWithDigit (takeDigits bound value count text).rest = false) :
    ∃ digits, text = digits ++ (takeDigits bound value count text).rest ∧
      (∀ char ∈ digits, isDigit char = true) ∧
      ∀ other, startsWithDigit other = false → takeDigits bound value count (digits ++ other) =
        { takeDigits bound value count text with rest := other } := by
  fun_induction takeDigits bound value count text with
  | case1 value count =>
      refine ⟨[], rfl, nofun, fun other stops => ?_⟩
      cases other with
      | nil => rfl
      | cons char other =>
          simp only [startsWithDigit] at stops
          simp [takeDigits, stops]
  | case2 value count char rest taken ih =>
      obtain ⟨digits, split, all, takes⟩ := ih complete
      refine ⟨char :: digits, by rw [List.cons_append, ← split], ?_, fun other stops => ?_⟩
      · simp only [Bool.and_eq_true] at taken
        exact List.forall_mem_cons.mpr ⟨taken.1, all⟩
      · simp only [List.cons_append, takeDigits, taken, if_true, takes other stops]
  | case3 value count char rest left =>
      refine ⟨[], rfl, nofun, fun other stops => ?_⟩
      cases other with
      | nil => rfl
      | cons char other =>
          simp only [startsWithDigit] at stops
          simp [takeDigits, stops]

theorem solid_of_isDigit {char : Char} (digit : isDigit char = true) :
    isJsonBlank char = false := by
  cases blank : isJsonBlank char with
  | false => rfl
  | true =>
      simp only [isJsonBlank, Bool.or_eq_true, beq_iff_eq] at blank
      rcases blank with ((rfl | rfl) | rfl) | rfl <;> cases digit

def IsNumeral (text : List Char) : Prop :=
  text ≠ [] ∧ (∀ char ∈ text, isDigit char = true) ∧ (text.head? = some '0' → text = ['0'])

theorem IsNumeral.tight {text : List Char} (numeral : IsNumeral text) : Tight text :=
  fun last member => solid_of_isDigit (numeral.2.1 last (List.mem_of_getLast? member))

theorem exists_integer {negative : Bool} {number : Number} {text rest : List Char}
    (succeeded : readNumber negative text = .ok (number, rest)) (integer : number.integer? ≠ none) :
    ∃ used, text = used ++ rest ∧ IsNumeral used ∧
      ∀ other, Stands other → readNumber negative (used ++ other) = .ok (number, other) := by
  unfold readNumber at succeeded
  split at succeeded
  · cases succeeded
  · split at succeeded
    · cases succeeded
    · obtain ⟨_, rfl, takes⟩ := readTail_integer succeeded integer
      refine ⟨['0'], rfl, by simp [IsNumeral, isDigit], fun other stands => ?_⟩
      simp only [List.singleton_append, readNumber, startsWithDigit_of_stands stands,
        Bool.false_eq_true, if_false, takes other stands]
  · rename_i first text notZero
    split at succeeded
    · rename_i digit
      obtain ⟨none_left, gone, takes⟩ := readTail_integer succeeded integer
      obtain ⟨same, complete⟩ := dropDigits_eq_zero (Prod.ext none_left gone.symm :
        dropDigits 0 (takeDigits UInt64.size (digitValue first) 1 text).rest = (0, rest))
      obtain ⟨digits, split, all, taken⟩ := exists_takeDigits complete
      rw [← same] at split
      have numeral : IsNumeral (first :: digits) :=
        ⟨by simp, List.forall_mem_cons.mpr ⟨digit, all⟩, fun zero =>
          absurd (Option.some.inj zero) notZero⟩
      refine ⟨first :: digits, by rw [split, List.cons_append], numeral, fun other stands => ?_⟩
      have stops := startsWithDigit_of_stands stands
      rw [List.cons_append, readNumber.eq_def]
      split
      · rename_i empty
        cases empty
      · rename_i zero
        exact absurd (List.cons.inj zero).1 notZero
      · rename_i again later _ same_text
        obtain ⟨rfl, rfl⟩ := List.cons.inj same_text
        simp only [digit, if_true, taken other stops, dropDigits_of_not_digit stops]
        exact takes other stands
    · cases succeeded

theorem judge_eq_ok {expected : String} {convert : Int → Option α} {number : Number}
    {rest later : List Char} {value : α} :
    (have accept := fun (integer : Int) =>
        match convert integer with
        | some value => Except.ok (value, rest)
        | none => Except.error (Fault.before (.wrongValue number.found expected) rest);
      match number with
      | .natural natural => accept natural
      | .negative natural => accept (-natural)
      | .float _ => Except.error (Fault.before (.wrongType number.found expected) rest)) =
        .ok (value, later) ↔ number.integer?.bind convert = some value ∧ rest = later := by
  cases number <;> simp only [Number.integer?, Option.bind_some, Option.bind_none]
  · split <;> simp_all
  · split <;> simp_all
  · simp

theorem leaves_readInteger (expected : String) (convert : Int → Option α) :
    Leaves Stands (readInteger expected convert) := by
  refine leaves_atValue fun char text value rest _ succeeded => ?_
  split at succeeded
  · rename_i minus
    obtain ⟨⟨number, later⟩, found, judged⟩ := bind_eq_ok.mp succeeded
    obtain ⟨converted, rfl⟩ := judge_eq_ok.mp judged
    obtain ⟨used, split, numeral, takes⟩ := exists_integer found fun float => by
      simp [float] at converted
    refine ⟨used, split, numeral.tight, fun other stands => ?_⟩
    rw [if_pos minus]
    exact bind_eq_ok.mpr ⟨(number, other), takes other stands, judge_eq_ok.mpr ⟨converted, rfl⟩⟩
  · rename_i plus
    split at succeeded
    · rename_i digit
      obtain ⟨⟨number, later⟩, found, judged⟩ := bind_eq_ok.mp succeeded
      obtain ⟨converted, rfl⟩ := judge_eq_ok.mp judged
      obtain ⟨used, split, numeral, takes⟩ := exists_integer found fun float => by
        simp [float] at converted
      cases used with
      | nil => exact absurd rfl numeral.1
      | cons first used =>
          obtain ⟨rfl, rfl⟩ := List.cons.inj split
          refine ⟨used, rfl, numeral.tight.of_cons, fun other stands => ?_⟩
          rw [if_neg plus, if_pos digit]
          exact bind_eq_ok.mpr ⟨(number, other), takes other stands, judge_eq_ok.mpr ⟨converted, rfl⟩⟩
    · cases succeeded

theorem leaves_readOptional {fits : List Char → Prop} {read : Reader α} (leaves : Leaves fits read) :
    Leaves fits (readOptional read) := by
  intro text value rest succeeded
  unfold readOptional at succeeded
  split at succeeded
  · rename_i later found
    obtain ⟨blanks, rfl, solid, skips⟩ := exists_solid found
    obtain ⟨behind, word, done⟩ := bind_eq_ok.mp succeeded
    obtain ⟨rfl, rfl⟩ := Prod.mk.inj (Except.ok.inj done)
    rw [readWord_eq_ok.mp word]
    refine ⟨blanks ++ ['n', 'u', 'l', 'l'], by simp, by simp, ?_, fun other _ => ?_⟩
    · exact tight_append_cons (by decide) fun last member => by cases member; rfl
    · have front : skipBlanks (blanks ++ ['n', 'u', 'l', 'l'] ++ other) =
          'n' :: (['u', 'l', 'l'] ++ other) := by
        rw [List.append_assoc, skips]
        exact skipBlanks_cons (by decide) _
      simp only [readOptional, front]
      exact bind_eq_ok.mpr ⟨other, readWord_eq_ok.mpr rfl, rfl⟩
  · rename_i notNull
    obtain ⟨⟨inner, later⟩, found, done⟩ := bind_eq_ok.mp succeeded
    obtain ⟨rfl, rfl⟩ := Prod.mk.inj (Except.ok.inj done)
    obtain ⟨used, split, some_used, tight, takes⟩ := leaves _ inner later found
    obtain ⟨first, used, rfl⟩ := List.exists_cons_of_ne_nil some_used
    obtain ⟨blanks, rfl, solid, skips⟩ := exists_solid split
    refine ⟨blanks ++ first :: used, by simp, by simp, tight_append_cons solid tight.of_cons,
      fun other given => ?_⟩
    have front : skipBlanks (blanks ++ first :: used ++ other) = first :: used ++ other := by
      rw [List.append_assoc, skips]
      exact skipBlanks_cons solid _
    rw [readOptional.eq_def, front]
    split
    · rename_i null
      exact (notNull _ (split.trans (congrArg (· :: _) (List.cons.inj null).1))).elim
    · exact bind_eq_ok.mpr ⟨(inner, other), takes other given, rfl⟩

end OrderDesk.Json
