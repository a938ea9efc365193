import OrderDesk.Proofs.Enclosures
import OrderDesk.Proofs.Grammar

/-! Texts, integers and values that may be missing, as they are spelled and as they are read. A reader
makes the same of a value however it is spelled, and it accepts nothing but values of the grammar. -/

namespace OrderDesk.Json

open Text

variable {α β : Type}

theorem toOption_bind {ε : Type} (first : Except ε α) (next : α → Except ε β) :
    (first >>= next).toOption = first.toOption.bind fun value => (next value).toOption := by
  cases first <;> rfl

theorem isJsonBlank_iff {char : Char} :
    isJsonBlank char = true ↔ char ∈ [' ', '\t', '\n', '\r'] := by
  simp [isJsonBlank, or_assoc]

theorem IsBlank.skip {before : List Char} (blank : IsBlank before) (text : List Char) :
    skipBlanks (before ++ text) = skipBlanks text :=
  skipBlanks_append (fun char member => isJsonBlank_iff.mpr (blank char member)) text

theorem isBlank_nil : IsBlank [] := nofun

theorem IsBlank.append {before after : List Char} (blank : IsBlank before) (blank' : IsBlank after) :
    IsBlank (before ++ after) := fun char member =>
  (List.mem_append.mp member).elim (blank char) (blank' char)

theorem exists_isBlank (text : List Char) :
    ∃ before, IsBlank before ∧ text = before ++ skipBlanks text := by
  obtain ⟨before, blank, split⟩ := exists_blanks text
  exact ⟨before, fun char member => isJsonBlank_iff.mp (blank char member), split⟩

theorem hexValue?_eq_some {char : Char} {value : Nat} :
    hexValue? char = some value ↔ IsHexDigit char value := by
  constructor
  · intro found
    have same : Char.ofNat char.toNat = char := Char.ofNat_toNat char
    simp only [hexValue?, Bool.and_eq_true, decide_eq_true_eq] at found
    split at found
    · rename_i range
      have digits : ∀ n < 10, smallHexDigits[n]? = some (Char.ofNat (0x30 + n)) := by decide
      have found := Option.some.inj found
      refine .inl ?_
      rw [digits value (by omega), show 0x30 + value = char.toNat by omega, same]
    · split at found
      · rename_i range
        have digits : ∀ n < 6, smallHexDigits[n + 10]? = some (Char.ofNat (0x61 + n)) := by decide
        have found := Option.some.inj found
        refine .inl ?_
        rw [show value = (value - 10) + 10 by omega, digits (value - 10) (by omega),
          show 0x61 + (value - 10) = char.toNat by omega, same]
      · split at found
        · rename_i range
          have digits : ∀ n < 6, capitalHexDigits[n + 10]? = some (Char.ofNat (0x41 + n)) := by decide
          have found := Option.some.inj found
          refine .inr ?_
          rw [show value = (value - 10) + 10 by omega, digits (value - 10) (by omega),
            show 0x41 + (value - 10) = char.toNat by omega, same]
        · cases found
  · have small : ∀ entry ∈ smallHexDigits.zipIdx, hexValue? entry.1 = some entry.2 := by decide
    have capital : ∀ entry ∈ capitalHexDigits.zipIdx, hexValue? entry.1 = some entry.2 := by decide
    rintro (listed | listed)
    · exact small (char, value) (List.mem_zipIdx_iff_getElem?.mpr listed)
    · exact capital (char, value) (List.mem_zipIdx_iff_getElem?.mpr listed)

theorem isEscape_iff {escape : List Char} {unit : Nat} :
    IsEscape escape unit ↔
      ∃ a b c d, escape = ['\\', 'u', a, b, c, d] ∧ hexUnit? a b c d = some unit := by
  simp only [hexUnit?, Option.bind_eq_bind, Option.bind_eq_some_iff, Option.pure_def,
    Option.some.injEq, hexValue?_eq_some]
  constructor
  · rintro ⟨first, second, third, fourth⟩
    exact ⟨_, _, _, _, rfl, _, first, _, second, _, third, _, fourth, by omega⟩
  · rintro ⟨a, b, c, d, rfl, i, first, j, second, k, third, l, fourth, rfl⟩
    have sum : ((i * 16 + j) * 16 + k) * 16 + l = i * 4096 + j * 256 + k * 16 + l := by omega
    rw [sum]
    exact .mk first second third fourth

theorem shortEscape?_eq_some {letter char : Char} :
    shortEscape? letter = some char ↔ (letter, char) ∈ shortEscapes := by
  constructor
  · intro found
    unfold shortEscape? at found
    split at found <;> cases found <;> decide
  · have listed : ∀ entry ∈ shortEscapes, shortEscape? entry.1 = some entry.2 := by decide
    exact listed (letter, char)

theorem pairChar_eq (high low : Nat) :
    pairChar high low = Char.ofNat (0x10000 + (high - 0xd800) * 0x400 + (low - 0xdc00)) := by
  rw [pairChar, Nat.add_comm _ 0x10000, ← Nat.add_assoc]

theorem scanText_of_spells {written meant : List Char} (spelled : SpellsText written meant)
    (seen rest : List Char) :
    scanText seen (written ++ '"' :: rest) = .ok (String.ofList (seen.reverse ++ meant), rest) := by
  induction spelled generalizing seen with
  | nil => simp [scanText]
  | plain notQuote notBackslash notControl others ih =>
      rw [List.cons_append, scanText_plain notQuote notBackslash (Nat.not_lt.mpr notControl), ih]
      simp
  | @short letter char written meant listed others ih =>
      have notUnit : letter ≠ 'u' := by
        rintro rfl
        simp [shortEscapes] at listed
      rw [List.cons_append, List.cons_append,
        scanText_escape notUnit (shortEscape?_eq_some.mpr listed), ih]
      simp
  | @numeric escape written meant unit isEscape whole others ih =>
      obtain ⟨a, b, c, d, rfl, found⟩ := isEscape_iff.mp isEscape
      have notLow : isLowSurrogate unit = false := by
        simp only [isLowSurrogate, Bool.and_eq_false_iff, decide_eq_false_iff_not]
        omega
      have notHigh : isHighSurrogate unit = false := by
        simp only [isHighSurrogate, Bool.and_eq_false_iff, decide_eq_false_iff_not]
        omega
      simp only [List.cons_append, List.nil_append, scanText, found, notLow, notHigh,
        Bool.false_eq_true, if_false, ih]
      simp
  | @pair first second written meant high low isFirst isHigh isSecond isLow others ih =>
      obtain ⟨a, b, c, d, rfl, found⟩ := isEscape_iff.mp isFirst
      obtain ⟨e, f, g, h, rfl, found'⟩ := isEscape_iff.mp isSecond
      have notLow : isLowSurrogate high = false := by
        simp only [isLowSurrogate, Bool.and_eq_false_iff, decide_eq_false_iff_not]
        omega
      have high' : isHighSurrogate high = true := by
        simp only [isHighSurrogate, Bool.and_eq_true, decide_eq_true_eq]
        omega
      have low' : isLowSurrogate low = true := by
        simp only [isLowSurrogate, Bool.and_eq_true, decide_eq_true_eq]
        omega
      simp only [List.cons_append, List.nil_append, scanText, found, found', notLow, high', low',
        Bool.false_eq_true, if_false, if_true, ih, pairChar_eq]
      simp

theorem exists_spellsText {seen text rest : List Char} {value : String}
    (succeeded : scanText seen text = .ok (value, rest)) :
    ∃ written meant, SpellsText written meant ∧ text = written ++ '"' :: rest ∧
      value = String.ofList (seen.reverse ++ meant) := by
  -- Every kind of character that is read extends the spelling at its front.
  have step {seen tail : List Char} {char : Char} (front : List Char)
      (spells : ∀ written meant, SpellsText written meant →
        SpellsText (front ++ written) (char :: meant))
      (found : ∃ written meant, SpellsText written meant ∧ tail = written ++ '"' :: rest ∧
        value = String.ofList ((char :: seen).reverse ++ meant)) :
      ∃ written meant, SpellsText written meant ∧ front ++ tail = written ++ '"' :: rest ∧
        value = String.ofList (seen.reverse ++ meant) := by
    obtain ⟨written, meant, others, rfl, rfl⟩ := found
    exact ⟨front ++ written, char :: meant, spells written meant others, by simp, by simp⟩
  fun_induction scanText seen text <;> try cases succeeded
  case case2 seen =>
    exact ⟨[], [], .nil, rfl, by simp⟩
  case case6 seen a b c d unit found notLow high e f g h tail low found' isLow ih =>
    refine step ['\\', 'u', a, b, c, d, '\\', 'u', e, f, g, h] (fun written meant others => ?_)
      (ih succeeded)
    simp only [isHighSurrogate, isLowSurrogate, Bool.and_eq_true, decide_eq_true_eq] at high isLow
    have pair := SpellsText.pair (isEscape_iff.mpr ⟨a, b, c, d, rfl, found⟩) high
      (isEscape_iff.mpr ⟨e, f, g, h, rfl, found'⟩) isLow others
    rw [pairChar_eq]
    exact pair
  case case9 seen a b c d tail unit found notLow notHigh ih =>
    refine step ['\\', 'u', a, b, c, d] (fun written meant others => ?_) (ih succeeded)
    simp only [isHighSurrogate, isLowSurrogate, Bool.and_eq_true, decide_eq_true_eq]
      at notHigh notLow
    exact .numeric (isEscape_iff.mpr ⟨a, b, c, d, rfl, found⟩) (by omega) others
  case case11 seen char tail _ notUnit escaped found ih =>
    exact step ['\\', char] (fun _ _ others => .short (shortEscape?_eq_some.mp found) others)
      (ih succeeded)
  case case15 seen char tail notQuote _ _ before alone notControl ih =>
    have notBackslash : char ≠ '\\' := fun same => by
      cases tail with
      | nil => exact alone same rfl
      | cons next tail => exact before next tail same rfl
    exact step [char] (fun _ _ others =>
      .plain notQuote notBackslash (Nat.not_lt.mp notControl) others) (ih succeeded)

def Value.Begins : Value → Char → Prop
  | .null, char => char = 'n'
  | .boolean true, char => char = 't'
  | .boolean false, char => char = 'f'
  | .integer .., char => char = '-' ∨ isDigit char = true
  | .decimal .., char => char = '-' ∨ isDigit char = true
  | .text .., char => char = '"'
  | .list .., char => char = '['
  | .object .., char => char = '\x7b'

theorem IsNumeral.exists_natural {digits : List Char} (numeral : IsNumeral digits) :
    ∃ magnitude, SpellsNatural digits magnitude := by
  obtain ⟨nonempty, all, zero⟩ := numeral
  cases digits with
  | nil => exact absurd rfl nonempty
  | cons first rest =>
      obtain ⟨digit, others⟩ := List.forall_mem_cons.mp all
      by_cases isZero : first = '0'
      · exact ⟨0, zero (congrArg some isZero) ▸ .zero⟩
      · exact ⟨_, .positive digit isZero others⟩

theorem SpellsNatural.exists_digit {digits : List Char} {magnitude : Nat}
    (natural : SpellsNatural digits magnitude) :
    ∃ char rest, digits = char :: rest ∧ isDigit char = true := by
  cases natural with
  | zero => exact ⟨'0', [], rfl, rfl⟩
  | positive digit notZero all => exact ⟨_, _, rfl, digit⟩

theorem exists_number {digits : List Char} {magnitude : Nat} (negative : Bool)
    (natural : SpellsNatural digits magnitude) (tail : List Char) :
    ∃ char rest, minus negative ++ digits ++ tail = char :: rest ∧
      (char = '-' ∨ isDigit char = true) := by
  obtain ⟨char, rest, rfl, digit⟩ := natural.exists_digit
  cases negative with
  | true => exact ⟨'-', _, rfl, .inl rfl⟩
  | false => exact ⟨char, _, rfl, .inr digit⟩

theorem Spells.exists_first {text : List Char} {value : Value} (spelled : Spells text value) :
    ∃ char rest, text = char :: rest ∧ value.Begins char := by
  cases spelled with
  | integer negative natural =>
      obtain ⟨char, rest, split, first⟩ := exists_number negative natural []
      exact ⟨char, rest, by simpa using split, first⟩
  | decimal negative natural isFraction isExponent more => exact exists_number negative natural _
  | _ => exact ⟨_, _, rfl, rfl⟩

theorem Value.Begins.solid {value : Value} {char : Char} (begins : value.Begins char) :
    isJsonBlank char = false := by
  have number (first : char = '-' ∨ isDigit char = true) : isJsonBlank char = false := by
    rcases first with rfl | digit
    · rfl
    · exact solid_of_isDigit digit
  cases value with
  | integer => exact number begins
  | decimal => exact number begins
  | boolean value => cases value <;> exact begins ▸ rfl
  | _ => exact begins ▸ rfl

/-- What a reader makes of a value, however the value is spelled and whatever comes behind it. Without
a result, the reader refuses the value. -/
def Makes (read : Reader α) (value : Value) (result : Option α) : Prop :=
  ∀ ⦃before text rest : List Char⦄, IsBlank before → Spells text value → Stands rest →
    (read (before ++ (text ++ rest))).toOption = result.map fun made => (made, rest)

/-- Whatever the reader accepts is a value of the grammar. -/
def Grounded (read : Reader α) : Prop :=
  ∀ ⦃text rest : List Char⦄ ⦃made : α⦄, read text = .ok (made, rest) →
    ∃ before inner value, text = before ++ (inner ++ rest) ∧ IsBlank before ∧ Spells inner value

theorem atValue_blank {read : Char → List Char → Except Fault (α × List Char)} {before : List Char}
    (blank : IsBlank before) {char : Char} (solid : isJsonBlank char = false) (rest : List Char) :
    atValue read (before ++ char :: rest) = read char rest := by
  have front : skipBlanks (before ++ char :: rest) = char :: rest := by
    rw [blank.skip, skipBlanks_cons solid]
  simp only [atValue, front]

theorem Makes.map {read : Reader α} {value : Value} {result : Option α}
    (makes : Makes read value result) (use : α → β) :
    Makes (fun text => do
      let (made, text) ← read text
      return (use made, text)) value (result.map use) := by
  intro before text rest blank spelled stands
  rw [toOption_bind, makes blank spelled stands]
  cases result <;> rfl

theorem Grounded.map {read : Reader α} (grounded : Grounded read) (use : α → β) :
    Grounded fun text => do
      let (made, text) ← read text
      return (use made, text) := by
  intro text rest made succeeded
  obtain ⟨⟨value, later⟩, found, done⟩ := bind_eq_ok.mp succeeded
  obtain ⟨_, rfl⟩ := Prod.mk.inj (Except.ok.inj done)
  exact grounded found

def Value.text? : Value → Option String
  | .text value => some value
  | _ => none

theorem Value.text?_eq_some {value : Value} {text : String} :
    value.text? = some text ↔ value = .text text := by
  cases value <;> simp [Value.text?]

theorem Spells.exists_text {text : List Char} {value : String} (spelled : Spells text (.text value)) :
    ∃ written meant, text = '"' :: (written ++ ['"']) ∧ SpellsText written meant ∧
      value = String.ofList meant := by
  cases spelled with
  | text isText => exact ⟨_, _, rfl, isText, rfl⟩

theorem Value.Begins.text?_eq_none {value : Value} {char : Char} (begins : value.Begins char)
    (other : char ≠ '"') : value.text? = none := by
  cases value with
  | text => exact absurd begins other
  | _ => rfl

theorem Value.Begins.exists_text {value : Value} (begins : value.Begins '"') :
    ∃ text, value = .text text := by
  rcases value with _ | _ | _ | _ | text | _ | _
  case text => exact ⟨text, rfl⟩
  case boolean value => cases value <;> cases begins
  all_goals simp [Value.Begins, isDigit] at begins

theorem makes_readText (value : Value) : Makes readText value value.text? := by
  intro before text rest blank spelled _
  obtain ⟨char, tail, rfl, begins⟩ := spelled.exists_first
  rw [List.cons_append, readText, atValue_blank blank begins.solid]
  split
  · rename_i quote
    subst quote
    obtain ⟨meaning, rfl⟩ := begins.exists_text
    obtain ⟨written, meant, split, isText, rfl⟩ := spelled.exists_text
    obtain ⟨_, rfl⟩ := List.cons.inj split
    rw [List.append_assoc, List.singleton_append, scanText_of_spells isText]
    rfl
  · rename_i other
    rw [begins.text?_eq_none other]
    rfl

theorem grounded_atValue {read : Char → List Char → Except Fault (α × List Char)}
    (grounded : ∀ {char text rest made}, read char text = .ok (made, rest) →
      ∃ inner value, char :: text = inner ++ rest ∧ Spells inner value) :
    Grounded (atValue read) := by
  intro text rest made succeeded
  unfold atValue at succeeded
  split at succeeded
  · cases succeeded
  · rename_i char later found
    obtain ⟨before, blank, split⟩ := exists_isBlank text
    obtain ⟨inner, value, inside, spelled⟩ := grounded succeeded
    exact ⟨before, inner, value, by rw [split, found, inside], blank, spelled⟩

theorem grounded_readText : Grounded readText := by
  refine grounded_atValue fun {char text rest made} succeeded => ?_
  split at succeeded
  · rename_i quote
    subst quote
    obtain ⟨written, meant, isText, rfl, _⟩ := exists_spellsText succeeded
    exact ⟨_, _, by simp, .text isText⟩
  · cases succeeded

/-! ## Integers -/

def Value.integer? : Value → Option Int
  | .integer false magnitude => if magnitude < UInt64.size then some magnitude else none
  | .integer true magnitude =>
      if magnitude = 0 ∨ 1 <<< 63 < magnitude then none else some (-magnitude)
  | _ => none

theorem Value.integer?_eq_some {value : Value} {integer : Int} :
    value.integer? = some integer ↔
      (∃ magnitude, value = .integer false magnitude ∧ magnitude < UInt64.size ∧ integer = magnitude) ∨
        ∃ magnitude, value = .integer true magnitude ∧ magnitude ≠ 0 ∧ magnitude ≤ 1 <<< 63 ∧
          integer = -magnitude := by
  rcases value with _ | _ | ⟨negative, magnitude⟩ | _ | _ | _ | _
  case integer =>
    cases negative with
    | false =>
        simp only [Value.integer?, Option.ite_none_right_eq_some, Option.some.injEq]
        grind
    | true =>
        simp only [Value.integer?, Option.ite_none_left_eq_some, Option.some.injEq, not_or, Nat.not_lt]
        grind
  all_goals simp [Value.integer?]

theorem dropDigits_append {digits tail : List Char} (all : ∀ char ∈ digits, isDigit char = true)
    (stops : startsWithDigit tail = false) (start : Nat) :
    dropDigits start (digits ++ tail) = (start + digits.length, tail) := by
  induction digits generalizing start with
  | nil => exact dropDigits_of_not_digit stops start
  | cons char digits ih =>
      obtain ⟨digit, others⟩ := List.forall_mem_cons.mp all
      rw [List.cons_append, dropDigits, digit, if_pos rfl, ih others]
      simp only [List.length_cons, Prod.mk.injEq, and_true]
      omega

theorem le_ofDigitChars (digits : List Char) (value : Nat) :
    value ≤ Nat.ofDigitChars 10 digits value := by
  rw [Nat.ofDigitChars_eq_ofDigitChars_zero]
  have positive : 1 ≤ 10 ^ digits.length := Nat.one_le_pow _ _ (by decide)
  exact Nat.le_trans (Nat.le_mul_of_pos_left value positive) (Nat.le_add_right _ _)

/-- Either all digits go into the significand, or some are left over. -/
theorem takeDigits_append {digits tail : List Char} (all : ∀ char ∈ digits, isDigit char = true)
    (stops : startsWithDigit tail = false) {bound value : Nat} (small : value < bound) (count : Nat) :
    let taken := takeDigits bound value count (digits ++ tail)
    let whole := Nat.ofDigitChars 10 digits value
    (whole < bound ∧ taken.value = whole ∧ taken.rest = tail) ∨
      (bound ≤ whole ∧ ∃ more, more ≠ [] ∧ (∀ char ∈ more, isDigit char = true) ∧
        taken.rest = more ++ tail) := by
  intro taken whole
  induction digits generalizing value count with
  | nil =>
      have none_taken : taken = ⟨value, count, tail⟩ := by
        cases tail with
        | nil => rfl
        | cons char tail =>
            simp only [startsWithDigit] at stops
            simp [taken, takeDigits, stops]
      exact .inl ⟨small, by rw [none_taken]; rfl, by rw [none_taken]⟩
  | cons char digits ih =>
      obtain ⟨digit, others⟩ := List.forall_mem_cons.mp all
      have goes : whole = Nat.ofDigitChars 10 digits (value * 10 + digitValue char) := by
        simp only [whole, Nat.ofDigitChars_cons, Nat.mul_comm 10 value]
        rfl
      by_cases fits : value * 10 + digitValue char < bound
      · have next : taken =
            takeDigits bound (value * 10 + digitValue char) (count + 1) (digits ++ tail) := by
          simp [taken, takeDigits, digit, fits]
        rw [next, goes]
        exact ih others fits (count + 1)
      · have stays : taken = ⟨value, count, char :: (digits ++ tail)⟩ := by
          simp [taken, takeDigits, fits]
        refine .inr ⟨?_, char :: digits, by simp, all, by rw [stays]; rfl⟩
        rw [goes]
        exact Nat.le_trans (Nat.not_lt.mp fits) (le_ofDigitChars digits _)

/-- A number is exact if its digits fit. -/
theorem exists_readTail {digits tail : List Char} {magnitude : Nat}
    (natural : SpellsNatural digits magnitude) (stops : startsWithDigit tail = false)
    (negative : Bool) : ∃ significand scale,
      readNumber negative (digits ++ tail) = readTail negative significand scale tail ∧
        ((magnitude < UInt64.size ∧ significand = magnitude ∧ scale = 0) ∨
          (UInt64.size ≤ magnitude ∧ scale ≠ 0)) := by
  cases natural with
  | zero =>
      refine ⟨0, 0, ?_, .inl ⟨by decide, rfl, rfl⟩⟩
      simp only [List.singleton_append, readNumber, stops, Bool.false_eq_true, if_false]
  | @positive first rest digit notZero all =>
      have small : digitValue first < UInt64.size :=
        Nat.lt_of_le_of_lt (Nat.sub_le _ _) (Nat.lt_trans first.val.toNat_lt (by decide))
      have whole : Nat.ofDigitChars 10 (first :: rest) 0 =
          Nat.ofDigitChars 10 rest (digitValue first) := by
        rw [Nat.ofDigitChars_cons, Nat.mul_zero, Nat.zero_add]
        rfl
      have reads : readNumber negative (first :: rest ++ tail) =
          let taken := takeDigits UInt64.size (digitValue first) 1 (rest ++ tail)
          readTail negative taken.value (dropDigits 0 taken.rest).1 (dropDigits 0 taken.rest).2 := by
        rw [List.cons_append, readNumber.eq_def]
        split
        · rename_i empty
          cases empty
        · rename_i zero
          exact absurd (List.cons.inj zero).1 notZero
        · rename_i same
          obtain ⟨rfl, rfl⟩ := List.cons.inj same
          rw [if_pos (show isDigit first = true from digit)]
      rw [whole, reads]
      rcases takeDigits_append all stops small 1 with
        ⟨fits, value, left⟩ | ⟨large, more, some_left, digits, left⟩
      · simp only [left, dropDigits_of_not_digit stops, value]
        exact ⟨_, _, rfl, .inl ⟨fits, rfl, rfl⟩⟩
      · simp only [left, dropDigits_append digits stops]
        refine ⟨_, _, rfl, .inr ⟨large, ?_⟩⟩
        simpa using some_left

theorem readTail_of_point {negative : Bool} {significand scale : Nat} {number : Number}
    {char : Char} {text rest : List Char} (part : char = '.' ∨ char = 'e' ∨ char = 'E')
    (succeeded : readTail negative significand scale (char :: text) = .ok (number, rest)) :
    number.integer? = none := by
  rcases part with rfl | rfl | rfl
  · exact integer?_readFraction succeeded
  · exact integer?_readExponent succeeded
  · exact integer?_readExponent succeeded

theorem exists_part {fraction exponent : List Char} (isFraction : IsFraction fraction)
    (isExponent : IsExponent exponent) (more : fraction ++ exponent ≠ []) :
    ∃ char rest, fraction ++ exponent = char :: rest ∧ (char = '.' ∨ char = 'e' ∨ char = 'E') := by
  cases isFraction with
  | some nonempty all => exact ⟨'.', _, rfl, .inl rfl⟩
  | none =>
      cases isExponent with
      | none => exact absurd rfl more
      | some isLetter isSign nonempty all => exact ⟨_, _, rfl, .inr isLetter⟩

theorem integer?_readNumber_of_part {digits : List Char} {magnitude : Nat} {negative : Bool}
    {number : Number} {char : Char} {text rest : List Char} (natural : SpellsNatural digits magnitude)
    (part : char = '.' ∨ char = 'e' ∨ char = 'E')
    (succeeded : readNumber negative (digits ++ char :: text) = .ok (number, rest)) :
    number.integer? = none := by
  have stops : startsWithDigit (char :: text) = false := by
    rcases part with rfl | rfl | rfl <;> rfl
  obtain ⟨significand, scale, reads, _⟩ := exists_readTail natural stops negative
  exact readTail_of_point part (reads ▸ succeeded)

theorem exists_integer_iff {digits : List Char} {magnitude : Nat}
    (natural : SpellsNatural digits magnitude) (negative : Bool) {rest : List Char}
    (stands : Stands rest) (result : Int) (left : List Char) :
    (∃ number, readNumber negative (digits ++ rest) = .ok (number, left) ∧
        number.integer? = some result) ↔
      (Value.integer negative magnitude).integer? = some result ∧ left = rest := by
  obtain ⟨significand, scale, reads, fits⟩ :=
    exists_readTail natural (startsWithDigit_of_stands stands) negative
  rw [reads, readTail_of_stands _ _ _ stands]
  have float {exponent : Int} {sign : Bool} : ¬ ∃ number,
      finishFloat sign significand exponent rest = .ok (number, left) ∧
        number.integer? = some result := by
    rintro ⟨number, finished, integer⟩
    rw [integer?_finishFloat finished] at integer
    cases integer
  have exactly (number : Number) :
      (∃ other, (.ok (number, rest) : Except Fault _) = .ok (other, left) ∧
        other.integer? = some result) ↔ number.integer? = some result ∧ left = rest := by
    constructor
    · rintro ⟨other, same, integer⟩
      obtain ⟨rfl, rfl⟩ := Prod.mk.inj (Except.ok.inj same)
      exact ⟨integer, rfl⟩
    · rintro ⟨integer, rfl⟩
      exact ⟨number, rfl, integer⟩
  rcases fits with ⟨small, rfl, rfl⟩ | ⟨large, some_left⟩
  · rw [if_neg (by simp)]
    cases negative with
    | false =>
        rw [if_pos (by rfl), exactly, Value.integer?, if_pos small]
        rfl
    | true =>
        rw [if_neg (by decide), Value.integer?]
        by_cases outside : significand = 0 ∨ 1 <<< 63 < significand
        · rw [if_pos (by simpa only [Bool.or_eq_true, decide_eq_true_eq] using outside),
            if_pos outside]
          exact iff_of_false float nofun
        · rw [if_neg (by simpa only [Bool.or_eq_true, decide_eq_true_eq] using outside),
            if_neg outside, exactly]
          rfl
  · have outside : 1 <<< 63 < magnitude := Nat.lt_of_lt_of_le (by decide) large
    rw [if_pos some_left]
    cases negative with
    | false =>
        rw [Value.integer?, if_neg (Nat.not_lt.mpr large)]
        exact iff_of_false float nofun
    | true =>
        rw [Value.integer?, if_pos (.inr outside)]
        exact iff_of_false float nofun

theorem readInteger_eq_ok {expected : String} {convert : Int → Option α} {before digits : List Char}
    {magnitude : Nat} (blank : IsBlank before) (natural : SpellsNatural digits magnitude)
    (negative : Bool) {tail left : List Char} {made : α} :
    readInteger expected convert (before ++ (minus negative ++ (digits ++ tail))) = .ok (made, left) ↔
      ∃ number, readNumber negative (digits ++ tail) = .ok (number, left) ∧
        number.integer?.bind convert = some made := by
  obtain ⟨char, rest, rfl, digit⟩ := natural.exists_digit
  have notMinus : char ≠ '-' := by
    rintro rfl
    cases digit
  cases negative
  case' true =>
    rw [minus, if_pos rfl, List.singleton_append, readInteger, atValue_blank blank (by decide),
      if_pos rfl, bind_eq_ok]
  case' false =>
    rw [minus, if_neg (by decide), List.nil_append, List.cons_append, readInteger,
      atValue_blank blank (solid_of_isDigit digit), if_neg notMinus, if_pos digit, bind_eq_ok]
  all_goals
    constructor
    · rintro ⟨⟨number, later⟩, found, judged⟩
      obtain ⟨converted, rfl⟩ := judge_eq_ok.mp judged
      exact ⟨number, found, converted⟩
    · rintro ⟨number, found, converted⟩
      exact ⟨(number, left), found, judge_eq_ok.mpr ⟨converted, rfl⟩⟩

theorem Spells.exists_digits {text : List Char} {negative : Bool} {magnitude : Nat}
    (spelled : Spells text (.integer negative magnitude)) :
    ∃ digits, SpellsNatural digits magnitude ∧ text = minus negative ++ digits := by
  cases spelled with
  | integer _ natural => exact ⟨_, natural, rfl⟩

theorem Spells.exists_parts {text literal : List Char} (spelled : Spells text (.decimal literal)) :
    ∃ negative digits magnitude char tail, SpellsNatural digits magnitude ∧
      (char = '.' ∨ char = 'e' ∨ char = 'E') ∧ text = minus negative ++ digits ++ char :: tail := by
  cases spelled with
  | decimal negative natural isFraction isExponent more =>
      obtain ⟨char, tail, split, part⟩ := exists_part isFraction isExponent more
      exact ⟨negative, _, _, char, tail, natural, part, by rw [split]⟩

theorem Value.Begins.of_number {value : Value} {char : Char} (begins : value.Begins char)
    (number : char = '-' ∨ isDigit char = true) :
    (∃ negative magnitude, value = .integer negative magnitude) ∨
      ∃ literal, value = .decimal literal := by
  rcases value with _ | value | ⟨negative, magnitude⟩ | literal | _ | _ | _
  case integer => exact .inl ⟨negative, magnitude, rfl⟩
  case decimal => exact .inr ⟨literal, rfl⟩
  case boolean => cases value <;> cases begins <;> simp [isDigit] at number
  all_goals cases begins; simp [isDigit] at number

theorem readInteger_refuses {expected : String} {convert : Int → Option α} {before : List Char}
    (blank : IsBlank before) {char : Char} (solid : isJsonBlank char = false)
    (other : ¬ (char = '-' ∨ isDigit char = true)) (rest : List Char) :
    (readInteger expected convert (before ++ char :: rest)).toOption = none := by
  obtain ⟨notMinus, notDigit⟩ := not_or.mp other
  rw [readInteger, atValue_blank blank solid, if_neg notMinus, if_neg notDigit]
  rfl

theorem makes_readInteger (expected : String) (convert : Int → Option α) (value : Value) :
    Makes (readInteger expected convert) value (value.integer?.bind convert) := by
  intro before text rest blank spelled stands
  refine Option.ext fun ⟨made, left⟩ => ?_
  have reads : ((value.integer?.bind convert).map fun made => (made, rest)) = some (made, left) ↔
      (∃ result, value.integer? = some result ∧ convert result = some made) ∧ left = rest := by
    rw [← Option.bind_eq_some_iff]
    cases value.integer?.bind convert <;> simp [eq_comm]
  rw [reads]
  obtain ⟨char, tail, split, begins⟩ := spelled.exists_first
  by_cases number : char = '-' ∨ isDigit char = true
  · rw [toOption_eq_some]
    rcases begins.of_number number with ⟨negative, magnitude, rfl⟩ | ⟨literal, rfl⟩
    · obtain ⟨digits, natural, rfl⟩ := spelled.exists_digits
      rw [List.append_assoc, readInteger_eq_ok blank natural]
      simp only [Option.bind_eq_some_iff]
      constructor
      · rintro ⟨number, found, result, integer, converted⟩
        obtain ⟨fits, rfl⟩ :=
          (exists_integer_iff natural negative stands result left).mp ⟨number, found, integer⟩
        exact ⟨⟨result, fits, converted⟩, rfl⟩
      · rintro ⟨⟨result, fits, converted⟩, rfl⟩
        obtain ⟨number, found, integer⟩ :=
          (exists_integer_iff natural negative stands result left).mpr ⟨fits, rfl⟩
        exact ⟨number, found, result, integer, converted⟩
    · obtain ⟨negative, digits, magnitude, char, tail, natural, part, rfl⟩ := spelled.exists_parts
      rw [List.append_assoc, List.append_assoc, readInteger_eq_ok blank natural]
      refine iff_of_false ?_ ?_
      · rintro ⟨number, found, converted⟩
        rw [integer?_readNumber_of_part natural part found] at converted
        cases converted
      · rintro ⟨⟨result, absurd, _⟩, _⟩
        cases absurd
  · have refused : value.integer? = none := by
      rcases value with _ | _ | _ | _ | _ | _ | _ <;> first | rfl | exact absurd begins number
    rw [split, List.cons_append, readInteger_refuses blank begins.solid number, refused]
    simp

theorem exists_spelled_integer {negative : Bool} {number : Number} {text rest : List Char}
    (succeeded : readNumber negative text = .ok (number, rest)) (integer : number.integer? ≠ none) :
    ∃ used value, text = used ++ rest ∧ Spells (minus negative ++ used) value := by
  obtain ⟨used, split, numeral, _⟩ := exists_integer succeeded integer
  obtain ⟨magnitude, natural⟩ := numeral.exists_natural
  exact ⟨used, _, split, .integer negative natural⟩

theorem grounded_readInteger (expected : String) (convert : Int → Option α) :
    Grounded (readInteger expected convert) := by
  refine grounded_atValue fun {char text rest made} succeeded => ?_
  split at succeeded
  · rename_i minus
    subst minus
    obtain ⟨⟨number, later⟩, found, judged⟩ := bind_eq_ok.mp succeeded
    obtain ⟨converted, rfl⟩ := judge_eq_ok.mp judged
    obtain ⟨used, value, rfl, spelled⟩ := exists_spelled_integer found fun float => by
      simp [float] at converted
    exact ⟨_, value, rfl, spelled⟩
  · split at succeeded
    · obtain ⟨⟨number, later⟩, found, judged⟩ := bind_eq_ok.mp succeeded
      obtain ⟨converted, rfl⟩ := judge_eq_ok.mp judged
      obtain ⟨used, value, split, spelled⟩ := exists_spelled_integer found fun float => by
        simp [float] at converted
      exact ⟨_, value, split, spelled⟩
    · cases succeeded

def Value.unsigned? (value : Value) : Option UInt64 :=
  value.integer?.bind fun integer =>
    if 0 ≤ integer && integer < UInt64.size then some (UInt64.ofNat integer.toNat) else none

def Value.signed? (value : Value) : Option Int64 :=
  value.integer?.bind fun integer =>
    if Int64.minValue.toInt ≤ integer && integer ≤ Int64.maxValue.toInt then
      some (Int64.ofInt integer)
    else none

theorem Value.unsigned?_eq_some {value : Value} {amount : UInt64} :
    value.unsigned? = some amount ↔ value = .integer false amount.toNat := by
  have bound : amount.toNat < UInt64.size := amount.toNat_lt
  simp only [Value.unsigned?, Option.bind_eq_some_iff, Value.integer?_eq_some,
    Option.ite_none_right_eq_some, Option.some.injEq, Bool.and_eq_true, decide_eq_true_eq]
  constructor
  · rintro ⟨integer, ⟨magnitude, rfl, small, rfl⟩ | ⟨magnitude, rfl, positive, small, rfl⟩,
      ⟨notNegative, fits⟩, rfl⟩
    · rw [Int.toNat_natCast, UInt64.toNat_ofNat', Nat.mod_eq_of_lt small]
    · omega
  · rintro rfl
    refine ⟨amount.toNat, .inl ⟨_, rfl, bound, rfl⟩, ⟨by omega, by exact_mod_cast bound⟩, ?_⟩
    rw [Int.toNat_natCast, UInt64.ofNat_toNat]

theorem Value.signed?_eq_some {value : Value} {latency : Int64} :
    value.signed? = some latency ↔
      (∃ magnitude, value = .integer false magnitude ∧ latency.toInt = magnitude) ∨
        ∃ magnitude, value = .integer true magnitude ∧ magnitude ≠ 0 ∧ latency.toInt = -magnitude := by
  have least := latency.minValue_le_toInt
  have max : Int64.maxValue.toInt = 2 ^ 63 - 1 := rfl
  have below := latency.toInt_lt
  have greatest : latency.toInt ≤ Int64.maxValue.toInt := by omega
  have size : (UInt64.size : Int) = 2 ^ 64 := rfl
  have half : (1 <<< 63 : Nat) = 2 ^ 63 := rfl
  have min : Int64.minValue.toInt = -2 ^ 63 := rfl
  simp only [Value.signed?, Option.bind_eq_some_iff, Value.integer?_eq_some,
    Option.ite_none_right_eq_some, Option.some.injEq, Bool.and_eq_true, decide_eq_true_eq]
  have exact {integer : Int} (low : Int64.minValue.toInt ≤ integer)
      (high : integer ≤ Int64.maxValue.toInt) : (Int64.ofInt integer).toInt = integer :=
    Int64.toInt_ofInt_of_le low (by omega)
  constructor
  · rintro ⟨integer, ⟨magnitude, rfl, small, rfl⟩ | ⟨magnitude, rfl, positive, small, rfl⟩,
      ⟨low, high⟩, rfl⟩
    · exact .inl ⟨magnitude, rfl, exact low high⟩
    · exact .inr ⟨magnitude, rfl, positive, exact low high⟩
  · rintro (⟨magnitude, rfl, same⟩ | ⟨magnitude, rfl, positive, same⟩)
    · exact ⟨latency.toInt, .inl ⟨magnitude, rfl, by omega, same⟩, ⟨least, greatest⟩,
        Int64.ofInt_toInt latency⟩
    · exact ⟨latency.toInt, .inr ⟨magnitude, rfl, positive, by omega, same⟩, ⟨least, greatest⟩,
        Int64.ofInt_toInt latency⟩
theorem makes_readUnsigned (value : Value) : Makes readUnsigned value value.unsigned? :=
  makes_readInteger _ _ value

theorem makes_readSigned (value : Value) : Makes readSigned value value.signed? :=
  makes_readInteger _ _ value

def Value.optional? (value : Value) (result : Option α) : Option (Option α) :=
  match value with
  | .null => some none
  | _ => result.map some

theorem Value.Begins.eq_null {value : Value} (begins : value.Begins 'n') : value = .null := by
  rcases value with _ | value | _ | _ | _ | _ | _
  case null => rfl
  case boolean => cases value <;> cases begins
  all_goals simp [Value.Begins, isDigit] at begins

theorem makes_readOptional {read : Reader α} {value : Value} {result : Option α}
    (makes : Makes read value result) : Makes (readOptional read) value (value.optional? result) := by
  intro before text rest blank spelled stands
  obtain ⟨char, tail, split, begins⟩ := spelled.exists_first
  have front : skipBlanks (before ++ (text ++ rest)) = char :: (tail ++ rest) := by
    rw [blank.skip, split]
    exact skipBlanks_cons begins.solid _
  rw [readOptional.eq_def, front]
  by_cases null : char = 'n'
  · subst null
    obtain rfl := begins.eq_null
    have word : readWord ['u', 'l', 'l'] (tail ++ rest) = .ok rest := by
      cases spelled
      obtain ⟨_, rfl⟩ := List.cons.inj split
      exact readWord_eq_ok.mpr rfl
    simp only [word]
    rfl
  · have other : value.optional? result = result.map some := by
      rcases value with _ | _ | _ | _ | _ | _ | _
      case null => exact absurd begins null
      all_goals rfl
    have alone := makes isBlank_nil spelled stands
    rw [List.nil_append, split, List.cons_append] at alone
    split
    · rename_i same
      exact absurd (List.cons.inj same).1 null
    · rw [toOption_bind, alone, other]
      cases result <;> rfl

theorem grounded_readOptional {read : Reader α} (grounded : Grounded read) :
    Grounded (readOptional read) := by
  intro text rest made succeeded
  obtain ⟨before, blank, whole⟩ := exists_isBlank text
  unfold readOptional at succeeded
  split at succeeded
  · rename_i later found
    obtain ⟨behind, word, done⟩ := bind_eq_ok.mp succeeded
    obtain ⟨_, rfl⟩ := Prod.mk.inj (Except.ok.inj done)
    refine ⟨before, ['n', 'u', 'l', 'l'], .null, ?_, blank, .null⟩
    rw [whole, found, readWord_eq_ok.mp word]
    rfl
  · obtain ⟨⟨value, later⟩, read, done⟩ := bind_eq_ok.mp succeeded
    obtain ⟨_, rfl⟩ := Prod.mk.inj (Except.ok.inj done)
    obtain ⟨more, inner, value, split, blank', spelled⟩ := grounded read
    refine ⟨before ++ more, inner, value, ?_, blank.append blank', spelled⟩
    rw [whole, split, List.append_assoc]

theorem IsBlank.stands_alone {blanks : List Char} (blank : IsBlank blanks) : Stands blanks := by
  cases blanks with
  | nil => trivial
  | cons char rest =>
      have listed := blank char List.mem_cons_self
      simp only [List.mem_cons, List.not_mem_nil, or_false] at listed
      rcases listed with rfl | rfl | rfl | rfl <;> exact ⟨rfl, by decide, by decide, by decide⟩

/-- A text that holds a value comes to what is made of the value. -/
theorem toOption_readAll {read : Reader α} {value : Value} {result : Option α}
    (makes : Makes read value result) {before inner after : List Char} (blank : IsBlank before)
    (spelled : Spells inner value) (blank' : IsBlank after) :
    (readAll read (before ++ inner ++ after)).toOption = result := by
  have made := makes blank spelled blank'.stands_alone
  rw [← List.append_assoc] at made
  refine Option.ext fun found => ?_
  rw [toOption_eq_some, readAll_eq_ok]
  constructor
  · rintro ⟨rest, succeeded, _⟩
    rw [toOption_eq_some.mpr succeeded] at made
    obtain ⟨result, rfl, same⟩ := Option.map_eq_some_iff.mp made.symm
    rw [(Prod.mk.inj same).1]
  · rintro rfl
    refine ⟨after, toOption_eq_some.mp made, skipBlanks_eq_nil.mpr fun char member => ?_⟩
    exact isJsonBlank_iff.mpr (blank' char member)

end OrderDesk.Json
