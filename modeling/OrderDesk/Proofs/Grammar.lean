import OrderDesk.Proofs.TextPrefixes

/-! The grammar of JSON, apart from any reader: which texts spell a value, and which one. Spaces,
tabs and line ends may stand around every token. A literal stands for a text only if its numeric
escapes of surrogates come in pairs. -/

namespace OrderDesk.Json

/-- A value as the grammar has it. A number without a fraction and an exponent is an integer, whose
sign is kept apart, so that minus zero is not zero. -/
inductive Value where
  | null
  | boolean (value : Bool)
  | integer (negative : Bool) (magnitude : Nat)
  | decimal (literal : List Char)
  | text (value : String)
  | list (elements : List Value)
  | object (members : List (String × Value))

def IsBlank (text : List Char) : Prop :=
  ∀ char ∈ text, char ∈ [' ', '\t', '\n', '\r']

def smallHexDigits : List Char :=
  ['0', '1', '2', '3', '4', '5', '6', '7', '8', '9', 'a', 'b', 'c', 'd', 'e', 'f']

def capitalHexDigits : List Char :=
  ['0', '1', '2', '3', '4', '5', '6', '7', '8', '9', 'A', 'B', 'C', 'D', 'E', 'F']

def IsHexDigit (char : Char) (value : Nat) : Prop :=
  smallHexDigits[value]? = some char ∨ capitalHexDigits[value]? = some char

inductive IsEscape : List Char → Nat → Prop
  | mk {first second third fourth : Char} {a b c d : Nat} (isFirst : IsHexDigit first a)
      (isSecond : IsHexDigit second b) (isThird : IsHexDigit third c)
      (isFourth : IsHexDigit fourth d) :
      IsEscape ['\\', 'u', first, second, third, fourth] (a * 4096 + b * 256 + c * 16 + d)

def shortEscapes : List (Char × Char) :=
  [('"', '"'), ('\\', '\\'), ('/', '/'), ('b', '\x08'), ('f', '\x0c'), ('n', '\n'), ('r', '\r'),
    ('t', '\t')]

/-- What stands between the quotes of a literal, and what it means. -/
inductive SpellsText : List Char → List Char → Prop
  | nil : SpellsText [] []
  | plain {char : Char} {written meant : List Char} (notQuote : char ≠ '"')
      (notBackslash : char ≠ '\\') (notControl : 0x20 ≤ char.toNat)
      (others : SpellsText written meant) : SpellsText (char :: written) (char :: meant)
  | short {letter char : Char} {written meant : List Char} (listed : (letter, char) ∈ shortEscapes)
      (others : SpellsText written meant) :
      SpellsText ('\\' :: letter :: written) (char :: meant)
  | numeric {escape written meant : List Char} {unit : Nat} (isEscape : IsEscape escape unit)
      (whole : unit < 0xd800 ∨ 0xdfff < unit) (others : SpellsText written meant) :
      SpellsText (escape ++ written) (Char.ofNat unit :: meant)
  | pair {first second written meant : List Char} {high low : Nat} (isFirst : IsEscape first high)
      (isHigh : 0xd800 ≤ high ∧ high ≤ 0xdbff) (isSecond : IsEscape second low)
      (isLow : 0xdc00 ≤ low ∧ low ≤ 0xdfff) (others : SpellsText written meant) :
      SpellsText (first ++ second ++ written)
        (Char.ofNat (0x10000 + (high - 0xd800) * 0x400 + (low - 0xdc00)) :: meant)

/-- The digits of a natural number. Only zero begins with a zero. -/
inductive SpellsNatural : List Char → Nat → Prop
  | zero : SpellsNatural ['0'] 0
  | positive {first : Char} {rest : List Char} (isDigit : first.isDigit = true)
      (notZero : first ≠ '0') (all : ∀ char ∈ rest, char.isDigit = true) :
      SpellsNatural (first :: rest) (Nat.ofDigitChars 10 (first :: rest) 0)

inductive IsFraction : List Char → Prop
  | none : IsFraction []
  | some {digits : List Char} (nonempty : digits ≠ [])
      (all : ∀ char ∈ digits, char.isDigit = true) : IsFraction ('.' :: digits)

inductive IsExponent : List Char → Prop
  | none : IsExponent []
  | some {letter : Char} {sign digits : List Char} (isLetter : letter = 'e' ∨ letter = 'E')
      (isSign : sign = [] ∨ sign = ['+'] ∨ sign = ['-']) (nonempty : digits ≠ [])
      (all : ∀ char ∈ digits, char.isDigit = true) : IsExponent (letter :: sign ++ digits)

def minus (negative : Bool) : List Char :=
  if negative then ['-'] else []

/-! ## Values -/

/-- One or more items with commas in between. -/
inductive Separated {α : Type} (spells : List Char → α → Prop) : List Char → List α → Prop
  | last {before text after : List Char} {item : α} (blank : IsBlank before)
      (spelled : spells text item) (blank' : IsBlank after) :
      Separated spells (before ++ text ++ after) [item]
  | more {before text after rest : List Char} {item : α} {items : List α} (blank : IsBlank before)
      (spelled : spells text item) (blank' : IsBlank after) (others : Separated spells rest items) :
      Separated spells (before ++ text ++ after ++ ',' :: rest) (item :: items)

inductive SpellsMember (spells : List Char → Value → Prop) : List Char → String × Value → Prop
  | mk {key meant before after text : List Char} {value : Value} (isKey : SpellsText key meant)
      (blank : IsBlank before) (blank' : IsBlank after) (spelled : spells text value) :
      SpellsMember spells ('"' :: key ++ '"' :: before ++ ':' :: after ++ text)
        (String.ofList meant, value)

/-- The text spells the value, without blanks around it. -/
inductive Spells : List Char → Value → Prop
  | null : Spells ['n', 'u', 'l', 'l'] .null
  | true : Spells ['t', 'r', 'u', 'e'] (.boolean true)
  | false : Spells ['f', 'a', 'l', 's', 'e'] (.boolean false)
  | integer {digits : List Char} {magnitude : Nat} (negative : Bool)
      (natural : SpellsNatural digits magnitude) :
      Spells (minus negative ++ digits) (.integer negative magnitude)
  | decimal {digits fraction exponent : List Char} {magnitude : Nat} (negative : Bool)
      (natural : SpellsNatural digits magnitude) (isFraction : IsFraction fraction)
      (isExponent : IsExponent exponent) (more : fraction ++ exponent ≠ []) :
      Spells (minus negative ++ digits ++ (fraction ++ exponent))
        (.decimal (minus negative ++ digits ++ (fraction ++ exponent)))
  | text {written meant : List Char} (isText : SpellsText written meant) :
      Spells ('"' :: written ++ ['"']) (.text (String.ofList meant))
  | emptyList {blanks : List Char} (blank : IsBlank blanks) :
      Spells ('[' :: blanks ++ [']']) (.list [])
  | list {inner : List Char} {elements : List Value} (spelled : Separated Spells inner elements) :
      Spells ('[' :: inner ++ [']']) (.list elements)
  | emptyObject {blanks : List Char} (blank : IsBlank blanks) :
      Spells ('\x7b' :: blanks ++ ['\x7d']) (.object [])
  | object {inner : List Char} {members : List (String × Value)}
      (spelled : Separated (SpellsMember Spells) inner members) :
      Spells ('\x7b' :: inner ++ ['\x7d']) (.object members)

/-- The bytes are the UTF-8 form of a text that holds a value and blanks around it. -/
def IsDocument (bytes : List UInt8) (value : Value) : Prop :=
  ∃ before inner after, bytes = (before ++ inner ++ after).flatMap String.utf8EncodeChar ∧
    IsBlank before ∧ IsBlank after ∧ Spells inner value

end OrderDesk.Json
