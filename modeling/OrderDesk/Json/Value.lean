import OrderDesk.Json.Number

/-! Reading one value of a wanted type, and passing over a value that nobody wants. A reader that
meets a value of another type reads it first if it is a scalar, so that the complaint can show it
and points behind it; a list or an object is pointed at from the front. -/

namespace OrderDesk.Json

def readWord : List Char → List Char → Except Fault (List Char)
  | [], text => .ok text
  | _ :: _, [] => .error (.before .endInValue [])
  | wanted :: word, char :: rest =>
      if char = wanted then readWord word rest else .error (.atNext .expectedWord (char :: rest))

def mismatch (expected : String) (text : List Char) : Fault :=
  let complain (found : Found) (rest : List Char) : Fault := .before (.wrongType found expected) rest
  let word (word : List Char) (found : Found) (rest : List Char) : Fault :=
    match readWord word rest with
    | .ok rest => complain found rest
    | .error fault => fault
  let number (negative : Bool) (rest : List Char) : Fault :=
    match readNumber negative rest with
    | .ok (number, rest) => complain number.found rest
    | .error fault => fault
  match text with
  | [] => .before .expectedValue []
  | 'n' :: rest => word ['u', 'l', 'l'] .null rest
  | 't' :: rest => word ['r', 'u', 'e'] (.boolean true) rest
  | 'f' :: rest => word ['a', 'l', 's', 'e'] (.boolean false) rest
  | '-' :: rest => number true rest
  | '"' :: rest =>
      match scanText [] rest with
      | .ok (value, rest) => complain (.text value) rest
      | .error fault => fault
  | '[' :: _ => complain .sequence text
  | '\x7b' :: _ => complain .map text
  | char :: _ => if isDigit char then number false text else .atNext .expectedValue text

/-- Runs a reader on the first character of a value, which has to be there. -/
def atValue {α : Type} (read : Char → List Char → Except Fault (α × List Char)) : Reader α :=
  fun text =>
    match skipBlanks text with
    | [] => .error (.before .endInValue [])
    | char :: rest => read char rest

def readText : Reader String :=
  atValue fun char rest =>
    if char = '"' then scanText [] rest else .error (mismatch "a string" (char :: rest))

def readNothing : Reader Unit :=
  atValue fun char rest =>
    if char = 'n' then do
      let rest ← readWord ['u', 'l', 'l'] rest
      return ((), rest)
    else .error (mismatch "unit" (char :: rest))

def readInteger {α : Type} (expected : String) (convert : Int → Option α) : Reader α :=
  let judge (number : Number) (rest : List Char) : Except Fault (α × List Char) :=
    let accept (value : Int) : Except Fault (α × List Char) :=
      match convert value with
      | some value => .ok (value, rest)
      | none => .error (.before (.wrongValue number.found expected) rest)
    match number with
    | .natural value => accept value
    | .negative value => accept (-value)
    | .float _ => .error (.before (.wrongType number.found expected) rest)
  atValue fun char rest =>
    if char = '-' then do
      let (number, rest) ← readNumber true rest
      judge number rest
    else if isDigit char then do
      let (number, rest) ← readNumber false (char :: rest)
      judge number rest
    else .error (mismatch expected (char :: rest))

def readUnsigned : Reader UInt64 :=
  readInteger "u64" fun value =>
    if 0 ≤ value && value < UInt64.size then some (UInt64.ofNat value.toNat) else none

def readSigned : Reader Int64 :=
  readInteger "i64" fun value =>
    if Int64.minValue.toInt ≤ value && value ≤ Int64.maxValue.toInt then
      some (Int64.ofInt value)
    else none

def readOptional {α : Type} (read : Reader α) : Reader (Option α) := fun text =>
  match skipBlanks text with
  | 'n' :: rest => do
      let rest ← readWord ['u', 'l', 'l'] rest
      return (none, rest)
  | text => do
      let (value, rest) ← read text
      return (some value, rest)

/-! ## Passing over a value -/

inductive Bracket where
  | list
  | object
  deriving DecidableEq, Repr

/-- Where a skipped text stands: before a value, before a member of the innermost bracket, or
behind a value or an opening bracket, where a comma counts only behind a value. -/
inductive SkipPhase where
  | value
  | member
  | after (comma : Bool)
  deriving DecidableEq, Repr

/-- Passes over a value, given the brackets that are open around it. Two rounds at most read the
same character, which bounds the rounds that are needed. -/
def skipFrom : Nat → SkipPhase → List Bracket → List Char → Except Fault (List Char)
  | 0, _, _, _ => .error (.before .endInValue [])
  | fuel + 1, .value, brackets, text =>
      let word (word rest : List Char) : Except Fault (List Char) := do
        skipFrom fuel (.after true) brackets (← readWord word rest)
      match skipBlanks text with
      | [] => .error (.before .endInValue [])
      | 'n' :: rest => word ['u', 'l', 'l'] rest
      | 't' :: rest => word ['r', 'u', 'e'] rest
      | 'f' :: rest => word ['a', 'l', 's', 'e'] rest
      | '"' :: rest => do skipFrom fuel (.after true) brackets (← skipText rest)
      | '-' :: rest => do skipFrom fuel (.after true) brackets (← skipNumber rest)
      | '[' :: rest => skipFrom fuel (.after false) (.list :: brackets) rest
      | '\x7b' :: rest => skipFrom fuel (.after false) (.object :: brackets) rest
      | char :: rest =>
          if isDigit char then do
            skipFrom fuel (.after true) brackets (← skipNumber (char :: rest))
          else .error (.atNext .expectedValue (char :: rest))
  | fuel + 1, .member, .object :: brackets, text =>
      match skipBlanks text with
      | [] => .error (.before .endInObject [])
      | '"' :: rest => do
          match skipBlanks (← skipText rest) with
          | [] => .error (.before .endInObject [])
          | ':' :: rest => skipFrom fuel .value (.object :: brackets) rest
          | rest => .error (.atNext .expectedColon rest)
      | rest => .error (.atNext .keyNotText rest)
  | fuel + 1, .member, brackets, text => skipFrom fuel .value brackets text
  | _ + 1, .after _, [], text => .ok text
  | fuel + 1, .after comma, bracket :: brackets, text =>
      match skipBlanks text, bracket with
      | [], .list => .error (.before .endInList [])
      | [], .object => .error (.before .endInObject [])
      | ']' :: rest, .list => skipFrom fuel (.after true) brackets rest
      | '\x7d' :: rest, .object => skipFrom fuel (.after true) brackets rest
      | char :: rest, _ =>
          if comma then
            if char = ',' then skipFrom fuel .member (bracket :: brackets) rest
            else
              match bracket with
              | .list => .error (.atNext .expectedCommaOrBracket (char :: rest))
              | .object => .error (.atNext .expectedCommaOrBrace (char :: rest))
          else skipFrom fuel .member (bracket :: brackets) (char :: rest)

def skipValue (text : List Char) : Except Fault (List Char) :=
  skipFrom (4 * text.length + 4) .value [] text

end OrderDesk.Json
