import OrderDesk.Json.Value

/-! Lists, objects and records. A record is a set of named fields, written as an object with
members in any order or as a list of its fields in their own order. A complaint about a record
as a whole points behind its closing bracket. -/

namespace OrderDesk.Json

def nextElement (first : Bool) (text : List Char) : Except Fault (Option (List Char)) :=
  match skipBlanks text with
  | [] => .error (.before .endInList [])
  | ']' :: _ => .ok none
  | ',' :: rest =>
      if first then .ok (some (',' :: rest))
      else
        match skipBlanks rest with
        | [] => .error (.before .endInValue [])
        | ']' :: rest => .error (.atNext .trailingComma (']' :: rest))
        | rest => .ok (some rest)
  | rest => if first then .ok (some rest) else .error (.atNext .expectedCommaOrBracket rest)

def closeList (text : List Char) : Except Fault (List Char) :=
  match skipBlanks text with
  | [] => .error (.before .endInList [])
  | ']' :: rest => .ok rest
  | ',' :: rest =>
      match skipBlanks rest with
      | ']' :: rest => .error (.atNext .trailingComma (']' :: rest))
      | rest => .error (.atNext .trailingText rest)
  | rest => .error (.atNext .trailingText rest)

def readElements {α : Type} (read : Reader α) : Nat → Bool → Reader (List α)
  | 0, _, _ => .error (.before .endInList [])
  | fuel + 1, first, text => do
      match ← nextElement first text with
      | none => return ([], text)
      | some text =>
          let (value, text) ← read text
          let (values, text) ← readElements read fuel false text
          return (value :: values, text)

def readList {α : Type} (read : Reader α) : Reader (List α) :=
  atValue fun char rest =>
    if char = '[' then do
      let (values, rest) ← readElements read (rest.length + 1) true rest
      return (values, ← closeList rest)
    else .error (mismatch "a sequence" (char :: rest))

def nextKey (first : Bool) (text : List Char) : Except Fault (Option (String × List Char)) :=
  match skipBlanks text with
  | [] => .error (.before .endInObject [])
  | '\x7d' :: _ => .ok none
  | ',' :: rest =>
      if first then .error (.atNext .keyNotText (',' :: rest))
      else
        match skipBlanks rest with
        | [] => .error (.before .endInValue [])
        | '"' :: rest => do return some (← scanText [] rest)
        | '\x7d' :: rest => .error (.atNext .trailingComma ('\x7d' :: rest))
        | rest => .error (.atNext .keyNotText rest)
  | '"' :: rest =>
      if first then do return some (← scanText [] rest)
      else .error (.atNext .expectedCommaOrBrace ('"' :: rest))
  | rest =>
      if first then .error (.atNext .keyNotText rest)
      else .error (.atNext .expectedCommaOrBrace rest)

def closeObject (text : List Char) : Except Fault (List Char) :=
  match skipBlanks text with
  | [] => .error (.before .endInObject [])
  | '\x7d' :: rest => .ok rest
  | ',' :: rest => .error (.atNext .trailingComma (',' :: rest))
  | rest => .error (.atNext .trailingText rest)

def readColon (text : List Char) : Except Fault (List Char) :=
  match skipBlanks text with
  | [] => .error (.before .endInObject [])
  | ':' :: rest => .ok rest
  | rest => .error (.atNext .expectedColon rest)

/-- A fault of the whole object, found where `text` begins: it lies behind the blanks there, and
behind the closing brace if that comes next. -/
def objectFault (issue : Issue) (text : List Char) : Fault :=
  match skipBlanks text with
  | '\x7d' :: rest => .before issue rest
  | rest => .before issue rest

def listFault (issue : Issue) (text : List Char) : Fault :=
  match skipBlanks text with
  | ']' :: rest => .before issue rest
  | rest => .before issue rest

/-- The members of an object after its opening brace. `member` is given the key and the text
behind it, and updates what has been gathered so far. There are no more members than
characters. -/
def readMembers {σ : Type} (member : String → σ → Reader σ) : Nat → Bool → σ → Reader σ
  | 0, _, _, _ => .error (.before .endInObject [])
  | fuel + 1, first, gathered, text => do
      match ← nextKey first text with
      | none => return (gathered, text)
      | some (key, text) =>
          let (gathered, text) ← member key gathered text
          readMembers member fuel false gathered text

/-! ## Records -/

/-- A field of a record that is gathered in a `σ`: whether it has a value there already, and how
to read one into it. -/
structure Field (σ : Type) where
  name : String
  required : Bool
  filled : σ → Bool
  read : σ → Reader σ

/-- The fields of a record and its name in complaints. A strict record refuses other members. -/
structure Shape (σ : Type) where
  name : String
  strict : Bool
  fields : List (Field σ)

namespace Shape

variable {σ : Type}

/-- Reads one member. A field may be given once only. -/
def member (shape : Shape σ) (key : String) (gathered : σ) : Reader σ := fun text =>
  match shape.fields.find? fun field => field.name == key with
  | some field =>
      if field.filled gathered then .error (objectFault (.duplicateField key) text)
      else do field.read gathered (← readColon text)
  | none =>
      if shape.strict then
        .error (objectFault (.unknownField key (shape.fields.map Field.name)) text)
      else do return (gathered, ← skipValue (← readColon text))

def missing? (shape : Shape σ) (gathered : σ) : Option (Field σ) :=
  shape.fields.find? fun field => field.required && !field.filled gathered

/-- The fields of a record that is written as a list, from number `index` on. A list that stops
early leaves the last fields without a value. -/
def readFields (shape : Shape σ) : List (Field σ) → Nat → σ → Reader σ
  | [], _, gathered, text => .ok (gathered, text)
  | field :: fields, index, gathered, text => do
      match ← nextElement (index == 0) text with
      | none =>
          if field.required then
            .error (listFault (.wrongLength index
              s!"struct {shape.name} with {shape.fields.length} elements") text)
          else readFields shape fields index gathered text
      | some text =>
          let (gathered, text) ← field.read gathered text
          readFields shape fields (index + 1) gathered text

def read (shape : Shape σ) (empty : σ) : Reader σ :=
  atValue fun char rest =>
    if char = '\x7b' then do
      let (gathered, rest) ← readMembers shape.member (rest.length + 1) true empty rest
      match shape.missing? gathered with
      | some field => .error (objectFault (.missingField field.name) rest)
      | none => return (gathered, ← closeObject rest)
    else if char = '[' then do
      let (gathered, rest) ← readFields shape shape.fields 0 empty rest
      return (gathered, ← closeList rest)
    else .error (mismatch s!"struct {shape.name}" (char :: rest))

end Shape

/-- Reads the name of one of a few variants, either alone or as the only key of an object whose
value is `null`. -/
def readVariant {α : Type} (variants : List (String × α)) : Reader α :=
  let pick (name : String) (rest : List Char) : Except Fault (α × List Char) :=
    match variants.find? fun variant => variant.1 == name with
    | some (_, value) => .ok (value, rest)
    | none => .error (.before (.unknownVariant name (variants.map Prod.fst)) rest)
  atValue fun char rest =>
    if char = '"' then do
      let (name, rest) ← scanText [] rest
      pick name rest
    else if char = '\x7b' then
      match skipBlanks rest with
      | [] => .error (.before .endInValue [])
      | '"' :: rest => do
          let (name, rest) ← scanText [] rest
          let (value, rest) ← pick name rest
          let (_, rest) ← readNothing (← readColon rest)
          match skipBlanks rest with
          | [] => .error (.before .endInObject [])
          | '\x7d' :: rest => return (value, rest)
          | rest => .error (.before .expectedValue rest)
      | text => .error (mismatch "variant identifier" text)
    else .error (.atNext .expectedValue (char :: rest))

def readAll {α : Type} (read : Reader α) (text : List Char) : Except ReadError α :=
  let outcome : Except Fault α := do
    let (value, rest) ← read text
    match skipBlanks rest with
    | [] => return value
    | rest => .error (.atNext .trailingText rest)
  outcome.mapError fun fault => fault.locate text

def joined : List (List Char) → List Char
  | [] => []
  | [part] => part
  | part :: parts => part ++ ',' :: joined parts

def listText (elements : List (List Char)) : List Char :=
  '[' :: joined elements ++ [']']

def objectText (members : List (String × List Char)) : List Char :=
  '\x7b' :: joined (members.map fun member => literal member.1 ++ ':' :: member.2) ++ ['\x7d']

def naturalText (value : Nat) : List Char :=
  Nat.toDigits 10 value

def integerText (value : Int) : List Char :=
  if value < 0 then '-' :: naturalText value.natAbs else naturalText value.natAbs

end OrderDesk.Json
