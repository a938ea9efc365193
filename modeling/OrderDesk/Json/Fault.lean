import OrderDesk.Decimal.Notation
import OrderDesk.Text.Quoted

/-! What can be wrong with a JSON text, where, and how it is reported. While reading, a fault
counts the bytes that were still unread when it was found; its line and column follow from the
whole text afterwards. -/

namespace OrderDesk.Json

inductive Found where
  | null
  | boolean (value : Bool)
  | integer (value : Int)
  | float (value : Decimal.Double)
  | text (value : String)
  | sequence
  | map
  deriving DecidableEq, Repr

inductive Issue where
  | endInValue
  | endInText
  | endInList
  | endInObject
  | expectedValue
  | expectedWord
  | expectedColon
  | expectedCommaOrBracket
  | expectedCommaOrBrace
  | keyNotText
  | trailingComma
  | trailingText
  | badNumber
  | numberOutOfRange
  | badEscape
  | controlCharacter
  | loneSurrogate
  | halfSurrogatePair
  | wrongType (found : Found) (expected : String)
  | wrongValue (found : Found) (expected : String)
  | wrongLength (length : Nat) (expected : String)
  | unknownField (name : String) (expected : List String)
  | unknownVariant (name : String) (expected : List String)
  | duplicateField (name : String)
  | missingField (name : String)
  deriving DecidableEq, Repr

inductive Category where
  | eof
  | grammar
  | data
  deriving DecidableEq, Repr

/-- Floats are written positionally up to sixteen digits before the point and five zeros after. -/
def floatLayout : Decimal.Layout := ⟨-5, 15⟩

def Found.message : Found → String
  | .null => "null"
  | .boolean value => s!"boolean `{value}`"
  | .integer value => s!"integer `{value}`"
  | .float value => "floating point `" ++ floatLayout.text value ++ "`"
  | .text value => "string " ++ Text.quoted value
  | .sequence => "sequence"
  | .map => "map"

def alternatives : List String → String
  | [] => "nothing"
  | [name] => s!"`{name}`"
  | [first, second] => s!"`{first}` or `{second}`"
  | names => "one of " ++ String.intercalate ", " (names.map fun name => s!"`{name}`")

namespace Issue

def category : Issue → Category
  | endInValue | endInText | endInList | endInObject => .eof
  | wrongType .. | wrongValue .. | wrongLength .. | unknownField .. | unknownVariant ..
  | duplicateField .. | missingField .. => .data
  | _ => .grammar

def message : Issue → String
  | endInValue => "EOF while parsing a value"
  | endInText => "EOF while parsing a string"
  | endInList => "EOF while parsing a list"
  | endInObject => "EOF while parsing an object"
  | expectedValue => "expected value"
  | expectedWord => "expected ident"
  | expectedColon => "expected `:`"
  | expectedCommaOrBracket => "expected `,` or `]`"
  | expectedCommaOrBrace => "expected `,` or `\x7d`"
  | keyNotText => "key must be a string"
  | trailingComma => "trailing comma"
  | trailingText => "trailing characters"
  | badNumber => "invalid number"
  | numberOutOfRange => "number out of range"
  | badEscape => "invalid escape"
  | controlCharacter => "control character (\\u0000-\\u001F) found while parsing a string"
  | loneSurrogate => "lone leading surrogate in hex escape"
  | halfSurrogatePair => "unexpected end of hex escape"
  | wrongType found expected => s!"invalid type: {found.message}, expected {expected}"
  | wrongValue found expected => s!"invalid value: {found.message}, expected {expected}"
  | wrongLength length expected => s!"invalid length {length}, expected {expected}"
  | unknownField name expected => s!"unknown field `{name}`, expected {alternatives expected}"
  | unknownVariant name expected => s!"unknown variant `{name}`, expected {alternatives expected}"
  | duplicateField name => s!"duplicate field `{name}`"
  | missingField name => s!"missing field `{name}`"

end Issue

def byteLength (text : List Char) : Nat :=
  text.foldl (fun total char => total + char.utf8Size) 0

/-- An issue, with the number of bytes that followed the place where it was found. -/
structure Fault where
  issue : Issue
  left : Nat
  deriving DecidableEq, Repr

namespace Fault

def before (issue : Issue) (rest : List Char) : Fault := ⟨issue, byteLength rest⟩

def atNext (issue : Issue) (rest : List Char) : Fault := ⟨issue, byteLength rest - 1⟩

end Fault

/-- Lines count from one, columns are the bytes since the last line feed. -/
structure Position where
  line : Nat
  column : Nat
  deriving DecidableEq, Repr

def Position.walk (index : Nat) : List Char → Nat → Nat → Nat → Position
  | [], _, line, lineStart => ⟨line, index - lineStart⟩
  | char :: rest, offset, line, lineStart =>
      if index ≤ offset then ⟨line, index - lineStart⟩
      else if char = '\n' then Position.walk index rest (offset + 1) (line + 1) (offset + 1)
      else Position.walk index rest (offset + char.utf8Size) line lineStart

structure ReadError where
  issue : Issue
  position : Position
  deriving DecidableEq, Repr

def ReadError.message (error : ReadError) : String :=
  s!"{error.issue.message} at line {error.position.line} column {error.position.column}"

def Fault.locate (fault : Fault) (text : List Char) : ReadError :=
  ⟨fault.issue, Position.walk (byteLength text - fault.left) text 0 1 0⟩

end OrderDesk.Json
