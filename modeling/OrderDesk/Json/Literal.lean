import OrderDesk.Json.Fault
import OrderDesk.Text.Blank

/-! The string literals of JSON. A writer escapes quotes, backslashes and controls; a reader
undoes every escape of the grammar, with surrogate halves only in pairs. -/

namespace OrderDesk.Json

abbrev Reader (α : Type) := List Char → Except Fault (α × List Char)

def skipBlanks (text : List Char) : List Char :=
  text.dropWhile Text.isJsonBlank

def hexDigit (value : Nat) : Char :=
  if value < 10 then Char.ofNat (0x30 + value) else Char.ofNat (0x57 + value)

def escapeChar (char : Char) : List Char :=
  match char with
  | '"' => ['\\', '"']
  | '\\' => ['\\', '\\']
  | '\x08' => ['\\', 'b']
  | '\x0c' => ['\\', 'f']
  | '\n' => ['\\', 'n']
  | '\r' => ['\\', 'r']
  | '\t' => ['\\', 't']
  | char =>
      if char.toNat < 0x20 then
        ['\\', 'u', '0', '0', hexDigit (char.toNat / 16), hexDigit (char.toNat % 16)]
      else [char]

def literal (text : String) : List Char :=
  '"' :: text.toList.flatMap escapeChar ++ ['"']

/-! ## Reading -/

def shortEscape? : Char → Option Char
  | '"' => some '"'
  | '\\' => some '\\'
  | '/' => some '/'
  | 'b' => some '\x08'
  | 'f' => some '\x0c'
  | 'n' => some '\n'
  | 'r' => some '\r'
  | 't' => some '\t'
  | _ => none

def hexValue? (char : Char) : Option Nat :=
  let code := char.toNat
  if 0x30 ≤ code && code ≤ 0x39 then some (code - 0x30)
  else if 0x61 ≤ code && code ≤ 0x66 then some (code - 0x57)
  else if 0x41 ≤ code && code ≤ 0x46 then some (code - 0x37)
  else none

def hexUnit? (first second third fourth : Char) : Option Nat := do
  let a ← hexValue? first
  let b ← hexValue? second
  let c ← hexValue? third
  let d ← hexValue? fourth
  return ((a * 16 + b) * 16 + c) * 16 + d

def isHighSurrogate (unit : Nat) : Bool := 0xd800 ≤ unit && unit ≤ 0xdbff

def isLowSurrogate (unit : Nat) : Bool := 0xdc00 ≤ unit && unit ≤ 0xdfff

def pairChar (high low : Nat) : Char :=
  Char.ofNat ((high - 0xd800) * 0x400 + (low - 0xdc00) + 0x10000)

/-- Four bytes are read as hexadecimal digits before they are judged. -/
def badUnit (text : List Char) : Fault :=
  if byteLength text < 4 then ⟨.endInText, 0⟩ else ⟨.badEscape, byteLength text - 4⟩

def unpaired : List Char → Fault
  | [] => .before .endInText []
  | '\\' :: [] => .before .endInText []
  | '\\' :: 'u' :: rest => badUnit rest
  | '\\' :: rest => .atNext .halfSurrogatePair rest
  | text => .atNext .halfSurrogatePair text

def scanText (seen : List Char) : Reader String
  | [] => .error (.before .endInText [])
  | '"' :: rest => .ok (String.ofList seen.reverse, rest)
  | '\\' :: 'u' :: a :: b :: c :: d :: rest =>
      match hexUnit? a b c d with
      | none => .error (badUnit (a :: b :: c :: d :: rest))
      | some unit =>
          if isLowSurrogate unit then .error (.before .loneSurrogate rest)
          else if isHighSurrogate unit then
            match rest with
            | '\\' :: 'u' :: e :: f :: g :: h :: tail =>
                match hexUnit? e f g h with
                | none => .error (badUnit (e :: f :: g :: h :: tail))
                | some low =>
                    if isLowSurrogate low then scanText (pairChar unit low :: seen) tail
                    else .error (.before .loneSurrogate tail)
            | text => .error (unpaired text)
          else scanText (Char.ofNat unit :: seen) rest
  | '\\' :: 'u' :: rest => .error (badUnit rest)
  | '\\' :: char :: rest =>
      match shortEscape? char with
      | some escaped => scanText (escaped :: seen) rest
      | none => .error (.atNext .badEscape (char :: rest))
  | '\\' :: [] => .error (.before .endInText [])
  | char :: rest =>
      if char.toNat < 0x20 then .error (.before .controlCharacter rest)
      else scanText (char :: seen) rest

/-- Passes over a literal whose text is not wanted. Its escapes need not be paired. -/
def skipText : List Char → Except Fault (List Char)
  | [] => .error (.before .endInText [])
  | '"' :: rest => .ok rest
  | '\\' :: 'u' :: a :: b :: c :: d :: rest =>
      match hexUnit? a b c d with
      | none => .error (badUnit (a :: b :: c :: d :: rest))
      | some _ => skipText rest
  | '\\' :: 'u' :: rest => .error (badUnit rest)
  | '\\' :: char :: rest =>
      match shortEscape? char with
      | some _ => skipText rest
      | none => .error (.atNext .badEscape (char :: rest))
  | '\\' :: [] => .error (.before .endInText [])
  | char :: rest =>
      if char.toNat < 0x20 then .error (.before .controlCharacter (char :: rest))
      else skipText rest

end OrderDesk.Json
