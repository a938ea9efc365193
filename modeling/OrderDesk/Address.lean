/-! Socket addresses: an IPv4 or IPv6 address and a port. Several texts can stand for one
address, and each address has one text that it is shown with. -/

namespace OrderDesk

/-- An IPv4 address has four numbers below 256. An IPv6 address has eight below 65536, and a zone
that is zero if none is given. -/
inductive Address where
  | v4 (octets : List Nat) (port : Nat)
  | v6 (groups : List Nat) (zone port : Nat)
  deriving DecidableEq, Repr

namespace Address

def digitValue? (base : Nat) (char : Char) : Option Nat :=
  let code := char.toNat
  let value :=
    if 0x30 ≤ code && code ≤ 0x39 then some (code - 0x30)
    else if 0x61 ≤ code && code ≤ 0x66 then some (code - 0x57)
    else if 0x41 ≤ code && code ≤ 0x46 then some (code - 0x37)
    else none
  value.filter fun value => value < base

def takeNumber (base value count : Nat) : List Char → Nat × Nat × List Char
  | [] => (value, count, [])
  | char :: rest =>
      match digitValue? base char with
      | some digit => takeNumber base (value * base + digit) (count + 1) rest
      | none => (value, count, char :: rest)

def readNumber? (base bound : Nat) (text : List Char) : Option (Nat × List Char) :=
  let (value, count, rest) := takeNumber base 0 0 text
  if count = 0 || bound ≤ value then none else some (value, rest)

def readChar? (wanted : Char) : List Char → Option (List Char)
  | char :: rest => if char = wanted then some rest else none
  | [] => none

def readOctet? (text : List Char) : Option (Nat × List Char) :=
  let (value, count, rest) := takeNumber 10 0 0 text
  if count = 0 || 3 < count || (text.head? = some '0' && 1 < count) || 256 ≤ value then none
  else some (value, rest)

def readOctets? (text : List Char) : Option (List Nat × List Char) := do
  let (first, text) ← readOctet? text
  let (second, text) ← readOctet? (← readChar? '.' text)
  let (third, text) ← readOctet? (← readChar? '.' text)
  let (fourth, text) ← readOctet? (← readChar? '.' text)
  return ([first, second, third, fourth], text)

def readGroup? (text : List Char) : Option (Nat × List Char) :=
  let (value, count, rest) := takeNumber 16 0 0 text
  if count = 0 || 4 < count then none else some (value, rest)

def readSeparator? (first : Bool) (text : List Char) : Option (List Char) :=
  if first then some text else readChar? ':' text

/-- Up to `limit` groups with colons between them. The last two may be written as an IPv4
address, which ends the part; whether it did is the middle result. -/
def readGroups : Nat → Bool → List Char → List Nat × Bool × List Char
  | 0, _, text => ([], false, text)
  | limit + 1, first, text =>
      let embedded :=
        if limit = 0 then none else (readSeparator? first text).bind readOctets?
      match embedded with
      | some ([one, two, three, four], rest) =>
          ([one * 256 + two, three * 256 + four], true, rest)
      | _ =>
          match (readSeparator? first text).bind readGroup? with
          | none => ([], false, text)
          | some (group, rest) =>
              let (groups, embedded, rest) := readGroups limit false rest
              (group :: groups, embedded, rest)

def readV6? (text : List Char) : Option (List Nat × List Char) := do
  let (front, embedded, text) := readGroups 8 true text
  if front.length = 8 then return (front, text)
  else if embedded then none
  else
    let text ← readChar? ':' (← readChar? ':' text)
    let (back, _, text) := readGroups (7 - front.length) true text
    return (front ++ List.replicate (8 - front.length - back.length) 0 ++ back, text)

def readPort? (text : List Char) : Option (Nat × List Char) := do
  readNumber? 10 65536 (← readChar? ':' text)

def readZone (text : List Char) : Nat × List Char :=
  ((readChar? '%' text).bind (readNumber? 10 UInt32.size)).getD (0, text)

def parse? (text : String) : Option Address :=
  let chars := text.toList
  let short := do
    let (octets, rest) ← readOctets? chars
    let (port, rest) ← readPort? rest
    if rest.isEmpty then some (v4 octets port) else none
  let long := do
    let (groups, rest) ← readV6? (← readChar? '[' chars)
    let (zone, rest) := readZone rest
    let (port, rest) ← readPort? (← readChar? ']' rest)
    if rest.isEmpty then some (v6 groups zone port) else none
  short.or long

/-! ## Showing -/

def octetsText (octets : List Nat) : String :=
  String.intercalate "." (octets.map toString)

def groupsText (groups : List Nat) : String :=
  String.intercalate ":" (groups.map fun group => String.ofList (Nat.toDigits 16 group))

/-- The start and length of the first longest run of zeros. `place` is that of the first of the
given groups, and `run` is the length of the run that ends just before it. -/
def longestZeros (place run : Nat) (best : Nat × Nat) : List Nat → Nat × Nat
  | [] => best
  | group :: groups =>
      let run := if group = 0 then run + 1 else 0
      let best := if best.2 < run then (place + 1 - run, run) else best
      longestZeros (place + 1) run best groups

/-- An IPv6 address with its longest run of at least two zeros left out. An address that stands
for an IPv4 address shows it. -/
def v6Text (groups : List Nat) : String :=
  match groups with
  | [0, 0, 0, 0, 0, 0xffff, high, low] =>
      "::ffff:" ++ octetsText [high / 256, high % 256, low / 256, low % 256]
  | _ =>
      let (start, length) := longestZeros 0 0 (0, 0) groups
      if 1 < length then
        groupsText (groups.take start) ++ "::" ++ groupsText (groups.drop (start + length))
      else groupsText groups

def text : Address → String
  | v4 octets port => octetsText octets ++ ":" ++ toString port
  | v6 groups zone port =>
      let zone := if zone = 0 then "" else "%" ++ toString zone
      "[" ++ v6Text groups ++ zone ++ "]:" ++ toString port

end Address

end OrderDesk
