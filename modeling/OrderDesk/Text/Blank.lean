/-! The two notions of blank: white space in the sense of Unicode, which makes a line empty, and
the four characters that may separate the tokens of a JSON text. -/

namespace OrderDesk.Text

/-- The characters with the Unicode property White_Space. -/
def isBlank (char : Char) : Bool :=
  let code := char.toNat
  (0x9 ≤ code && code ≤ 0xd) || code == 0x20 || code == 0x85 || code == 0xa0 || code == 0x1680 ||
    (0x2000 ≤ code && code ≤ 0x200a) || code == 0x2028 || code == 0x2029 || code == 0x202f ||
    code == 0x205f || code == 0x3000

def isJsonBlank (char : Char) : Bool :=
  char == ' ' || char == '\t' || char == '\n' || char == '\r'

theorem isBlank_of_isJsonBlank {char : Char} (blank : isJsonBlank char = true) :
    isBlank char = true := by
  simp only [isJsonBlank, Bool.or_eq_true, beq_iff_eq] at blank
  rcases blank with ((rfl | rfl) | rfl) | rfl <;> decide

end OrderDesk.Text
