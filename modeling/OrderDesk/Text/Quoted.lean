import OrderDesk.Text.Visible

/-! Text as a diagnostic shows it: between double quotes, with short escapes for the usual
controls and a numeric escape for every other hidden character. -/

namespace OrderDesk.Text

def hexDigits (code : Nat) : List Char :=
  Nat.toDigits 16 code

def quotedChar (char : Char) : List Char :=
  match char with
  | '\x00' => ['\\', '0']
  | '\t' => ['\\', 't']
  | '\r' => ['\\', 'r']
  | '\n' => ['\\', 'n']
  | '\\' => ['\\', '\\']
  | '"' => ['\\', '"']
  | char =>
      if isVisible char then [char]
      else ['\\', 'u', '\x7b'] ++ hexDigits char.toNat ++ ['\x7d']

def quoted (text : String) : String :=
  String.ofList ('"' :: text.toList.flatMap quotedChar ++ ['"'])

end OrderDesk.Text
