import SlotIR.Text.Unprintable

/-!
# Quoted text

Names stand between double quotes in messages. A quote and a backslash are escaped by a backslash,
tab, line feed, carriage return and NUL have their own letters, and every other unprintable
character is its code point in hexadecimal.
-/

namespace SlotIR.Text

/-- The escape of one character inside quotes. -/
def escapeChar (c : Char) : String :=
  match c with
  | '"' => "\\\""
  | '\\' => "\\\\"
  | '\t' => "\\t"
  | '\r' => "\\r"
  | '\n' => "\\n"
  | '\x00' => "\\0"
  | c =>
    if isUnprintable c then "\\u\x7b" ++ String.ofList (Nat.toDigits 16 c.toNat) ++ "\x7d"
    else c.toString

/-- A text between double quotes, with its special characters escaped. -/
def quoted (s : String) : String :=
  "\"" ++ String.join (s.toList.map escapeChar) ++ "\""

end SlotIR.Text
