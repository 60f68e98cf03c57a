/-!
# Byte positions

Positions in a text count the bytes of its UTF-8 form. A position may lie inside of a character or
behind the end, so a text can be split only at some of them.
-/

namespace SlotIR.Text

/-- The bytes of a text, each as the character with that code. -/
def bytes (cs : List Char) : List Char :=
  (cs.flatMap String.utf8EncodeChar).map Char.ofUInt8

/-- The parts of a text before and after a position where a character begins, or of the whole text
and nothing at its end. -/
def splitAt? : Nat → List Char → Option (List Char × List Char)
  | 0, cs => some ([], cs)
  | _ + 1, [] => none
  | n + 1, c :: cs =>
    if c.utf8Size ≤ n + 1 then
      (splitAt? (n + 1 - c.utf8Size) cs).map fun (before, after) => (c :: before, after)
    else none

/-- The position of the first character with a property. -/
def find? (p : Char → Bool) : List Char → Option Nat
  | [] => none
  | c :: cs => if p c then some 0 else (find? p cs).map (c.utf8Size + ·)

/-- Inserts a character at a position. -/
def insertAt? (n : Nat) (c : Char) (cs : List Char) : Option (List Char) :=
  (splitAt? n cs).map fun (before, after) => before ++ c :: after

end SlotIR.Text
