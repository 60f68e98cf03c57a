import SlotIR.Text.Blank
import SlotIR.Text.Bytes
import SlotIR.Binary32.Rounding

/-!
# Numeric literals

A literal is read from the longest numeric beginning of its text, after leading white space.
Whatever follows is ignored, and a text without a numeric beginning reads as zero. Integers are
accumulated in a word that wraps around.
-/

namespace SlotIR.Literal

/-- The value of a run of decimal digits. -/
def digitsValue (digits : List Char) : Nat :=
  digits.foldl (fun n c => 10 * n + (c.toNat - '0'.toNat)) 0

/-- Splits off an optional sign; the flag tells whether it was a minus. -/
def splitSign : List Char → Bool × List Char
  | '-' :: cs => (true, cs)
  | '+' :: cs => (false, cs)
  | cs => (false, cs)

/-- Splits off the longest run of ASCII digits. -/
def splitDigits (cs : List Char) : List Char × List Char :=
  (cs.takeWhile Char.isDigit, cs.dropWhile Char.isDigit)

/-- Appends a decimal digit to a word of 32 bits, which wraps around. -/
def appendDigit (word : Int32) (c : Char) : Int32 :=
  word * 10 + Int32.ofNat (c.toNat - '0'.toNat)

/-- An `int` literal: an optional sign and a run of digits, taken up by a word that wraps around. -/
def readInt (text : String) : Int32 :=
  let (negative, cs) := splitSign (Text.dropBlanks text.toList)
  let word := (splitDigits cs).1.foldl appendDigit 0
  if negative then -word else word

/-- A `char` literal: the low byte of an `int` literal. -/
def readChar (text : String) : UInt8 :=
  (readInt text).toUInt32.toUInt8

/-! ## Floats -/

/-- The digits after a decimal point, if there is one, and what follows them. -/
def splitFraction : List Char → List Char × List Char
  | '.' :: cs => splitDigits cs
  | cs => ([], cs)

def isExponentMark (c : Char) : Bool :=
  c = 'e' || c = 'E'

/-- The exponent that follows a mantissa, if nothing else does; zero if there is none. -/
def exponent? : List Char → Option Int
  | [] => some 0
  | mark :: cs =>
    let (negative, cs) := splitSign cs
    let (digits, rest) := splitDigits cs
    if isExponentMark mark ∧ digits ≠ [] ∧ rest = [] then
      some (if negative then -(digitsValue digits : Int) else digitsValue digits)
    else none

/-- The words for values that have no digits, in any letter case. -/
def word? (negative : Bool) (cs : List Char) : Option Binary32 :=
  let word := String.ofList (cs.map Char.toLower)
  if word = "inf" ∨ word = "infinity" then some (.infinity negative)
  else if word = "nan" then some (.nan negative)
  else none

/-- Reads a float that is all of a text: a sign, then a decimal or a word. A decimal has a digit before
or after its point, which may be missing, and it is correctly rounded. -/
def parseFloat? (cs : List Char) : Option Binary32 :=
  let (negative, cs) := splitSign cs
  let (whole, rest) := splitDigits cs
  let (fraction, rest) := splitFraction rest
  if whole = [] ∧ fraction = [] then word? negative cs
  else
    (exponent? rest).map fun e =>
      .ofDecimal negative (digitsValue (whole ++ fraction)) (e - (fraction.length : Int))

/-! ### The extent of a float

How many bytes the parts of a float take at the beginning of a text. -/

def signLength : List Char → Nat
  | '-' :: _ | '+' :: _ => 1
  | _ => 0

def digitsLength (bytes : List Char) : Nat :=
  (bytes.takeWhile Char.isDigit).length

/-- The length of digits with at most one point among them, and the number of the digits. -/
def mantissaLength (bytes : List Char) : Nat × Nat :=
  let whole := digitsLength bytes
  match bytes.drop whole with
  | '.' :: rest =>
    let fraction := digitsLength rest
    (whole + 1 + fraction, whole + fraction)
  | _ => (whole, whole)

/-- The length of an exponent. A mark that no digits follow is not one. -/
def exponentLength : List Char → Nat
  | [] => 0
  | mark :: bytes =>
    if isExponentMark mark then
      let sign := signLength bytes
      let digits := digitsLength (bytes.drop sign)
      if 0 < digits then 1 + sign + digits else 0
    else 0

/-- The number of digits in the mantissa of a float with an optional sign. -/
def mantissaDigits (bytes : List Char) : Nat :=
  (mantissaLength (bytes.drop (signLength bytes))).2

/-- The length of a float with an optional sign and an optional exponent. -/
def floatLength (bytes : List Char) : Nat :=
  let sign := signLength bytes
  let mantissa := (mantissaLength (bytes.drop sign)).1
  sign + mantissa + exponentLength (bytes.drop (sign + mantissa))

/-! ### Reading -/

/-- What an unsigned text without any digit at its beginning stands for: `inf` and `nan`, in any
letter case, or zero. -/
def readWord (negative : Bool) (cs : List Char) : Binary32 :=
  let word := (cs.take 3).map Char.toLower
  if word = ['i', 'n', 'f'] then .infinity negative
  else if word = ['n', 'a', 'n'] then .nan negative
  else .zero negative

/-- Puts a zero in front of the first character with property `p`, if what stands before that needs
one. -/
def fillBefore? (p : Char → Bool) (needs : List Char → Bool) (cs : List Char) :
    Option (List Char) :=
  match Text.find? p cs with
  | none => some cs
  | some n => do
    let (before, _) ← Text.splitAt? n cs
    if needs before then Text.insertAt? n '0' cs else some cs

/-- A decimal with digits on both sides of its point. -/
def fillDigits? (cs : List Char) : Option (List Char) := do
  let cs := if cs.getLast? = some '.' then cs ++ ['0'] else cs
  let cs ← fillBefore? (· = '.') (fun before => !before.any Char.isDigit) cs
  fillBefore? isExponentMark (fun before => before.getLast? = some '.') cs

/-- The decimal at the beginning of a text, as it is handed to `parseFloat?`. -/
def decimalText? (cs : List Char) : Option (List Char) := do
  let (number, _) ← Text.splitAt? (floatLength (Text.bytes cs)) cs
  fillDigits? number

/-- Reads the float at the beginning of a text. This fails if the text would have to be split inside of
a character or behind its end. -/
def readFloat? (text : String) : Option Binary32 := do
  let cs := Text.dropBlanks text.toList
  let bytes := Text.bytes cs
  if mantissaDigits bytes = 0 then
    let (_, unsigned) ← Text.splitAt? (signLength bytes) cs
    return readWord (bytes.head? = some '-') unsigned
  else
    let number ← decimalText? cs
    return (parseFloat? number).getD (.zero false)

/-- A `float` literal. -/
def readFloat (text : String) : Binary32 :=
  (readFloat? text).getD (.zero false)

end SlotIR.Literal
