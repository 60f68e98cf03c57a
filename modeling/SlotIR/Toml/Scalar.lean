import SlotIR.Toml.Item
import SlotIR.Literal

/-!
# TOML strings, numbers and dates

Readers for the values that hold no other values. A reader takes the text at which its value starts
and returns the value and the text after it.
-/

namespace SlotIR.Toml

/-- Reads a value at the start of a text. -/
abbrev Reader (α : Type) := List Char → Option (α × List Char)

def isSpace (c : Char) : Bool := c = ' ' || c = '\t'

/-- A character that can stand for itself in comments and strings: no control except the tab. -/
def isPlain (c : Char) : Bool :=
  c = '\t' || (0x20 ≤ c.toNat && c.toNat ≤ 0x7E) || 0x80 ≤ c.toNat

def dropSpaces (cs : List Char) : List Char := cs.dropWhile isSpace

/-- The text after a line end, if one stands here. -/
def lineEnd? : List Char → Option (List Char)
  | '\n' :: cs => some cs
  | '\r' :: '\n' :: cs => some cs
  | _ => none

/-! ## Strings -/

def hexValue? (c : Char) : Option Nat :=
  if c.isDigit then some (c.toNat - '0'.toNat)
  else if 'a' ≤ c ∧ c ≤ 'f' then some (c.toNat - 'a'.toNat + 10)
  else if 'A' ≤ c ∧ c ≤ 'F' then some (c.toNat - 'A'.toNat + 10)
  else none

/-- The character whose code point is written in hexadecimal digits. -/
def charOfHex? (digits : List Char) : Option Char := do
  let n ← digits.foldlM (fun n c => (hexValue? c).map (16 * n + ·)) 0
  if n < 0xD800 ∨ (0xDFFF < n ∧ n ≤ 0x10FFFF) then some (Char.ofNat n) else none

/-- The character that a letter after a backslash stands for. -/
def escaped? : Char → Option Char
  | 'b' => some '\x08'
  | 't' => some '\t'
  | 'n' => some '\n'
  | 'f' => some '\x0c'
  | 'r' => some '\r'
  | '"' => some '"'
  | '\\' => some '\\'
  | _ => none

/-- Puts a character in front of what a reader of strings returns. -/
def consChar (c : Char) : Option (List Char × List Char) → Option (List Char × List Char) :=
  Option.map fun (s, rest) => (c :: s, rest)

/-- The rest of a string between double quotes. -/
def basicTail : Reader (List Char)
  | '"' :: cs => some ([], cs)
  | '\\' :: 'u' :: a :: b :: c :: d :: cs => do consChar (← charOfHex? [a, b, c, d]) (basicTail cs)
  | '\\' :: 'U' :: a :: b :: c :: d :: e :: f :: g :: h :: cs => do
    consChar (← charOfHex? [a, b, c, d, e, f, g, h]) (basicTail cs)
  | '\\' :: c :: cs => do consChar (← escaped? c) (basicTail cs)
  | c :: cs => if c ≠ '\\' ∧ isPlain c then consChar c (basicTail cs) else none
  | [] => none

/-- The rest of a string between apostrophes. -/
def literalTail : Reader (List Char)
  | '\'' :: cs => some ([], cs)
  | c :: cs => if isPlain c then consChar c (literalTail cs) else none
  | [] => none

/-- Whether only spaces stand before the next line end. -/
def endsLine (cs : List Char) : Bool := (lineEnd? (dropSpaces cs)).isSome

/-- The rest of a string of several lines between three double quotes. Up to two quotes may stand
right before the closing ones. While `trimming`, after a backslash at the end of a line, spaces and
line ends are left out. -/
def longBasicTail : Bool → Reader (List Char)
  | _, '"' :: '"' :: '"' :: '"' :: '"' :: cs => some (['"', '"'], cs)
  | _, '"' :: '"' :: '"' :: '"' :: cs => some (['"'], cs)
  | _, '"' :: '"' :: '"' :: cs => some ([], cs)
  | _, '\\' :: 'u' :: a :: b :: c :: d :: cs => do
    consChar (← charOfHex? [a, b, c, d]) (longBasicTail false cs)
  | _, '\\' :: 'U' :: a :: b :: c :: d :: e :: f :: g :: h :: cs => do
    consChar (← charOfHex? [a, b, c, d, e, f, g, h]) (longBasicTail false cs)
  | _, '\\' :: c :: cs =>
    match escaped? c with
    | some e => consChar e (longBasicTail false cs)
    | none => if endsLine (c :: cs) then longBasicTail true (c :: cs) else none
  | trimming, '\r' :: '\n' :: cs =>
    if trimming then longBasicTail true cs else consChar '\n' (longBasicTail false cs)
  | trimming, c :: cs =>
    if c = '\n' then if trimming then longBasicTail true cs else consChar c (longBasicTail false cs)
    else if trimming && isSpace c then longBasicTail true cs
    else if c ≠ '\\' ∧ isPlain c then consChar c (longBasicTail false cs)
    else none
  | _, [] => none

/-- The rest of a string of several lines between three apostrophes. Up to two apostrophes may stand
right before the closing ones. -/
def longLiteralTail : Reader (List Char)
  | '\'' :: '\'' :: '\'' :: '\'' :: '\'' :: cs => some (['\'', '\''], cs)
  | '\'' :: '\'' :: '\'' :: '\'' :: cs => some (['\''], cs)
  | '\'' :: '\'' :: '\'' :: cs => some ([], cs)
  | '\r' :: '\n' :: cs => consChar '\n' (longLiteralTail cs)
  | c :: cs => if c = '\n' ∨ isPlain c then consChar c (longLiteralTail cs) else none
  | [] => none

/-- A line end right after the opening quotes does not count. -/
def afterOpening (cs : List Char) : List Char := (lineEnd? cs).getD cs

/-- A string of any of the four forms. -/
def readString (cs : List Char) : Option (String × List Char) :=
  let body := match cs with
    | '"' :: '"' :: '"' :: cs => longBasicTail false (afterOpening cs)
    | '"' :: cs => basicTail cs
    | '\'' :: '\'' :: '\'' :: cs => longLiteralTail (afterOpening cs)
    | '\'' :: cs => literalTail cs
    | _ => none
  body.map fun (s, rest) => (String.ofList s, rest)

/-! ## Numbers -/

/-- The rest of a run of digits, in which single underscores may stand between digits. -/
def moreDigits (isDigit : Char → Bool) : List Char → List Char × List Char
  | '_' :: c :: cs =>
    if isDigit c then
      let (ds, rest) := moreDigits isDigit cs
      (c :: ds, rest)
    else ([], '_' :: c :: cs)
  | c :: cs =>
    if isDigit c then
      let (ds, rest) := moreDigits isDigit cs
      (c :: ds, rest)
    else ([], c :: cs)
  | [] => ([], [])

/-- A run of at least one digit. -/
def someDigits (isDigit : Char → Bool) : Reader (List Char)
  | c :: cs =>
    if isDigit c then
      let (ds, rest) := moreDigits isDigit cs
      some (c :: ds, rest)
    else none
  | [] => none

/-- The digits of a decimal integer, which starts with zero only if it is zero. -/
def decimalDigits : Reader (List Char)
  | '0' :: cs => some (['0'], cs)
  | cs => someDigits Char.isDigit cs

/-- An integer of 64 bits. -/
def word? (n : Int) : Option Item :=
  if Int64.minValue.toInt ≤ n ∧ n ≤ Int64.maxValue.toInt then some (.integer n) else none

/-- An unsigned integer in a base other than ten, after its mark. -/
def readBased (base : Nat) (cs : List Char) : Option (Item × List Char) := do
  let (ds, rest) ← someDigits (fun c => (hexValue? c).any (· < base)) cs
  let n := ds.foldl (fun n c => base * n + (hexValue? c).getD 0) 0
  return (← word? n, rest)

def readInteger (cs : List Char) : Option (Item × List Char) :=
  match cs with
  | '0' :: 'x' :: cs => readBased 16 cs
  | '0' :: 'o' :: cs => readBased 8 cs
  | '0' :: 'b' :: cs => readBased 2 cs
  | cs => do
    let (negative, cs) := Literal.splitSign cs
    let (ds, rest) ← decimalDigits cs
    let n := Literal.digitsValue ds
    return (← word? (if negative then -(n : Int) else n), rest)

/-- An exponent: a mark, an optional sign and digits. -/
def readExponent : Reader Int
  | c :: cs =>
    if c = 'e' ∨ c = 'E' then do
      let (negative, cs) := Literal.splitSign cs
      let (ds, rest) ← someDigits Char.isDigit cs
      let n := Literal.digitsValue ds
      return (if negative then -(n : Int) else n, rest)
    else none
  | [] => none

/-- Whether `coefficient * 10 ^ exponent` rounds beyond the largest number of double precision. -/
def exceedsDouble (coefficient : Nat) (exponent : Int) : Bool :=
  let top := exponent + Binary32.decimalLength coefficient
  let limit := Nat.pow 2 1024 - Nat.pow 2 970
  if coefficient = 0 ∨ top < 300 then false
  else if 400 < top then true
  else if 0 ≤ exponent then limit ≤ coefficient * Nat.pow 10 exponent.toNat
  else limit * Nat.pow 10 (-exponent).toNat ≤ coefficient

/-- A decimal with a fraction or an exponent. A positive one must have a finite value. -/
def readDecimal (negative : Bool) (cs : List Char) : Option (Item × List Char) := do
  let (whole, rest) ← decimalDigits cs
  let (fraction, exponent, rest) ← match rest with
    | '.' :: cs => do
      let (fraction, rest) ← someDigits Char.isDigit cs
      match readExponent rest with
      | some (e, rest) => some (fraction, e, rest)
      | none => some (fraction, 0, rest)
    | cs => do
      let (e, rest) ← readExponent cs
      some ([], e, rest)
  let coefficient := Literal.digitsValue (whole ++ fraction)
  if !negative && exceedsDouble coefficient (exponent - (fraction.length : Int)) then none
  else some (.float, rest)

def readFloat (cs : List Char) : Option (Item × List Char) :=
  match Literal.splitSign cs with
  | (_, 'i' :: 'n' :: 'f' :: rest) => some (.float, rest)
  | (_, 'n' :: 'a' :: 'n' :: rest) => some (.float, rest)
  | (negative, cs) => readDecimal negative cs

/-! ## Dates and times -/

/-- A number of two digits between two bounds. -/
def readTwo (lo hi : Nat) : Reader Nat
  | a :: b :: cs =>
    let n := Literal.digitsValue [a, b]
    if a.isDigit && b.isDigit && lo ≤ n && n ≤ hi then some (n, cs) else none
  | _ => none

def daysIn (year month : Nat) : Nat :=
  match month with
  | 2 => if year % 4 = 0 ∧ (year % 100 ≠ 0 ∨ year % 400 = 0) then 29 else 28
  | 4 | 6 | 9 | 11 => 30
  | _ => 31

/-- The text after a given character. -/
def expect? (c : Char) : List Char → Option (List Char)
  | d :: cs => if c = d then some cs else none
  | [] => none

/-- The text after a date. -/
def afterDate? : List Char → Option (List Char)
  | a :: b :: c :: d :: cs => do
    if [a, b, c, d].all Char.isDigit then
      let (month, cs) ← readTwo 1 12 (← expect? '-' cs)
      let (_, cs) ← readTwo 1 (daysIn (Literal.digitsValue [a, b, c, d]) month) (← expect? '-' cs)
      return cs
    else none
  | _ => none

/-- The text after a time of day. -/
def afterTime? (cs : List Char) : Option (List Char) := do
  let (_, cs) ← readTwo 0 23 cs
  let (_, cs) ← readTwo 0 59 (← expect? ':' cs)
  let (_, cs) ← readTwo 0 60 (← expect? ':' cs)
  match cs with
  | '.' :: c :: cs => if c.isDigit then some (cs.dropWhile Char.isDigit) else none
  | '.' :: [] => none
  | cs => some cs

/-- The text after an offset from universal time, if there is one. -/
def afterOffset (cs : List Char) : List Char :=
  let signed (cs : List Char) : Option (List Char) := do
    let (_, cs) ← readTwo 0 23 cs
    let (_, cs) ← readTwo 0 59 (← expect? ':' cs)
    return cs
  match cs with
  | 'Z' :: cs | 'z' :: cs => cs
  | '+' :: rest | '-' :: rest => (signed rest).getD cs
  | cs => cs

/-- A date, a time, or both. -/
def readDatetime (cs : List Char) : Option (Item × List Char) :=
  match afterDate? cs with
  | none => (afterTime? cs).map (.datetime, ·)
  | some rest =>
    match rest with
    | c :: time =>
      if c = 'T' ∨ c = 't' ∨ c = ' ' then
        match afterTime? time with
        | some rest => some (.datetime, afterOffset rest)
        | none => some (.datetime, rest)
      else some (.datetime, rest)
    | [] => some (.datetime, [])

/-- A string, number, date or truth value. -/
def readScalar (cs : List Char) : Option (Item × List Char) :=
  match cs with
  | '"' :: _ | '\'' :: _ => (readString cs).map fun (s, rest) => (.string s, rest)
  | 't' :: 'r' :: 'u' :: 'e' :: rest => some (.boolean true, rest)
  | 'f' :: 'a' :: 'l' :: 's' :: 'e' :: rest => some (.boolean false, rest)
  | cs => readDatetime cs <|> readFloat cs <|> readInteger cs

end SlotIR.Toml
