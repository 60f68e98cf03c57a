import SlotIR.Toml.Scalar

/-!
# Reading TOML documents

A document is a sequence of lines, each with a key and its value, or a table header, or nothing. Arrays
and inline tables nest to a limited depth, and keys have a limited number of parts.
-/

namespace SlotIR.Toml

/-- Arrays and inline tables nest less deep than this, and a key has fewer parts. -/
def nestingLimit : Nat := 80

/-! ## Comments -/

mutual

/-- The text after spaces, line ends and comments. -/
def dropTrivia : List Char → List Char
  | ' ' :: cs | '\t' :: cs | '\n' :: cs => dropTrivia cs
  | '\r' :: '\n' :: cs => dropTrivia cs
  | '#' :: cs => dropTriviaComment cs
  | cs => cs

/-- The text after the rest of a comment, and the spaces, line ends and comments that follow. -/
def dropTriviaComment : List Char → List Char
  | '\n' :: cs => dropTrivia cs
  | '\r' :: '\n' :: cs => dropTrivia cs
  | c :: cs => if isPlain c then dropTriviaComment cs else c :: cs
  | [] => []

end

/-- The text after the rest of a line, which holds only spaces and a comment. -/
def restOfLine? (cs : List Char) : Option (List Char) :=
  let cs := match dropSpaces cs with
    | '#' :: cs => cs.dropWhile isPlain
    | cs => cs
  match cs with
  | [] => some []
  | cs => lineEnd? cs

/-! ## Keys -/

def isBareKeyChar (c : Char) : Bool :=
  c.isAlphanum || c = '_' || c = '-'

/-- One part of a key, with the spaces around it. -/
def readKeyPart (cs : List Char) : Option (String × List Char) := do
  let (part, rest) ← match dropSpaces cs with
    | '"' :: cs => basicTail cs
    | '\'' :: cs => literalTail cs
    | cs =>
      let part := cs.takeWhile isBareKeyChar
      if part.isEmpty then none else some (part, cs.dropWhile isBareKeyChar)
  return (String.ofList part, dropSpaces rest)

/-- A key of at most `parts` parts between points. -/
def readKeyParts : Nat → Reader (List String)
  | 0, _ => none
  | parts + 1, cs => do
    let (part, rest) ← readKeyPart cs
    match rest with
    | '.' :: cs =>
      let (key, rest) ← readKeyParts parts cs
      return (part :: key, rest)
    | rest => return ([part], rest)

/-- A key: the tables that it leads through, and its last part. -/
def readKey (cs : List Char) : Option (List String × List Char) :=
  readKeyParts (nestingLimit - 1) cs

/-- A key with its value. -/
def readPair (value : Reader Item) (cs : List Char) :
    Option ((List String × Item) × List Char) := do
  let (key, rest) ← readKey cs
  let (item, rest) ← value (dropSpaces (← expect? '=' rest))
  return ((key, item), rest)

/-! ## Values -/

/-- The items of an array up to its end; each takes at least one of the `steps`. -/
def readItems (value : Reader Item) : Nat → Reader (List Item)
  | 0, _ => none
  | steps + 1, cs =>
    match dropTrivia cs with
    | ']' :: rest => some ([], rest)
    | cs => do
      let (item, rest) ← value cs
      match dropTrivia rest with
      | ',' :: rest =>
        let (items, rest) ← readItems value steps rest
        return (item :: items, rest)
      | ']' :: rest => return ([item], rest)
      | _ => none

/-- The pairs of an inline table up to its end, added to `entries`; each takes one of the
`steps`. -/
def readPairs (value : Reader Item) : Nat → Entries → Reader Entries
  | 0, _, _ => none
  | steps + 1, entries, cs => do
    let ((key, item), rest) ← readPair value cs
    let entries ← Entries.insert? .inlineDotted (key.getLast?.getD "") item key.dropLast true entries
    match dropSpaces rest with
    | ',' :: rest => readPairs value steps entries rest
    | '\x7d' :: rest => return (entries, rest)
    | _ => none

/-- A value in which arrays and inline tables nest at most `depth` deep. -/
def readValue : Nat → Reader Item
  | 0, cs =>
    match cs with
    | '[' :: _ | '\x7b' :: _ => none
    | cs => readScalar cs
  | depth + 1, cs =>
    match cs with
    | '[' :: rest => do
      let (items, rest) ← readItems (readValue depth) cs.length rest
      return (.array items, rest)
    | '\x7b' :: rest =>
      match dropSpaces rest with
      | '\x7d' :: rest => some (.table .inline [], rest)
      | rest => do
        let (entries, rest) ← readPairs (readValue depth) cs.length [] rest
        return (.table .inline entries, rest)
    | cs => readScalar cs

/-! ## Documents -/

/-- A table header after its opening bracket; the flag tells whether it has two. -/
def readHeader (cs : List Char) : Option ((List String × Bool) × List Char) := do
  match cs with
  | '[' :: cs =>
    let (key, rest) ← readKey cs
    return ((key, true), ← expect? ']' (← expect? ']' rest))
  | cs =>
    let (key, rest) ← readKey cs
    return ((key, false), ← expect? ']' rest)

/-- Reads the lines of a document; each takes one of the `steps`. -/
def readLines : Nat → Draft → List Char → Option Draft
  | 0, _, _ => none
  | steps + 1, draft, cs =>
    match dropSpaces cs with
    | [] => some draft
    | '[' :: rest => do
      let ((key, isArray), rest) ← readHeader rest
      readLines steps (← draft.startTable? key isArray) (← restOfLine? rest)
    | c :: rest => do
      if c = '#' ∨ c = '\n' ∨ c = '\r' then readLines steps draft (← restOfLine? (c :: rest))
      else
        let ((key, item), rest) ← readPair (readValue (nestingLimit - 1)) (c :: rest)
        let draft ← draft.insert? key.dropLast (key.getLast?.getD "") item
        readLines steps draft (← restOfLine? rest)

/-- The root table of a document, which may start with a byte order mark. -/
def parse? (text : String) : Option Item := do
  let cs := match text.toList with
    | '\ufeff' :: cs => cs
    | cs => cs
  let draft ← readLines (cs.length + 1) {} cs
  return .table .header (← draft.finish?)

end SlotIR.Toml
