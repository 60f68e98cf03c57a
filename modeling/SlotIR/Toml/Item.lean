/-!
# TOML documents

The data of a TOML document, and how its tables grow as the document is read. A table remembers how
it came about, because that decides whether a later line may add to it.
-/

namespace SlotIR.Toml

/-- How a table came about. -/
inductive Origin where
  /-- By its own header, or as the root. -/
  | header
  /-- As a step on the way to a table with a header. -/
  | path
  /-- By a dotted key. -/
  | dotted
  /-- Written between braces. -/
  | inline
  /-- By a dotted key between braces. -/
  | inlineDotted
deriving DecidableEq, Repr

namespace Origin

/-- Whether a table was made by a dotted key. -/
def isDotted : Origin → Bool
  | dotted | inlineDotted => true
  | _ => false

/-- Whether a table was only made on the way to another one. -/
def isImplicit : Origin → Bool
  | path | dotted | inlineDotted => true
  | _ => false

/-- Whether a table is a value of the line that wrote it. -/
def isInline : Origin → Bool
  | inline | inlineDotted => true
  | _ => false

end Origin

/-- A value, a table or an array of tables. What floats and dates say is not kept. -/
inductive Item where
  | string (s : String)
  | integer (n : Int)
  | float
  | boolean (b : Bool)
  | datetime
  | array (items : List Item)
  | table (origin : Origin) (entries : List (String × Item))
  /-- An array of tables, the latest first. -/
  | tables (items : List (List (String × Item)))
deriving Repr

/-- The entries of a table, in the order of their first mention. -/
abbrev Entries := List (String × Item)

namespace Entries

/-- Adds an entry under a new key. -/
def add? (es : Entries) (key : String) (item : Item) : Option Entries :=
  if (es.lookup key).isSome then none else some (es ++ [(key, item)])

/-- Puts an item in the place of the one under a key. -/
def replace (es : Entries) (key : String) (item : Item) : Entries :=
  es.map fun (k, i) => if k = key then (k, item) else (k, i)

/-- Adds an entry to the table that a dotted key leads to; tables on the way are made with the origin
`made`. The table at the end must itself have been made by dotted keys, which `reached` tells. -/
def insert? (made : Origin) (key : String) (item : Item) :
    List String → Bool → Entries → Option Entries
  | [], reached, es => if reached then es.add? key item else none
  | k :: ks, _, es =>
    match es.lookup k with
    | none => do
      let sub ← insert? made key item ks true []
      return es ++ [(k, .table made sub)]
    | some (.table origin sub) => do
      if origin.isImplicit && origin.isInline == made.isInline then
        let sub ← insert? made key item ks origin.isDotted sub
        return es.replace k (.table origin sub)
      else none
    | some (.tables (last :: older)) => do
      let last ← insert? made key item ks false last
      return es.replace k (.tables (last :: older))
    | some _ => none

/-- Changes the entries of the table that a header leads to, with tables made on the way. -/
def updateAt? {α : Type} (change : Entries → Option (Entries × α)) :
    List String → Entries → Option (Entries × α)
  | [], es => change es
  | k :: ks, es =>
    match es.lookup k with
    | none => do
      let (sub, a) ← updateAt? change ks []
      return (es ++ [(k, .table .path sub)], a)
    | some (.table origin sub) => do
      if origin.isInline then none
      else
        let (sub, a) ← updateAt? change ks sub
        return (es.replace k (.table origin sub), a)
    | some (.tables (last :: older)) => do
      let (last, a) ← updateAt? change ks last
      return (es.replace k (.tables (last :: older)), a)
    | some _ => none

/-- Takes out the table under a key for its header to continue: a new one, or one that was only made
on the way to another header. -/
def openTable? (key : String) (es : Entries) : Option (Entries × Entries) :=
  match es.lookup key with
  | none => some (es, [])
  | some (.table .path sub) => some (es.filter (·.1 ≠ key), sub)
  | some _ => none

/-- Makes sure that there is an array of tables under a key. -/
def openTables? (key : String) (es : Entries) : Option (Entries × Entries) :=
  match es.lookup key with
  | none => some (es ++ [(key, .tables [])], [])
  | some (.tables _) => some (es, [])
  | some _ => none

/-- Puts a finished table under its key. -/
def closeTable? (key : String) (table : Entries) (es : Entries) : Option (Entries × Unit) := do
  return (← es.add? key (.table .header table), ())

/-- Adds a finished table to the array of tables under its key. -/
def closeTables? (key : String) (table : Entries) (es : Entries) : Option (Entries × Unit) :=
  match es.lookup key with
  | some (.tables ts) => some (es.replace key (.tables (table :: ts)), ())
  | _ => none

end Entries

/-- A document while it is read: its finished tables, and the one that lines are added to. -/
structure Draft where
  root : Entries := []
  /-- Where the current table belongs; empty for the root itself. -/
  path : List String := []
  isArray : Bool := false
  current : Entries := []

namespace Draft

/-- Puts the current table where it belongs. -/
def finish? (d : Draft) : Option Entries :=
  match d.path.getLast? with
  | none => some d.current
  | some key =>
    let close := if d.isArray then Entries.closeTables? key d.current
      else Entries.closeTable? key d.current
    (Entries.updateAt? close d.path.dropLast d.root).map (·.1)

/-- Starts the table of a header. -/
def startTable? (d : Draft) (path : List String) (isArray : Bool) : Option Draft := do
  let root ← d.finish?
  let key ← path.getLast?
  let opened := if isArray then Entries.openTables? key else Entries.openTable? key
  let (root, current) ← Entries.updateAt? opened path.dropLast root
  return { root, path, isArray, current }

/-- Adds the line of a dotted key. -/
def insert? (d : Draft) (path : List String) (key : String) (item : Item) : Option Draft := do
  return { d with current := ← Entries.insert? .dotted key item path true d.current }

end Draft

namespace Item

/-- The items of a record with named fields: by name in a table, by position in an array. -/
def fields? (names : List String) : Item → Option (List (Option Item))
  | table _ entries => some (names.map fun name => entries.lookup name)
  | array items => some (names.mapIdx fun i _ => items[i]?)
  | tables items => some (names.mapIdx fun i _ => items.reverse[i]?.map (table .header))
  | datetime => some (names.map fun _ => none)
  | _ => none

/-- The elements of an array. -/
def elements? : Item → Option (List Item)
  | array items => some items
  | tables items => some (items.reverse.map (table .header))
  | _ => none

def string? : Item → Option String
  | string s => some s
  | _ => none

def boolean? : Item → Option Bool
  | boolean b => some b
  | _ => none

/-- A natural number below a bound. -/
def natBelow? (bound : Nat) : Item → Option Nat
  | integer n => if 0 ≤ n ∧ n < bound then some n.toNat else none
  | _ => none

/-- Whether an item holds nothing. -/
def isEmpty : Item → Bool
  | array [] | table _ [] | tables [] => true
  | _ => false

/-- The name that selects one of several alternatives: a string, or the only key of a table whose
entry is empty. -/
def variant? : Item → Option String
  | string s => some s
  | table _ [(key, item)] => if item.isEmpty then some key else none
  | _ => none

end Item

end SlotIR.Toml
