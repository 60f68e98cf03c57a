import SlotIR.Syntax.Node
import SlotIR.Toml.Reader

/-!
# Trees in documents

A syntax tree is stored as a TOML document: each node is a record with a `kind`, and possibly a
`value`, a `span` and `children`. Other fields do not matter.
-/

namespace SlotIR.Syntax

open Toml (Item)

/-- The kind that an item names. -/
def kindOf? (item : Item) : Option Kind := do
  Kind.ofTag? (← item.variant?)

/-- A span: a record of two numbers. -/
def spanOf? (item : Item) : Option Span := do
  match ← item.fields? ["from", "to"] with
  | [some start, some stop] =>
    return { start := ← start.natBelow? (Nat.pow 2 63), stop := ← stop.natBelow? (Nat.pow 2 63) }
  | _ => none

/-- A field that may be absent. -/
def optional {α : Type} (read : Item → Option α) : Option Item → Option (Option α)
  | none => some none
  | some item => (read item).map some

/-- A node of at most the given height. -/
def nodeWithin : Nat → Item → Option Node
  | 0, _ => none
  | height + 1, item => do
    match ← item.fields? ["kind", "value", "span", "children"] with
    | [some kind, value, span, children] =>
      let kind ← kindOf? kind
      let value ← optional Item.string? value
      let span ← optional spanOf? span
      let children ← optional Item.elements? children
      let children ← (children.getD []).mapM (nodeWithin height)
      return .mk kind value span children
    | _ => none

/-- The tree in a document. No node lies deeper than the document has characters. -/
def Node.ofDocument? (text : String) : Option Node := do
  nodeWithin (text.length + 1) (← Toml.parse? text)

end SlotIR.Syntax
