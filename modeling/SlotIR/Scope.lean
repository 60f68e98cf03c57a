import SlotIR.Function

/-!
# Scopes

Lexical scopes, each linked to the one around it. A scope is named by the number of its opening, and
a number is never given twice, so that the name of a closed scope stays without meaning. The live
scopes are kept with the latest first: a parent was opened before its child and stands behind it,
which is why every walk to the root ends.
-/

namespace SlotIR

/-- The number of a scope. -/
abbrev ScopeId := Nat

/-- A scope: the scope around it, and the address bound to each of its names. -/
structure Scope (ι : Type := ScopeId) where
  parent : Option ι
  symbols : List (String × Value) := []
deriving DecidableEq, Repr

namespace Scope

variable {ι : Type}

/-- Whether a name is bound in this very scope. -/
def binds (s : Scope ι) (name : String) : Bool :=
  (s.symbols.lookup name).isSome

/-- Adds a binding. -/
def bind (s : Scope ι) (name : String) (value : Value) : Scope ι :=
  { s with symbols := (name, value) :: s.symbols }

/-- The bindings in the order of their names. -/
def sorted (s : Scope ι) : List (String × Value) :=
  s.symbols.mergeSort fun a b => a.1 ≤ b.1

end Scope

/-- All the scopes that are open, latest first, and how many were ever opened. -/
structure ScopeChain where
  opened : Nat := 0
  live : List (ScopeId × Scope) := []
deriving DecidableEq, Repr

namespace ScopeChain

/-- Opens a scope; without a parent it is a root. -/
def push (c : ScopeChain) (parent : Option ScopeId) : ScopeId × ScopeChain :=
  (c.opened, { opened := c.opened + 1, live := (c.opened, { parent }) :: c.live })

/-- The scope with a number, if it is live. -/
def get? (c : ScopeChain) (id : ScopeId) : Option Scope :=
  c.live.lookup id

/-- Closes a scope; nothing happens if it is not live. -/
def pop (c : ScopeChain) (id : ScopeId) : ScopeChain :=
  { c with live := c.live.filter (·.1 != id) }

/-- Changes the live scope with a number. -/
def update (c : ScopeChain) (id : ScopeId) (change : Scope → Scope) : ScopeChain :=
  { c with live := c.live.map fun (i, s) => if i = id then (i, change s) else (i, s) }

/-- Whether a scope is live and binds a name itself. -/
def binds (c : ScopeChain) (id : ScopeId) (name : String) : Bool :=
  (c.get? id).any (·.binds name)

/-- Binds a name in a scope, unless the scope is closed or binds it already; then `none`. -/
def define? (c : ScopeChain) (id : ScopeId) (name : String) (value : Value) : Option ScopeChain :=
  match c.get? id with
  | none => none
  | some s => if s.binds name then none else some (c.update id (·.bind name value))

/-- The scope among `live` that holds the binding of a name seen from a scope. -/
def ownerIn : List (ScopeId × Scope) → ScopeId → String → Option ScopeId
  | [], _, _ => none
  | (i, s) :: older, id, name =>
    if i = id then
      if s.binds name then some i
      else
        match s.parent with
        | none => none
        | some p => ownerIn older p name
    else ownerIn older id name

/-- The scope that holds the binding of a name seen from a scope. -/
def owner? (c : ScopeChain) (id : ScopeId) (name : String) : Option ScopeId :=
  ownerIn c.live id name

/-- What a name is bound to, seen from a scope. -/
def lookup? (c : ScopeChain) (id : ScopeId) (name : String) : Option Value := do
  let s ← c.get? (← c.owner? id name)
  s.symbols.lookup name

/-- The number of links from a scope toward the root, as long as scopes are live. -/
def depthIn : List (ScopeId × Scope) → ScopeId → Nat
  | [], _ => 0
  | (i, s) :: older, id =>
    if i = id then
      match s.parent with
      | none => 0
      | some p => depthIn older p + 1
    else depthIn older id

/-- The number of scopes between a scope and the root. -/
def depth (c : ScopeChain) (id : ScopeId) : Nat :=
  depthIn c.live id

def size (c : ScopeChain) : Nat := c.live.length

end ScopeChain

end SlotIR
