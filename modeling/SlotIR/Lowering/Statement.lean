import SlotIR.Lowering.Expression

/-!
# Lowering statements

Sequences, variables, conditionals, returns and assignments. Each takes the lowering of the nodes
below it as an argument.
-/

namespace SlotIR.Lowering

open Syntax (Node)
open Builder

/-- Lowers nodes in order and drops what they yield. -/
def lowerAll (lower : Lower) (scope : ScopeId) : List Node → BuildM Unit
  | [] => pure ()
  | n :: ns => do
    let _ ← lower n scope
    lowerAll lower scope ns

/-- Lowers the children of a node in order. -/
def lowerSequence (lower : Lower) (n : Node) (scope : ScopeId) : BuildM Lowered := do
  lowerAll lower scope n.children
  return .unit

/-! ## Variables -/

/-- A name is defined for the second time. -/
def duplicateVariable {α : Type} (name : Node) : BuildM α :=
  fail name.span (.duplicateDefinition .var name.text)

/-- Binds a variable to its storage. -/
def bindVariable (name : Node) (address : Value) (scope : ScopeId) : BuildM Unit := do
  if ← define scope name.text address then return () else duplicateVariable name

/-- Lowers a variable of a function. The initializer does not see the variable. -/
def lowerLocal (lower : Lower) (name : Node) (ty : Ty) (init : Option Node) (scope : ScopeId) :
    BuildM Unit := do
  if (← get).scopes.binds scope name.text then duplicateVariable name
  else
    let slot ← addSlot (some name.text) ty .var
    match init with
    | none => bindVariable name slot scope
    | some init =>
      let v ← lowerValue lower init scope
      expectType v ty .initializer (init.spanOr name.span)
      store slot v
      bindVariable name slot scope

/-- The initial value of a global: a literal of its type, or zero. -/
def globalInit (name : Node) (ty : Ty) (init : Option Node) : Except Error Scalar :=
  match init with
  | none =>
    match Scalar.zero? ty with
    | some v => .ok v
    | none => Syntax.errorAt name.span (.typeMismatch .global .arithmeticType ty)
  | some init =>
    let literal := init.unwrapped
    match literal.literal? with
    | none => Syntax.errorAt name.span (.nonConstantInitializer name.text)
    | some v =>
      if v.ty = ty then .ok v
      else
        Syntax.errorAt (literal.spanOr name.span) (.typeMismatch .initializer (.exactly ty) v.ty)

/-- Lowers a variable of file scope. -/
def lowerGlobal (name : Node) (ty : Ty) (init : Option Node) (scope : ScopeId) :
    BuildM Unit := do
  let m := (← get).module
  if (m.globalIndex? name.text).isSome ∨ (m.functionIndex? name.text).isSome then
    duplicateVariable name
  else
    let init ← liftError (globalInit name ty init)
    let index ← addGlobal { name := name.text, ty, init }
    bindVariable name ⟨.global index, .ptr ty⟩ scope

/-- Lowers a declarator that names a variable. -/
def lowerVariable (lower : Lower) (ty : Ty) (d : Node) (scope : ScopeId) : BuildM Unit := do
  match d.identifier? with
  | none => malformed d.span .unnamedDeclarator
  | some name =>
    if ty = .void then fail name.span (.typeMismatch .declaration .objectType ty)
    else
      match (← get).cursor with
      | none => lowerGlobal name ty d.initializer? scope
      | some _ => lowerLocal lower name ty d.initializer? scope

/-! ## Control -/

/-- Goes to a block, unless the block at the cursor has its terminator already. -/
def fallThrough (target : Nat) : BuildM Unit := do
  if ← isTerminated then return () else jump target

/-- Lowers an arm of a conditional in a scope of its own. Afterwards control goes to `merge` from
wherever the arm ended. -/
def lowerArm (lower : Lower) (arm : Node) (scope : ScopeId) (block merge : Nat) : BuildM Unit := do
  positionAtEnd block
  let _ ← inChildScope scope fun inner => lower arm inner
  fallThrough merge

/-- Lowers a conditional. -/
def lowerIf (lower : Lower) (n : Node) (scope : ScopeId) : BuildM Lowered := do
  match n.nth? 0, n.nth? 1 with
  | some condNode, some thenNode =>
    let v ← lowerValue lower condNode scope
    let cond ← lowerCondition v (condNode.spanOr n.span)
    let thenBlock ← appendBlock "then"
    match n.nth? 2 with
    | none =>
      let merge ← createBlock "merge"
      branch cond thenBlock merge
      lowerArm lower thenNode scope thenBlock merge
      attachBlock merge
      positionAtEnd merge
    | some elseNode =>
      let elseBlock ← createBlock "else"
      let merge ← createBlock "merge"
      branch cond thenBlock elseBlock
      lowerArm lower thenNode scope thenBlock merge
      attachBlock elseBlock
      lowerArm lower elseNode scope elseBlock merge
      attachBlock merge
      positionAtEnd merge
    return .unit
  | _, _ => malformed n.span .incompleteIf

/-- Lowers a return. Its value is converted to the return type. -/
def lowerReturn (lower : Lower) (n : Node) (scope : ScopeId) : BuildM Lowered := do
  match (← get).cursor with
  | none => malformed n.span .returnOutside
  | some c =>
    let f ← function c.function
    let ty := f.signature.ret
    match n.nth? 0 with
    | none =>
      if ty = .void then
        ret none
        return .unit
      else fail n.span (.typeMismatch .ret (.exactly ty) .void)
    | some e =>
      let v ← lowerValue lower e scope
      if ty = .void then fail (e.spanOr n.span) (.typeMismatch .ret (.exactly ty) v.ty)
      else
        let v ← convert v ty .ret (e.spanOr n.span)
        ret (some v)
        return .unit

/-- Lowers an assignment, which yields the value written. -/
def lowerAssignment (lower : Lower) (n : Node) (scope : ScopeId) : BuildM Lowered := do
  match n.nth? 0, n.nth? 1 with
  | some targetNode, some e =>
    let target := targetNode.unwrapped
    if target.kind ≠ .identifier then fail (target.spanOr n.span) (.invalidTarget target.kind)
    else
      let address ← lowerAddress target scope
      let v ← lowerValue lower e scope
      expectType v (address.ty.pointee?.getD .void) .assignment (e.spanOr n.span)
      store address v
      return .value v
  | _, _ => malformed n.span .incompleteAssignment

end SlotIR.Lowering
