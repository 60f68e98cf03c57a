import SlotIR.Lowering.Statement

/-!
# Lowering functions

Declarations, definitions and calls. A definition is verified as soon as its body is closed.
-/

namespace SlotIR.Lowering

open Syntax (Node Span FunctionDeclarator)
open Builder

/-! ## Declarations -/

/-- Registers a function, or finds the declaration with the same signature. -/
def declareFunction (name : Node) (signature : Signature) : BuildM Nat := do
  let m := (← get).module
  if (m.globalIndex? name.text).isSome then
    fail name.span (.duplicateDefinition .function name.text)
  else
    match m.functionIndex? name.text with
    | none => addFunction name.text signature
    | some index =>
      let f ← function index
      if f.signature ≠ signature then
        fail name.span (.signatureConflict name.text f.signature signature)
      else return index

/-- Lowers a declarator that names a function. -/
def lowerPrototype (ret : Ty) (d : Node) : BuildM Unit := do
  let declarator ← liftError d.functionDeclarator
  let _ ← declareFunction declarator.name (declarator.signature ret)

/-- Lowers declarators in order. -/
def lowerDeclarators (lower : Lower) (ty : Ty) (scope : ScopeId) : List Node → BuildM Unit
  | [] => pure ()
  | d :: ds => do
    if d.kind = .functionDeclarator then lowerPrototype ty d else lowerVariable lower ty d scope
    lowerDeclarators lower ty scope ds

/-- Lowers a declaration. -/
def lowerDeclaration (lower : Lower) (n : Node) (scope : ScopeId) : BuildM Lowered := do
  let ty ← liftError n.specifiedType
  lowerDeclarators lower ty scope n.declarators
  return .unit

/-! ## Definitions -/

/-- The names and types of parameters that must all have names. -/
def namedParams (n : Node) (function : String) : List Syntax.Param → Except Error (List (Node × Ty))
  | [] => .ok []
  | p :: ps =>
    match p.name with
    | none => Syntax.errorAt n.span (.malformed (.unnamedParameter function))
    | some name => do
      let rest ← namedParams n function ps
      return (name, p.ty) :: rest

/-- Copies the arguments from position `index` on to slots and binds their names. -/
def spillParams (scope : ScopeId) : Nat → List (Node × Ty) → BuildM Unit
  | _, [] => pure ()
  | index, (name, ty) :: ps => do
    let slot ← addSlot (some name.text) ty (.argument index)
    store slot ⟨.arg index, ty⟩
    bindVariable name slot scope
    spillParams scope (index + 1) ps

/-- Ends the block that a body ends in, where that does not change its meaning: with a return if
there is nothing to return, and as unreachable if control cannot get there. Otherwise the block stays
open. -/
def closeBody (ret : Ty) : BuildM Unit := do
  if ← isTerminated then return ()
  else if ret = .void then Builder.ret none
  else
    match (← get).cursor with
    | none => return ()
    | some c =>
      let f ← function c.function
      if f.entry? ≠ some c.block then
        let predecessors ← present (f.predecessors c.block)
        if predecessors.isEmpty then unreachable else return ()
      else return ()

/-- Lowers the body of the function with an index, with the cursor inside of it only as long. -/
def lowerBody (lower : Lower) (index : Nat) (name : String) (params : List (Node × Ty)) (ret : Ty)
    (body : Node) (scope : ScopeId) : BuildM Unit := do
  modifyFunction index fun f => { f with paramNames := params.map (·.1.text) }
  let previous ← enterFunction index (name ++ "_block")
  let lowered : BuildM Unit := inChildScope scope fun inner => do
    spillParams inner 0 params
    let _ ← lower body inner
    closeBody ret
  fun b =>
    match lowered b with
    | .ok _ b' => .ok () { b' with cursor := previous }
    | .error e b' => .error e { b' with cursor := previous }

/-- Verifies the function with an index. -/
def verifyLowered (index : Nat) : BuildM Unit := do
  match (← get).module.verifyFunction index with
  | .ok () => return ()
  | .error (.error e) => fail none (.verification e)
  | .error (.missing what) => throw (.missing what)
  | .error .exhausted => throw .exhausted

/-- Lowers a function definition. -/
def lowerDefinition (lower : Lower) (n : Node) (scope : ScopeId) : BuildM Lowered := do
  match n.nth? 0, n.child? .functionDeclarator, n.child? .compoundStatement with
  | some specifiers, some declaratorNode, some body =>
    let ret ← liftError specifiers.specifiedType
    let declarator ← liftError declaratorNode.functionDeclarator
    let name := declarator.name
    match (← get).cursor with
    | some c =>
      let outer ← function c.function
      malformed n.span (.nestedDefinition name.text outer.name)
    | none =>
      let params ← liftError (namedParams n name.text declarator.params)
      let index ← declareFunction name (declarator.signature ret)
      let f ← function index
      if f.hasBody then fail name.span (.duplicateDefinition .function name.text)
      else
        lowerBody lower index name.text params ret body scope
        verifyLowered index
        return .function index
  | _, _, _ => malformed n.span .incompleteDefinition

/-! ## Calls -/

/-- Lowers nodes that must yield values, in order. -/
def lowerValues (lower : Lower) (scope : ScopeId) : List Node → BuildM (List Value)
  | [] => pure []
  | n :: ns => do
    let v ← lowerValue lower n scope
    let vs ← lowerValues lower scope ns
    return v :: vs

/-- The values of arguments must have the types of the parameters. -/
def expectTypes (call : Option Span) : List Value → List Ty → List Node → BuildM Unit
  | v :: vs, ty :: tys, n :: ns => do
    expectType v ty .callArgument (n.spanOr call)
    expectTypes call vs tys ns
  | _, _, _ => pure ()

/-- Lowers a call. -/
def lowerCall (lower : Lower) (n : Node) (scope : ScopeId) : BuildM Lowered := do
  match (n.nth? 0).bind Node.identifier? with
  | none => malformed n.span .noCallee
  | some callee =>
    match (← get).module.functionIndex? callee.text with
    | none => fail callee.span (.undefinedFunction callee.text)
    | some index =>
      let argNodes := ((n.child? .argumentExpressionList).map Node.children).getD []
      let args ← lowerValues lower scope argNodes
      let f ← function index
      let needs := f.signature.params.length
      if args.length ≠ needs then fail n.span (.arityMismatch callee.text args.length needs)
      else
        expectTypes n.span args f.signature.params argNodes
        match ← Builder.call index (args.map (·.operand)) with
        | some v => return .value v
        | none => return .unit

end SlotIR.Lowering
