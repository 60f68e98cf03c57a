import SlotIR.Scope
import SlotIR.Lowering.Error

/-!
# Building modules

A builder holds the module under construction, the open scopes, and a cursor: the block that new
instructions are appended to. A block never grows after its terminator; code that follows one is
unreachable and goes to a block of its own. A step that fails keeps what was built before it.
-/

namespace SlotIR

/-- The block that instructions are appended to. -/
structure Cursor where
  function : Nat
  block : Nat
deriving DecidableEq, Repr

/-- A module under construction. -/
structure Builder where
  module : Module
  scopes : ScopeChain := {}
  cursor : Option Cursor := none
deriving DecidableEq, Repr

/-- A step of building. -/
abbrev BuildM := EStateM (Fault Lowering.Error) Builder

namespace Builder

open Lowering (Error Cause Malformation)

/-- An empty module with a name. -/
def fresh (name : String) : Builder := { module := { name } }

/-! ## Stopping -/

/-- Stops with an error. -/
def fail {α : Type} (span : Option Syntax.Span) (cause : Cause) : BuildM α :=
  throw (.error { span, cause })

/-- Stops because a tree is malformed. -/
def malformed {α : Type} (span : Option Syntax.Span) (how : Malformation) : BuildM α :=
  fail span (.malformed how)

/-- Goes on with the value of a pure computation, or stops with its error. -/
def liftError {α : Type} : Except Error α → BuildM α
  | .ok a => pure a
  | .error e => throw (.error e)

/-- Goes on with a table entry, or stops because there is none. -/
def present {α : Type} : Except Missing α → BuildM α
  | .ok a => pure a
  | .error e => throw (.missing e)

/-! ## Module and cursor -/

/-- The function with an index. -/
def function (index : Nat) : BuildM Function := do
  present ((← get).module.function index)

/-- Changes an existing function. -/
def modifyFunction (index : Nat) (change : Function → Function) : BuildM Unit := do
  let _ ← function index
  modify fun b => { b with module := b.module.modifyFunction index change }

/-- Adds a function without a body and returns its index. -/
def addFunction (name : String) (signature : Signature) : BuildM Nat :=
  modifyGet fun b =>
    (b.module.functions.length, { b with module := b.module.addFunction name signature })

/-- Adds a global and returns its index. -/
def addGlobal (g : Global) : BuildM Nat :=
  modifyGet fun b => (b.module.globals.length, { b with module := b.module.addGlobal g })

/-- Moves the cursor and returns where it was. -/
def setCursor (cursor : Option Cursor) : BuildM (Option Cursor) :=
  modifyGet fun b => (b.cursor, { b with cursor })

/-- Where the cursor is; without a function body there is no place for statements. -/
def current : BuildM Cursor := do
  match (← get).cursor with
  | some c => return c
  | none => malformed none .statementOutside

/-! ## Blocks and slots -/

/-- Gives a function an entry block and moves the cursor there; returns where it was. -/
def enterFunction (index : Nat) (entryName : String) : BuildM (Option Cursor) := do
  let f ← function index
  let block := f.blocks.length
  modifyFunction index fun f =>
    { f with blocks := f.blocks ++ [{ name := entryName }], layout := f.layout ++ [block] }
  setCursor (some { function := index, block })

/-- Moves the cursor to the end of a block of the current function. -/
def positionAtEnd (block : Nat) : BuildM Unit := do
  let c ← current
  modify fun b => { b with cursor := some { c with block } }

/-- Creates a block of the current function that is not part of its body yet. -/
def createBlock (name : String) : BuildM Nat := do
  let c ← current
  let f ← function c.function
  modifyFunction c.function fun f => { f with blocks := f.blocks ++ [{ name }] }
  return f.blocks.length

/-- Puts a block at the end of the body, if it is not part of it already. -/
def attachBlock (block : Nat) : BuildM Unit := do
  let c ← current
  modifyFunction c.function fun f =>
    if f.isAttached block then f else { f with layout := f.layout ++ [block] }

/-- Creates a block at the end of the body. -/
def appendBlock (name : String) : BuildM Nat := do
  let block ← createBlock name
  attachBlock block
  return block

/-- Adds a stack slot to the current function and returns its address. -/
def addSlot (name : Option String) (ty : Ty) (origin : SlotOrigin) : BuildM Value := do
  let c ← current
  let f ← function c.function
  modifyFunction c.function fun f => { f with slots := f.slots ++ [{ name, ty, origin }] }
  return ⟨.slot f.slots.length, .ptr ty⟩

/-! ## Instructions -/

/-- Whether the block at the cursor has its terminator. -/
def isTerminated : BuildM Bool := do
  match (← get).cursor with
  | none => return false
  | some c =>
    let f ← function c.function
    return match f.blocks[c.block]? with
      | some b => b.terminator.isSome
      | none => false

/-- Makes sure that the cursor is at an open block. -/
def openBlock : BuildM Cursor := do
  if ← isTerminated then
    let block ← appendBlock "dead"
    positionAtEnd block
  current

/-- Changes an existing block. -/
def modifyBlock (c : Cursor) (change : Block → Block) : BuildM Unit := do
  let f ← function c.function
  let _ ← present (f.block c.block)
  modifyFunction c.function fun f => { f with blocks := f.blocks.modify c.block change }

/-- Appends an instruction; it gets a result unless its type is `void`. -/
def pushInst (ty : Ty) (action : Action) : BuildM (Option Operand) := do
  let c ← openBlock
  let f ← function c.function
  if ty = .void then
    modifyBlock c fun b => { b with insts := b.insts ++ [{ result := none, ty, action }] }
    return none
  else
    let id := f.nextValue
    modifyBlock c fun b => { b with insts := b.insts ++ [{ result := some id, ty, action }] }
    modifyFunction c.function fun f => { f with nextValue := id + 1 }
    return some (.temp id)

/-- Ends the block at the cursor. -/
def terminate (t : Terminator) : BuildM Unit := do
  let c ← openBlock
  modifyBlock c fun b => { b with terminator := some t }

/-- The result of an instruction that must have one. -/
def typedResult (result : Option Operand) (ty : Ty) : BuildM Value :=
  match result with
  | some operand => pure { operand, ty }
  | none => malformed none .noResult

def load (address : Value) : BuildM Value := do
  match address.ty.pointee? with
  | none => malformed none (.loadThroughValue address.ty)
  | some ty => typedResult (← pushInst ty (.load address.operand)) ty

def store (address value : Value) : BuildM Unit := do
  let _ ← pushInst .void (.store address.operand value.operand)

def cast (op : CastOp) (value : Value) (ty : Ty) : BuildM Value := do
  typedResult (← pushInst ty (.cast op value.operand)) ty

def compare (lhs rhs : Value) : BuildM Value := do
  typedResult (← pushInst .bool (.compare lhs.operand rhs.operand)) .bool

/-- Appends a call; a function without a return value yields nothing. -/
def call (index : Nat) (args : List Operand) : BuildM (Option Value) := do
  let f ← function index
  let ty := f.signature.ret
  let result ← pushInst ty (.call index args)
  return result.map fun operand => { operand, ty }

def jump (target : Nat) : BuildM Unit :=
  terminate (.jump target)

def branch (cond : Value) (onTrue onFalse : Nat) : BuildM Unit :=
  terminate (.branch cond.operand onTrue onFalse)

def ret (value : Option Value) : BuildM Unit :=
  terminate (.ret (value.map (·.operand)))

def unreachable : BuildM Unit :=
  terminate .unreachable

/-! ## Scopes -/

def pushScope (parent : Option ScopeId) : BuildM ScopeId :=
  modifyGet fun b =>
    let (id, scopes) := b.scopes.push parent
    (id, { b with scopes })

/-- Closes a scope and tells whether it was live. -/
def popScope (id : ScopeId) : BuildM Bool :=
  modifyGet fun b => ((b.scopes.get? id).isSome, { b with scopes := b.scopes.pop id })

/-- Binds a name in a scope; `false` if that is not possible. -/
def define (id : ScopeId) (name : String) (value : Value) : BuildM Bool :=
  modifyGet fun b =>
    match b.scopes.define? id name value with
    | some scopes => (true, { b with scopes })
    | none => (false, b)

/-- Runs `body` in a new scope inside `parent`, and closes the scope however it ends. -/
def inChildScope {α : Type} (parent : ScopeId) (body : ScopeId → BuildM α) : BuildM α := fun b =>
  let (id, scopes) := b.scopes.push (some parent)
  match body id { b with scopes } with
  | .ok a b' => .ok a { b' with scopes := b'.scopes.pop id }
  | .error e b' => .error e { b' with scopes := b'.scopes.pop id }

end Builder

end SlotIR
