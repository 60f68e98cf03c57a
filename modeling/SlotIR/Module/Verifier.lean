import SlotIR.Module
import SlotIR.Text.Quoted

/-!
# Verification

Structural and type checks on a module. Temporaries never cross block boundaries: one that is used
must be the result of an earlier instruction of the same block.
-/

namespace SlotIR

/-- What is wrong with an operand or a result. -/
inductive OperandFlaw where
  | undefinedTemp (id : Nat)
  | redefinedTemp (id : Nat)
  | absent (operand : Operand)
  | absentCallee
  /-- An instruction without a value names a result. -/
  | superfluousResult (id : Nat)
  /-- An instruction with a value names no result. -/
  | absentResult (ty : Ty)
deriving DecidableEq, Repr

/-- Which typing rule is broken. -/
inductive TypeFlaw where
  | notAddress (found : Ty)
  | load (ty pointee : Ty)
  | store (ty pointee : Ty)
  | cast (op : CastOp) (source target : Ty)
  | compare (lhs rhs result : Ty)
  | argument (index : Nat) (callee : String) (found needs : Ty)
  | callResult (callee : String) (produces stated : Ty)
  | condition (found : Ty)
  | ret (found needs : Ty)
deriving DecidableEq, Repr

/-- The first violation that verification finds. -/
inductive VerifyError where
  | missingTerminator (function block : String)
  | danglingBranch (function block : String) (target : Nat)
  | entryHasPredecessors (function : String)
  | invalidOperand (function block : String) (flaw : OperandFlaw)
  | typeMismatch (function block : String) (flaw : TypeFlaw)
  | callArity (function callee : String) (found needs : Nat)
  | invalidSlot (function : String) (index : Nat) (ty : Ty)
  | globalInitializer (name : String) (ty init : Ty)
  | duplicateSymbol (name : String)
deriving DecidableEq, Repr

open Text (quoted)

def OperandFlaw.message : OperandFlaw → String
  | undefinedTemp id => s!"%t{id} is used before being defined"
  | redefinedTemp id => s!"%t{id} is defined more than once"
  | absent operand => operand.form ++ " doesn't exist"
  | absentCallee => "call to a function that doesn't exist"
  | superfluousResult id => s!"%t{id} names an instruction without a value"
  | absentResult ty => "instruction producing " ++ ty.text ++ " has no result"

def TypeFlaw.message : TypeFlaw → String
  | notAddress found => "expected an address, found " ++ found.text
  | load ty pointee => "load of " ++ ty.text ++ " through a " ++ pointee.text ++ " slot"
  | store ty pointee => "store of " ++ ty.text ++ " into a " ++ pointee.text ++ " slot"
  | cast op source target =>
    "invalid cast " ++ op.text ++ " " ++ source.text ++ " to " ++ target.text
  | compare lhs rhs result =>
    "fcmp needs float operands and an i1 result, found " ++ lhs.text ++ ", " ++ rhs.text ++
      " -> " ++ result.text
  | argument index callee found needs =>
    s!"argument {index} of call to " ++ quoted callee ++ " is " ++ found.text ++ ", needs " ++
      needs.text
  | callResult callee produces stated =>
    "call to " ++ quoted callee ++ " produces " ++ produces.text ++ ", annotated as " ++
      stated.text
  | condition found => "branch condition has type " ++ found.text ++ ", needs i1"
  | ret found needs => "returns " ++ found.text ++ ", function returns " ++ needs.text

def VerifyError.message : VerifyError → String
  | missingTerminator function block =>
    "block " ++ quoted block ++ " of function " ++ quoted function ++ " has no terminator"
  | danglingBranch function block target =>
    "block " ++ quoted block ++ " of function " ++ quoted function ++
      s!" branches to block {target}, which is not part of the function body"
  | entryHasPredecessors function =>
    "the entry block of function " ++ quoted function ++ " has predecessors"
  | invalidOperand function block flaw =>
    "invalid operand in block " ++ quoted block ++ " of function " ++ quoted function ++ ": " ++
      flaw.message
  | typeMismatch function block flaw =>
    "type mismatch in block " ++ quoted block ++ " of function " ++ quoted function ++ ": " ++
      flaw.message
  | callArity function callee found needs =>
    "call to " ++ quoted callee ++ " in function " ++ quoted function ++
      s!" passes {found} arguments, needs {needs}"
  | invalidSlot function index ty =>
    s!"local {index} of function " ++ quoted function ++ " has invalid type " ++ ty.text
  | globalInitializer name ty init =>
    "global " ++ quoted name ++ " is declared as " ++ ty.text ++ " but initialized with a " ++
      init.text
  | duplicateSymbol name => "symbol " ++ quoted name ++ " is defined more than once"

/-- The function in which a violation lies. -/
def VerifyError.function? : VerifyError → Option String
  | missingTerminator function _ | danglingBranch function _ _ | entryHasPredecessors function
  | invalidOperand function _ _ | typeMismatch function _ _ | callArity function _ _ _
  | invalidSlot function _ _ => some function
  | globalInitializer _ _ _ | duplicateSymbol _ => none

/-- The outcome of a check. -/
abbrev Checked (α : Type) := Except (Fault VerifyError) α

namespace Checked

/-- A rule is broken. -/
def violation {α : Type} (e : VerifyError) : Checked α := .error (.error e)

/-- Looks up a table entry during a check. -/
def present {α : Type} : Except Missing α → Checked α
  | .ok a => .ok a
  | .error e => .error (.missing e)

end Checked

/-- Whether a conversion may go from one type to another. -/
def CastOp.allows (op : CastOp) (source target : Ty) : Bool :=
  match op with
  | signedToFloat | unsignedToFloat => source.intWidth?.isSome && target.isFloat
  | floatToSigned | floatToUnsigned => source.isFloat && target.intWidth?.isSome
  | zeroExtend =>
    match source.intWidth?, target.intWidth? with
    | some a, some b => a < b
    | _, _ => false
  | truncate =>
    match source.intWidth?, target.intWidth? with
    | some a, some b => b < a
    | _, _ => false

namespace Module

open Checked

/-! ## Operands -/

section block

variable (m : Module) (f : Function) (b : Block)

/-- An operand or a result in the block `b` is wrong. -/
def invalid {α : Type} (flaw : OperandFlaw) : Checked α :=
  violation (.invalidOperand f.name b.name flaw)

/-- A typing rule is broken in the block `b`. -/
def mismatch {α : Type} (flaw : TypeFlaw) : Checked α :=
  violation (.typeMismatch f.name b.name flaw)

/-- The type of an operand, where the temporaries in `defined` can be used. -/
def checkOperand (defined : List Nat) (o : Operand) : Checked Ty :=
  let resolved : Checked Ty :=
    match m.operandType? f o with
    | some t => .ok t
    | none => invalid f b (.absent o)
  match o with
  | .temp id => if defined.contains id then resolved else invalid f b (.undefinedTemp id)
  | _ => resolved

/-- The type of what is stored at the address `o`. -/
def checkAddress (defined : List Nat) (o : Operand) : Checked Ty := do
  let t ← m.checkOperand f b defined o
  match t with
  | .ptr pointee => return pointee
  | found => mismatch f b (.notAddress found)

/-- An instruction without a value must not name a result. -/
def checkNoResult (i : Inst) : Checked Unit :=
  match i.result with
  | some id => invalid f b (.superfluousResult id)
  | none => .ok ()

/-- The arguments of a call from position `index` on have the types of the parameters. -/
def checkArgs (defined : List Nat) (callee : String) :
    Nat → List Operand → List Ty → Checked Unit
  | index, arg :: args, param :: params => do
    let t ← m.checkOperand f b defined arg
    if t ≠ param then mismatch f b (.argument index callee t param)
    else checkArgs defined callee (index + 1) args params
  | _, _, _ => .ok ()

/-! ## Instructions -/

/-- The rule of what an instruction does. -/
def checkAction (defined : List Nat) (i : Inst) : Checked Unit :=
  match i.action with
  | .load address => do
    let pointee ← m.checkAddress f b defined address
    if pointee ≠ i.ty then mismatch f b (.load i.ty pointee) else return ()
  | .store address value => do
    let pointee ← m.checkAddress f b defined address
    let t ← m.checkOperand f b defined value
    if pointee ≠ t then mismatch f b (.store t pointee) else checkNoResult f b i
  | .cast op value => do
    let source ← m.checkOperand f b defined value
    if op.allows source i.ty then return () else mismatch f b (.cast op source i.ty)
  | .compare lhs rhs => do
    let l ← m.checkOperand f b defined lhs
    let r ← m.checkOperand f b defined rhs
    if l ≠ .float ∨ r ≠ .float ∨ i.ty ≠ .bool then mismatch f b (.compare l r i.ty) else return ()
  | .call callee args =>
    match m.functions[callee]? with
    | none => invalid f b .absentCallee
    | some g => do
      if args.length ≠ g.signature.params.length then
        violation (.callArity f.name g.name args.length g.signature.params.length)
      else
        m.checkArgs f b defined g.name 0 args g.signature.params
        if g.signature.ret ≠ i.ty then mismatch f b (.callResult g.name g.signature.ret i.ty)
        else if i.ty = .void then checkNoResult f b i
        else return ()

/-- The rule of an instruction: that of its action, and that a value has a name. -/
def checkInst (defined : List Nat) (i : Inst) : Checked Unit := do
  m.checkAction f b defined i
  if i.ty ≠ .void ∧ i.result = none then invalid f b (.absentResult i.ty) else return ()

/-- Checks instructions in order. `seen` are the results of the function so far and `defined` those
of the block; both are returned with the new ones. -/
def checkInsts : List Inst → List Nat → List Nat → Checked (List Nat × List Nat)
  | [], seen, defined => .ok (seen, defined)
  | i :: is, seen, defined => do
    m.checkInst f b defined i
    match i.result with
    | none => checkInsts is seen defined
    | some id =>
      if seen.contains id then invalid f b (.redefinedTemp id)
      else checkInsts is (id :: seen) (id :: defined)

/-! ## Blocks -/

/-- Control only goes to blocks of the body. -/
def checkTargets : List Nat → Checked Unit
  | [] => .ok ()
  | target :: targets =>
    if f.isAttached target then checkTargets targets
    else violation (.danglingBranch f.name b.name target)

/-- The typing rule of the end of a block. -/
def checkTerminator (defined : List Nat) : Terminator → Checked Unit
  | .branch cond _ _ => do
    let t ← m.checkOperand f b defined cond
    if t ≠ .bool then mismatch f b (.condition t) else return ()
  | .ret (some v) => do
    let t ← m.checkOperand f b defined v
    let ret := f.signature.ret
    if t ≠ ret ∨ ret = .void then mismatch f b (.ret t ret) else return ()
  | .ret none =>
    let ret := f.signature.ret
    if ret ≠ .void then mismatch f b (.ret .void ret) else .ok ()
  | .jump _ | .unreachable => .ok ()

/-- Checks a block; the results of the function so far are returned with those of the block. -/
def checkBlock (seen : List Nat) : Checked (List Nat) := do
  let (seen, defined) ← m.checkInsts f b b.insts seen []
  match b.terminator with
  | none => violation (.missingTerminator f.name b.name)
  | some t =>
    checkTargets f b t.successors
    m.checkTerminator f b defined t
    return seen

end block

/-! ## Functions and modules -/

/-- Checks the blocks of a layout in order. -/
def checkBlocks (m : Module) (f : Function) : List Nat → List Nat → Checked Unit
  | [], _ => .ok ()
  | i :: is, seen => do
    let b ← present (f.block i)
    let seen ← m.checkBlock f b seen
    m.checkBlocks f is seen

/-- Slots hold values of arithmetic types. -/
def checkSlots (f : Function) : Nat → List Slot → Checked Unit
  | _, [] => .ok ()
  | index, s :: ss =>
    if s.ty.isArithmetic then checkSlots f (index + 1) ss
    else violation (.invalidSlot f.name index s.ty)

/-- Control never returns to the entry. -/
def checkEntry (f : Function) (entry : Nat) : Checked Unit := do
  let predecessors ← present (f.predecessors entry)
  if predecessors.isEmpty then return () else violation (.entryHasPredecessors f.name)

/-- Verifies a function. A declaration always passes. -/
def verifyBody (m : Module) (f : Function) : Checked Unit :=
  match f.layout with
  | [] => .ok ()
  | entry :: _ => do
    checkSlots f 0 f.slots
    checkEntry f entry
    m.checkBlocks f f.layout []

/-- Verifies the function with an index. -/
def verifyFunction (m : Module) (index : Nat) : Checked Unit := do
  let f ← present (m.function index)
  m.verifyBody f

/-- Verifies globals in order; their names are added to `names`. -/
def verifyGlobals : List Global → List String → Checked (List String)
  | [], names => .ok names
  | g :: gs, names =>
    if names.contains g.name then violation (.duplicateSymbol g.name)
    else if g.init.ty ≠ g.ty then violation (.globalInitializer g.name g.ty g.init.ty)
    else verifyGlobals gs (g.name :: names)

/-- Verifies functions in order, the first of which has the index `index`. No name is in `names` or
stands for another function. -/
def verifyFunctions (m : Module) : Nat → List Function → List String → Checked Unit
  | _, [], _ => .ok ()
  | index, f :: fs, names => do
    if names.contains f.name ∨ m.functionIndex? f.name ≠ some index then
      violation (.duplicateSymbol f.name)
    else
      m.verifyBody f
      m.verifyFunctions (index + 1) fs (f.name :: names)

/-- Verifies a whole module: every global, every function, and that no name is used twice. -/
def verify (m : Module) : Checked Unit := do
  let names ← verifyGlobals m.globals []
  m.verifyFunctions 0 m.functions names

end Module

end SlotIR
