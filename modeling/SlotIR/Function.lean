import SlotIR.Scalar
import SlotIR.Fault

/-!
# Functions

A function keeps every variable in a stack slot and computes in basic blocks. Blocks are created
first and become part of the body when the layout names them; the first one laid out is the entry.
-/

namespace SlotIR

/-- What an instruction refers to. -/
inductive Operand where
  | const (value : Scalar)
  /-- An argument of the running function, by position. -/
  | arg (index : Nat)
  /-- The result of an instruction of the same function. -/
  | temp (id : Nat)
  /-- The address of a stack slot. -/
  | slot (index : Nat)
  /-- The address of a global. -/
  | global (index : Nat)
deriving DecidableEq, Repr, Inhabited

namespace Operand

/-- The text of an operand in messages. -/
def form : Operand → String
  | const v => "Const(" ++ v.constantForm ++ ")"
  | arg i => s!"Arg({i})"
  | temp i => s!"Temp({i})"
  | slot i => s!"Local({i})"
  | global i => s!"Global({i})"

end Operand

/-- An operand with its type. -/
structure Value where
  operand : Operand
  ty : Ty
deriving DecidableEq, Repr, Inhabited

/-- A constant as a typed operand. -/
def Value.const (v : Scalar) : Value := ⟨.const v, v.ty⟩

/-- A conversion between scalar types. -/
inductive CastOp where
  | signedToFloat
  | unsignedToFloat
  | floatToSigned
  | floatToUnsigned
  | zeroExtend
  | truncate
deriving DecidableEq, Repr, Inhabited

/-- The mnemonic of a conversion. -/
def CastOp.text : CastOp → String
  | signedToFloat => "sitofp"
  | unsignedToFloat => "uitofp"
  | floatToSigned => "fptosi"
  | floatToUnsigned => "fptoui"
  | zeroExtend => "zext"
  | truncate => "trunc"

/-- What an instruction does. -/
inductive Action where
  /-- Reads what is stored at an address. -/
  | load (address : Operand)
  /-- Writes a value to an address. -/
  | store (address value : Operand)
  | cast (op : CastOp) (value : Operand)
  /-- Whether two floats are ordered and different. -/
  | compare (lhs rhs : Operand)
  | call (callee : Nat) (args : List Operand)
deriving DecidableEq, Repr

/-- An instruction. Its type is the type of its result, `void` if it has none. -/
structure Inst where
  result : Option Nat
  ty : Ty
  action : Action
deriving DecidableEq, Repr

/-- How a block ends. -/
inductive Terminator where
  | jump (target : Nat)
  | branch (cond : Operand) (onTrue onFalse : Nat)
  | ret (value : Option Operand)
  | unreachable
deriving DecidableEq, Repr

/-- The blocks that control can go to from the end of a block. -/
def Terminator.successors : Terminator → List Nat
  | jump target => [target]
  | branch _ onTrue onFalse => [onTrue, onFalse]
  | ret _ | unreachable => []

/-- A basic block; it is open while it has no terminator. -/
structure Block where
  name : String
  insts : List Inst := []
  terminator : Option Terminator := none
deriving DecidableEq, Repr

/-- What a stack slot was made for. -/
inductive SlotOrigin where
  | var
  /-- Holds a copy of the argument at a position. -/
  | argument (index : Nat)
deriving DecidableEq, Repr

/-- A stack slot. -/
structure Slot where
  name : Option String
  ty : Ty
  origin : SlotOrigin
deriving DecidableEq, Repr

/-- A function, declared only as long as its layout is empty. -/
structure Function where
  name : String
  signature : Signature
  /-- The parameter names of the definition. -/
  paramNames : List String := []
  slots : List Slot := []
  /-- Every block created for the function. -/
  blocks : List Block := []
  /-- The blocks that make up the body, in order. -/
  layout : List Nat := []
  /-- The number that the next result gets. -/
  nextValue : Nat := 0
deriving DecidableEq, Repr

namespace Function

def hasBody (f : Function) : Bool := !f.layout.isEmpty

/-- The block at which the function starts. -/
def entry? (f : Function) : Option Nat := f.layout.head?

/-- Whether a block is part of the body. -/
def isAttached (f : Function) (block : Nat) : Bool := f.layout.contains block

/-- The block with an index. -/
def block (f : Function) (index : Nat) : Except Missing Block :=
  match f.blocks[index]? with
  | some b => .ok b
  | none => .error (.block index)

/-- The blocks of a layout, with their indices. -/
def blocksAt (f : Function) : List Nat → Except Missing (List (Nat × Block))
  | [] => .ok []
  | i :: is =>
    match f.block i with
    | .error e => .error e
    | .ok b =>
      match f.blocksAt is with
      | .error e => .error e
      | .ok bs => .ok ((i, b) :: bs)

/-- Whether control can go from the end of a block to the block with index `target`. -/
def goesTo (b : Block) (target : Nat) : Bool :=
  match b.terminator with
  | some t => t.successors.contains target
  | none => false

/-- The blocks of the body from which control can go to `target`. -/
def predecessors (f : Function) (target : Nat) : Except Missing (List Nat) :=
  match f.blocksAt f.layout with
  | .error e => .error e
  | .ok bs => .ok ((bs.filter fun (_, b) => goesTo b target).map (·.1))

/-- The results of all instructions of all blocks, in the order of the blocks, with their types. -/
def results (f : Function) : List (Nat × Ty) :=
  (f.blocks.flatMap (·.insts)).filterMap fun i => i.result.map (·, i.ty)

/-- The type of the result with a number: that of the last instruction that has it. -/
def resultType? (f : Function) (id : Nat) : Option Ty :=
  f.results.reverse.lookup id

end Function

end SlotIR
