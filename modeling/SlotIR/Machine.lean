import SlotIR.Module
import SlotIR.Machine.Conversion
import SlotIR.Text.Quoted

/-!
# Running programs

An interpreter for modules. The machine holds the values of the globals and the current depth of
calls; a frame holds what belongs to one call. Execution is bounded by a number of steps that is
handed down: entering a block takes one, and the block's calls and what follows it share the rest.
Running out of steps is told apart from every error of the program.
-/

namespace SlotIR

/-- How deep calls may nest. -/
def maxCallDepth : Nat := 256

/-- Why a run failed. -/
inductive EvalError where
  | unknownFunction (name : String)
  | noBody (name : String)
  | argumentCount (name : String) (found needs : Nat)
  | uninitializedRead (function : String) (slot : Nat)
  | unreachable (function : String)
  | missingTerminator (function : String) (block : Nat)
  | callDepth (limit : Nat)
  | trap (function : String) (cause : Trap)
deriving DecidableEq, Repr

open Text (quoted)

def EvalError.message : EvalError → String
  | unknownFunction name => "function " ++ quoted name ++ " not found"
  | noBody name => "function " ++ quoted name ++ " has no body"
  | argumentCount name found needs =>
    "function " ++ quoted name ++ s!" takes {needs} arguments, {found} given"
  | uninitializedRead function slot =>
    s!"read of uninitialized slot {slot} in function " ++ quoted function
  | unreachable function => "reached unreachable code in function " ++ quoted function
  | missingTerminator function block =>
    s!"block {block} of function " ++ quoted function ++ " has no terminator"
  | callDepth limit => s!"call depth exceeded {limit}"
  | trap function cause => "trap in function " ++ quoted function ++ ": " ++ cause.message

/-- What outlives a call. -/
structure Machine where
  globals : List Scalar
  depth : Nat := 0
deriving DecidableEq, Repr

/-- What belongs to one call. -/
structure Frame where
  args : List Scalar
  /-- The contents of the slots; an empty slot was never written. -/
  slots : List (Option Scalar)
  /-- The results so far, the latest first. -/
  temps : List (Nat × Scalar) := []
deriving DecidableEq, Repr

/-- A computation on the machine. The machine keeps its state when the computation stops early. -/
abbrev RunM := EStateM (Fault EvalError) Machine

/-- The frame at the start of a call. -/
def Frame.start (f : Function) (args : List Scalar) : Frame :=
  { args, slots := f.slots.map fun _ => none }

namespace Machine

/-- Every global at its initial value. -/
def start (m : Module) : Machine :=
  { globals := m.globals.map (·.init) }

/-- The value of the global that a name stands for. -/
def global? (machine : Machine) (m : Module) (name : String) : Option Scalar := do
  machine.globals[← m.globalIndex? name]?

end Machine

namespace RunM

/-- The run fails. -/
def fail {α : Type} (e : EvalError) : RunM α := throw (.error e)

/-- The function `f` cannot go on because of a trap. -/
def orTrap {α : Type} (f : Function) : Except Trap α → RunM α
  | .ok a => pure a
  | .error t => fail (.trap f.name t)

/-- Runs `body` one call deeper, and comes back to the old depth however it ends. -/
def deeper {α : Type} (body : RunM α) : RunM α := fun s =>
  match body { s with depth := s.depth + 1 } with
  | .ok a s' => .ok a { s' with depth := s'.depth - 1 }
  | .error e s' => .error e { s' with depth := s'.depth - 1 }

end RunM

open RunM

namespace Frame

/-- The value of an operand. -/
def operand (fr : Frame) : Operand → Except Trap Scalar
  | .const v => .ok v
  | .arg i =>
    match fr.args[i]? with
    | some v => .ok v
    | none => .error (.argumentOutOfRange i)
  | .temp id =>
    match fr.temps.lookup id with
    | some v => .ok v
    | none => .error (.undefinedTemp id)
  | .slot _ | .global _ => .error .addressAsValue

/-- The values of operands, in order. -/
def operands (fr : Frame) : List Operand → Except Trap (List Scalar)
  | [] => .ok []
  | o :: os =>
    match fr.operand o with
    | .error t => .error t
    | .ok v =>
      match fr.operands os with
      | .error t => .error t
      | .ok vs => .ok (v :: vs)

/-- Names a result, if there is a name and a value for it. -/
def bind (fr : Frame) (result : Option Nat) (value : Option Scalar) : Frame :=
  match result, value with
  | some id, some v => { fr with temps := (id, v) :: fr.temps }
  | _, _ => fr

end Frame

namespace Machine

/-- Reads what is stored at an address. -/
def load (f : Function) (fr : Frame) (address : Operand) : RunM Scalar :=
  match address with
  | .slot i =>
    match fr.slots[i]? with
    | some (some v) => pure v
    | _ => fail (.uninitializedRead f.name i)
  | .global i => do
    match (← get).globals[i]? with
    | some v => return v
    | none => fail (.trap f.name (.globalOutOfRange i))
  | o => fail (.trap f.name (.loadThroughValue o))

/-- Writes a value to an address. -/
def store (f : Function) (fr : Frame) (address : Operand) (value : Scalar) : RunM Frame :=
  match address with
  | .slot i =>
    if i < fr.slots.length then pure { fr with slots := fr.slots.set i (some value) }
    else fail (.trap f.name (.storeOutOfRange address))
  | .global i => do
    let s ← get
    if i < s.globals.length then
      set { s with globals := s.globals.set i value }
      return fr
    else fail (.trap f.name (.storeOutOfRange address))
  | o => fail (.trap f.name (.storeThroughValue o))

/-- Compares two floats. -/
def compareFloats (lhs rhs : Scalar) : Except Trap Scalar :=
  match lhs, rhs with
  | .float x, .float y => .ok (.bool (x.lessOrGreater y))
  | _, _ => .error .compareOfNonFloats

/-- Carries out an instruction; `call` carries out calls. -/
def runInst (call : Nat → List Scalar → RunM (Option Scalar)) (f : Function) (fr : Frame)
    (i : Inst) : RunM Frame :=
  match i.action with
  | .load address => do
    let v ← load f fr address
    return fr.bind i.result (some v)
  | .store address value => do
    let v ← orTrap f (fr.operand value)
    store f fr address v
  | .cast op value => do
    let v ← orTrap f (fr.operand value)
    let w ← orTrap f (op.apply v i.ty)
    return fr.bind i.result (some w)
  | .compare lhs rhs => do
    let l ← orTrap f (fr.operand lhs)
    let r ← orTrap f (fr.operand rhs)
    let v ← orTrap f (compareFloats l r)
    return fr.bind i.result (some v)
  | .call callee args => do
    let vs ← orTrap f (fr.operands args)
    let v ← call callee vs
    return fr.bind i.result v

/-- Carries out instructions in order. -/
def runInsts (call : Nat → List Scalar → RunM (Option Scalar)) (f : Function) :
    List Inst → Frame → RunM Frame
  | [], fr => pure fr
  | i :: is, fr => do
    let fr ← runInst call f fr i
    runInsts call f is fr

/-- Calls a function; `enter` runs it from its entry block. -/
def callWith (enter : Function → Frame → Nat → RunM (Option Scalar)) (m : Module) (index : Nat)
    (args : List Scalar) : RunM (Option Scalar) :=
  match m.functions[index]? with
  | none => throw (.missing (.function index))
  | some f =>
    match f.layout with
    | [] => fail (.noBody f.name)
    | entry :: _ => do
      let needs := f.signature.params.length
      if args.length ≠ needs then fail (.argumentCount f.name args.length needs)
      else if maxCallDepth ≤ (← get).depth then fail (.callDepth maxCallDepth)
      else deeper (enter f (.start f args) entry)

/-- Runs a function from the start of a block to its return, within a number of steps. -/
def runFrom (m : Module) : Nat → Function → Frame → Nat → RunM (Option Scalar)
  | 0, _, _, _ => throw .exhausted
  | steps + 1, f, fr, index =>
    match f.blocks[index]? with
    | none => throw (.missing (.block index))
    | some b => do
      let fr ← runInsts (callWith (runFrom m steps) m) f b.insts fr
      match b.terminator with
      | some (.jump target) => runFrom m steps f fr target
      | some (.branch cond onTrue onFalse) =>
        match ← orTrap f (fr.operand cond) with
        | .bool true => runFrom m steps f fr onTrue
        | .bool false => runFrom m steps f fr onFalse
        | v => fail (.trap f.name (.branchOnNonBool v))
      | some (.ret (some o)) => do
        let v ← orTrap f (fr.operand o)
        return some v
      | some (.ret none) => return none
      | some .unreachable => fail (.unreachable f.name)
      | none => fail (.missingTerminator f.name index)

end Machine

namespace Module

open Machine

/-- Calls the function with an index, within a number of steps. -/
def call (m : Module) (steps : Nat) (index : Nat) (args : List Scalar) : RunM (Option Scalar) :=
  callWith (runFrom m steps) m index args

/-- Runs the function that a name stands for, within a number of steps. -/
def run (m : Module) (steps : Nat) (name : String) (args : List Scalar) : RunM (Option Scalar) :=
  match m.functionIndex? name with
  | none => fail (.unknownFunction name)
  | some index => m.call steps index args

/-- Enough steps for every run of a module whose blocks only branch forward: no call enters a block
twice, and calls nest `maxCallDepth` deep. -/
def acyclicSteps (m : Module) : Nat :=
  maxCallDepth * (m.functions.map (·.blocks.length)).foldl max 0 + 1

end Module

end SlotIR
