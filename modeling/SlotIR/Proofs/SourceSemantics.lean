import SlotIR.Binary32.Rounding
import SlotIR.Proofs.SourceProgram

/-!
# Evaluating trees

What a program means, said on its tree alone. Statements are evaluated in order; every declaration and
every parameter makes a new cell, and a name means the innermost cell that was bound to it so far.
Bodies and the arms of conditionals are scopes, other nested statements are not. Whatever lowering
refuses has no meaning here: evaluation is stuck there.
-/

namespace SlotIR.Source

open Syntax (Node)

/-! ## Values -/

/-- Converts a value to a type. Integers and floats are rounded to the nearest float and truncated
toward zero; integers are reduced to the width of the target. -/
def convert (v : Scalar) (ty : Ty) : Option Scalar :=
  match v, ty with
  | .int i, .float => some (.float (.ofInt i.toInt))
  | .char c, .float => some (.float (.ofInt c.toNat))
  | .float x, .int =>
    some (.int (Int32.ofInt (x.toIntClamped Int64.minValue.toInt Int64.maxValue.toInt)))
  | .float x, .char => some (.char (UInt8.ofInt (x.toIntClamped 0 (UInt64.size - 1))))
  | .char c, .int => some (.int (Int32.ofInt c.toNat))
  | .int i, .char => some (.char (UInt8.ofInt i.toInt))
  | v, ty => if v.ty = ty then some v else none

/-- Whether a condition holds: as a float it is a number, and not zero. -/
def truth (v : Scalar) : Option Bool :=
  match convert v .float with
  | some (.float x) => some (!x.isNaN && x.magnitude.val != 0)
  | _ => none

/-! ## States -/

/-- The variables that can be seen, each with its cell. An empty cell was never written. -/
structure State where
  /-- Parameters and variables of the running function, the innermost first. -/
  locals : List (String × Option Scalar)
  /-- The variables of file scope. -/
  globals : List (String × Scalar)
deriving DecidableEq, Repr

/-- Why a program fails. -/
inductive Failure where
  | unknownFunction (name : String)
  | noBody (name : String)
  | argumentCount (name : String) (found needs : Nat)
  /-- A function read a variable before it had a value. -/
  | uninitialized (function : String)
  | callDepth
deriving DecidableEq, Repr

/-- Why evaluation does not go on. -/
inductive Stop where
  | returned (v : Option Scalar)
  | failed (e : Failure)
  /-- The tree has no meaning. -/
  | stuck
deriving DecidableEq, Repr

abbrev EvalM := EStateM Stop State

/-- Reads the innermost variable with a name; `function` is the one that reads. -/
def read (function name : String) : EvalM Scalar := do
  let s ← get
  match s.locals.lookup name with
  | some (some v) => return v
  | some none => throw (.failed (.uninitialized function))
  | none =>
    match s.globals.lookup name with
    | some v => return v
    | none => throw .stuck

/-- Changes the first entry with a name. -/
def assign {α : Type} (name : String) (a : α) : List (String × α) → List (String × α)
  | [] => []
  | (n, b) :: rest => if name = n then (n, a) :: rest else (n, b) :: assign name a rest

/-- Writes to the innermost variable with a name. -/
def write (name : String) (v : Scalar) : EvalM Unit := do
  let s ← get
  if (s.locals.lookup name).isSome then set { s with locals := assign name (some v) s.locals }
  else if (s.globals.lookup name).isSome then set { s with globals := assign name v s.globals }
  else throw .stuck

/-- Binds a name to a new cell. -/
def declare (name : String) (cell : Option Scalar) : EvalM Unit :=
  modify fun s => { s with locals := (name, cell) :: s.locals }

/-- Evaluates in a scope of its own: afterwards the variables declared in it are gone. -/
def inScope {α : Type} (body : EvalM α) : EvalM α := fun s =>
  match body s with
  | .ok a s' => .ok a { s' with locals := s'.locals.drop (s'.locals.length - s.locals.length) }
  | .error e s' => .error e s'

theorem inScope_ok {α : Type} {body : EvalM α} {s s' : State} {a : α} (h : body s = .ok a s') :
    inScope body s =
      .ok a { s' with locals := s'.locals.drop (s'.locals.length - s.locals.length) } := by
  simp only [inScope, h]

theorem inScope_error {α : Type} {body : EvalM α} {s s' : State} {e : Stop}
    (h : body s = .error e s') : inScope body s = .error e s' := by
  simp only [inScope, h]

/-! ## Nodes -/

/-- What the evaluation of a body depends on. -/
structure Context where
  /-- The running function. -/
  function : String
  ret : Ty
  call : String → List Scalar → EvalM (Option Scalar)

section nodes

variable (ctx : Context) (eval : Node → EvalM (Option Scalar))

def evalAll : List Node → EvalM Unit
  | [] => pure ()
  | n :: ns => do
    let _ ← eval n
    evalAll ns

def evalValue (n : Node) : EvalM Scalar := do
  match ← eval n with
  | some v => return v
  | none => throw .stuck

def evalValues : List Node → EvalM (List Scalar)
  | [] => pure []
  | n :: ns => do
    let v ← evalValue eval n
    let vs ← evalValues ns
    return v :: vs

/-- An initializer is evaluated before its variable is bound. -/
def evalDeclarator (n : Node) : EvalM Unit :=
  if n.kind = .functionDeclarator then pure ()
  else
    match n.identifier? with
    | none => throw .stuck
    | some name =>
      match initial? n with
      | none => declare name.text none
      | some init => do
        let v ← evalValue eval init
        declare name.text (some v)

def evalDeclarators : List Node → EvalM Unit
  | [] => pure ()
  | n :: ns => do
    evalDeclarator eval n
    evalDeclarators ns

/-- An arm that is missing does nothing. -/
def evalArm : Option Node → EvalM Unit
  | none => pure ()
  | some arm => do
    let _ ← inScope (eval arm)

/-- Evaluates the arm that a condition selects. -/
def evalBranch (arm other : Option Node) : Option Bool → EvalM Unit
  | some true => evalArm eval arm
  | some false => evalArm eval other
  | none => throw .stuck

def evalIf (n : Node) : EvalM (Option Scalar) :=
  match n.nth? 0, n.nth? 1 with
  | some cond, some arm => do
    let v ← evalValue eval cond
    evalBranch eval arm (n.nth? 2) (truth v)
    return none
  | _, _ => throw .stuck

def evalReturn (n : Node) : EvalM (Option Scalar) :=
  match n.nth? 0 with
  | none => throw (.returned none)
  | some e => do
    let v ← evalValue eval e
    match convert v ctx.ret with
    | some w => throw (.returned (some w))
    | none => throw .stuck

/-- An assignment yields what it wrote. -/
def evalAssignment (n : Node) : EvalM (Option Scalar) :=
  match n.nth? 0, n.nth? 1 with
  | some target, some e => do
    let v ← evalValue eval e
    write target.unwrapped.text v
    return some v
  | _, _ => throw .stuck

def evalCall (n : Node) : EvalM (Option Scalar) :=
  match (n.nth? 0).bind Node.identifier? with
  | none => throw .stuck
  | some callee => do
    let vs ← evalValues eval n.arguments
    ctx.call callee.text vs

/-- Evaluates a node of a body whose descendants are evaluated by `eval`. -/
def evalNode (n : Node) : EvalM (Option Scalar) :=
  match n.kind with
  | .translationUnit | .statementList | .compoundStatement | .declarationList => do
    evalAll eval n.children
    return none
  | .expression =>
    match n.children with
    | [inner] => eval inner
    | _ => throw .stuck
  | .int | .float | .char => return n.literal?
  | .identifier => do
    let v ← read ctx.function n.text
    return some v
  | .declaration => do
    evalDeclarators eval n.declarators
    return none
  | .ifElseStatement => evalIf eval n
  | .returnExpr => evalReturn ctx eval n
  | .assignmentExpression => evalAssignment eval n
  | .functionCall => evalCall ctx eval n
  | _ => throw .stuck

variable {n : Node}

theorem evalNode_sequence (h : n.kind.isSequence = true) :
    evalNode ctx eval n = (do evalAll eval n.children; return none) := by
  unfold evalNode
  cases hk : n.kind with
  | translationUnit | statementList | compoundStatement | declarationList => rfl
  | _ =>
    rw [hk] at h
    cases h

theorem evalNode_literal {v : Scalar} (h : n.literal? = some v) :
    evalNode ctx eval n = pure (some v) := by
  have hv := h
  unfold Node.literal? at h
  unfold evalNode
  cases hk : n.kind with
  | int | float | char => simp only [hv]
  | _ => simp [hk] at h

end nodes

/-- Evaluates a tree of at most the given height. -/
def evalWithin (ctx : Context) : Nat → Node → EvalM (Option Scalar)
  | 0 => fun _ => throw .stuck
  | height + 1 => evalNode ctx (evalWithin ctx height)

def eval (ctx : Context) (n : Node) : EvalM (Option Scalar) := evalWithin ctx n.height n

/-! ## Calls -/

/-- Evaluates a body that sees its parameters and the globals. Only a function without a return value
may come to the end of its body. -/
def inFrame (d : Definition) (args : List Scalar) (body : EvalM (Option Scalar)) :
    EvalM (Option Scalar) := fun s =>
  match body { locals := (d.params.zip (args.map some)).reverse, globals := s.globals } with
  | .ok _ s' =>
    if d.ret = .void then .ok none { s with globals := s'.globals }
    else .error .stuck { s with globals := s'.globals }
  | .error (.returned v) s' => .ok v { s with globals := s'.globals }
  | .error e s' => .error e { s with globals := s'.globals }

/-- Calls a function; `enter` evaluates its body. -/
def callWith (enter : Definition → List Scalar → EvalM (Option Scalar)) (p : Program) (name : String)
    (args : List Scalar) : EvalM (Option Scalar) :=
  match p.definition? name with
  | none =>
    throw (.failed (if name ∈ p.functions then .noBody name else .unknownFunction name))
  | some d =>
    if args.length ≠ d.params.length then
      throw (.failed (.argumentCount name args.length d.params.length))
    else enter d args

/-- Calls a function, where calls may nest to the given depth. -/
def call (p : Program) : Nat → String → List Scalar → EvalM (Option Scalar)
  | 0 => callWith (fun _ _ => throw (.failed .callDepth)) p
  | depth + 1 =>
    callWith (fun d args =>
      inFrame d args (eval { function := d.name, ret := d.ret, call := call p depth } d.body)) p

/-! ## Runs -/

/-- How a run ends. -/
inductive Outcome where
  | returned (v : Option Scalar)
  | failed (e : Failure)
deriving DecidableEq, Repr

/-- Runs a function, given the values of the globals in the order of their declaration. The result
comes with their values afterwards. -/
def run (p : Program) (depth : Nat) (name : String) (args globals : List Scalar) :
    Option (Outcome × List Scalar) :=
  match call p depth name args { locals := [], globals := p.globals.zip globals } with
  | .ok v s => some (.returned v, s.globals.map (·.2))
  | .error (.failed e) s => some (.failed e, s.globals.map (·.2))
  | .error _ _ => none

end SlotIR.Source
