import SlotIR.Module

/-!
# Program text

The text of a module: its name, then its globals, then its functions, each after an empty line. A
block that the text has to name must exist. Anything else that is missing has a text that stands for it.
-/

namespace SlotIR

/-- What is written for things that do not exist. -/
structure Placeholders where
  type : String
  global : Nat → String
  function : String
  terminator : String

def Placeholders.shown : Placeholders where
  type := "<unknown>"
  global i := s!"<invalid global {i}>"
  function := "<invalid function>"
  terminator := "; missing terminator"

namespace Function

/-- The label of a block: its name and its index. -/
def label (f : Function) (block : Nat) : Except Missing String := do
  let b ← f.block block
  return s!"{b.name}.{block}"

end Function

namespace Module

section text

variable (p : Placeholders)

/-- The text of an operand. -/
def operandText (m : Module) : Operand → String
  | .const v => v.text
  | .arg i => s!"%a{i}"
  | .temp id => s!"%t{id}"
  | .slot i => s!"%l{i}"
  | .global i =>
    match m.globals[i]? with
    | some g => "@" ++ g.name
    | none => "@" ++ p.global i

/-- The text of an operand after its type. -/
def typedText (m : Module) (f : Function) (o : Operand) : String :=
  match m.operandType? f o with
  | some t => t.text ++ " " ++ m.operandText p o
  | none => p.type ++ " " ++ m.operandText p o

/-- The name of a called function. -/
def calleeText (m : Module) (callee : Nat) : String :=
  match m.functions[callee]? with
  | some f => f.name
  | none => p.function

/-- The text of what an instruction of type `ty` does. -/
def actionText (m : Module) (f : Function) (ty : Ty) : Action → String
  | .load address => "load " ++ ty.text ++ ", " ++ m.typedText p f address
  | .store address value => "store " ++ m.typedText p f value ++ ", " ++ m.typedText p f address
  | .cast op value => op.text ++ " " ++ m.typedText p f value ++ " to " ++ ty.text
  | .compare lhs rhs => "fcmp one " ++ m.typedText p f lhs ++ ", " ++ m.operandText p rhs
  | .call callee args =>
    "call " ++ ty.text ++ " @" ++ m.calleeText p callee ++ "(" ++
      ", ".intercalate (args.map (m.typedText p f)) ++ ")"

/-- The text of an instruction. -/
def instText (m : Module) (f : Function) (i : Inst) : String :=
  match i.result with
  | some id => s!"%t{id} = " ++ m.actionText p f i.ty i.action
  | none => m.actionText p f i.ty i.action

/-- The text of the end of a block. -/
def terminatorText (m : Module) (f : Function) : Option Terminator → Except Missing String
  | some (.jump target) => do
    let l ← f.label target
    return "br label %" ++ l
  | some (.branch cond onTrue onFalse) => do
    let t ← f.label onTrue
    let e ← f.label onFalse
    return "br " ++ m.typedText p f cond ++ ", label %" ++ t ++ ", label %" ++ e
  | some (.ret (some v)) => .ok ("ret " ++ m.typedText p f v)
  | some (.ret none) => .ok "ret void"
  | some .unreachable => .ok "unreachable"
  | none => .ok p.terminator

/-- The text of a stack slot. -/
def slotText (index : Nat) (s : Slot) : String :=
  let alloca := s!"%l{index} = alloca " ++ s.ty.text
  match s.name with
  | some name => alloca ++ " ; " ++ name
  | none => alloca

/-- A line inside a block. -/
def indented (line : String) : String := "  " ++ line ++ "\n"

/-- The text of a laid-out block, after the given lines. -/
def blockText (m : Module) (f : Function) (index : Nat) (slots : List String) :
    Except Missing String := do
  let b ← f.block index
  let l ← f.label index
  let t ← m.terminatorText p f b.terminator
  return l ++ ":\n" ++ String.join ((slots ++ b.insts.map (m.instText p f) ++ [t]).map indented)

/-- The texts of the laid-out blocks, one after another. The given lines stand in the first. -/
def blockTexts (m : Module) (f : Function) : List Nat → List String → Except Missing String
  | [], _ => .ok ""
  | i :: is, slots => do
    let b ← m.blockText p f i slots
    let bs ← m.blockTexts f is []
    return b ++ bs

/-- The text of a function. -/
def functionText (m : Module) (f : Function) : Except Missing String :=
  if f.hasBody then do
    let params := f.signature.params.mapIdx fun i t => t.text ++ s!" %a{i}"
    let slots := f.slots.mapIdx slotText
    let body ← m.blockTexts p f f.layout slots
    return "define " ++ f.signature.ret.text ++ " @" ++ f.name ++ "(" ++ ", ".intercalate params ++
      ") \x7b\n" ++ body ++ "\x7d\n"
  else
    .ok ("declare " ++ f.signature.ret.text ++ " @" ++ f.name ++ "(" ++
      ", ".intercalate (f.signature.params.map Ty.text) ++ ")\n")

/-- The texts of functions, each after an empty line. -/
def functionTexts (m : Module) : List Function → Except Missing String
  | [] => .ok ""
  | f :: fs => do
    let t ← m.functionText p f
    let ts ← m.functionTexts fs
    return "\n" ++ t ++ ts

/-- The text of a global after an empty line. -/
def globalText (g : Global) : String :=
  "\n@" ++ g.name ++ " = global " ++ g.ty.text ++ " " ++ g.init.text ++ "\n"

/-- The text of a module. -/
def textWith (m : Module) : Except Missing String := do
  let functions ← m.functionTexts p m.functions
  return "; ModuleID = '" ++ m.name ++ "'\n" ++ String.join (m.globals.map globalText) ++ functions

end text

/-- The text of a module, with placeholders that can be seen. -/
def text (m : Module) : Except Missing String :=
  m.textWith .shown

end Module

end SlotIR
