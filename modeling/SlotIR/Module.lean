import SlotIR.Function

/-!
# Modules

A module holds the globals and the functions of one source file, both in the order of their
declaration. An index into either list names its entry for good. Which entry a name stands for is
said by a table of its own; adding an entry enters its name there.
-/

namespace SlotIR

/-- A variable of file scope. -/
structure Global where
  name : String
  ty : Ty
  init : Scalar
deriving DecidableEq, Repr

/-- Says which index a name stands for. The first entry with the name counts, which is the latest. -/
abbrev NameTable := List (String × Nat)

/-- The table to which names were added one after another, each with its position. -/
def NameTable.ofNames (names : List String) : NameTable :=
  names.zipIdx.reverse

/-- The program text of one source file. Unless they are given, the tables are those of a module to
which its functions and globals were added in order; nothing keeps a table from saying something
else, or from naming an index without an entry. -/
structure Module where
  name : String
  functions : List Function := []
  globals : List Global := []
  functionTable : NameTable := .ofNames (functions.map (·.name))
  globalTable : NameTable := .ofNames (globals.map (·.name))
deriving DecidableEq, Repr

namespace Module

/-- The function that a name stands for. -/
def functionIndex? (m : Module) (name : String) : Option Nat :=
  m.functionTable.lookup name

/-- The global that a name stands for. -/
def globalIndex? (m : Module) (name : String) : Option Nat :=
  m.globalTable.lookup name

/-- The function with an index. -/
def function (m : Module) (index : Nat) : Except Missing Function :=
  match m.functions[index]? with
  | some f => .ok f
  | none => .error (.function index)

/-- Adds a function without a body, and its name. -/
def addFunction (m : Module) (name : String) (signature : Signature) : Module :=
  { m with
    functions := m.functions ++ [{ name, signature }]
    functionTable := (name, m.functions.length) :: m.functionTable }

/-- Adds a global, and its name. -/
def addGlobal (m : Module) (g : Global) : Module :=
  { m with
    globals := m.globals ++ [g]
    globalTable := (g.name, m.globals.length) :: m.globalTable }

/-- Changes the function with an index; without such a function nothing changes. -/
def modifyFunction (m : Module) (index : Nat) (change : Function → Function) : Module :=
  { m with functions := m.functions.modify index change }

/-- The type of an operand that stands in the function `f`; `none` if it refers to something that
does not exist. -/
def operandType? (m : Module) (f : Function) : Operand → Option Ty
  | .const v => some v.ty
  | .arg i => f.signature.params[i]?
  | .temp id => f.resultType? id
  | .slot i => f.slots[i]?.map fun s => .ptr s.ty
  | .global i => m.globals[i]?.map fun g => .ptr g.ty

end Module

end SlotIR
