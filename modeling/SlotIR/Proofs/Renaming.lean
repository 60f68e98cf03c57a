import Mathlib.Logic.Function.Basic
import SlotIR.Builder
import SlotIR.Proofs.Names

/-!
# Other names

What becomes of a module, of scopes and of errors when every name of the source is replaced by
another. Functions, parameters, globals, slots and bindings carry such names, and the label of an
entry block is made from one; the labels of other blocks, types, indices and numbers have nothing
to do with names.

A table that is looked up by names gives the same under other names, as long as different names
stay different (`functionIndex?_rename`, `lookup?_rename`), and verification, which only looks at
names to report them, finds the same under other names (`verifyFunction_rename`).
-/

namespace SlotIR

open Lowering (Cause Malformation)

/-! ## Labels -/

/-- The label of the entry block of a function. -/
def entryLabel (function : String) : String := function ++ "_block"

/-- The label that stands for a label under other names. -/
def relabel (r : String → String) (label : String) : String :=
  let stem := String.ofList (label.toList.take (label.toList.length - 6))
  if label = entryLabel stem then entryLabel (r stem) else label

theorem relabel_entryLabel (r : String → String) (function : String) :
    relabel r (entryLabel function) = entryLabel (r function) := by
  have hstem : String.ofList ((entryLabel function).toList.take
      ((entryLabel function).toList.length - 6)) = function := by
    have hlen : (entryLabel function).toList.length - 6 = function.toList.length := by
      simp [entryLabel]
    rw [hlen, entryLabel, String.toList_append, List.take_left, String.ofList_toList]
  unfold relabel
  rw [hstem, if_pos rfl]

theorem relabel_id (label : String) : relabel id label = label := by
  unfold relabel
  dsimp only
  split
  · next h => exact h.symm
  · rfl

/-- The labels of blocks that are not entries. -/
def innerLabels : List String := ["dead", "then", "else", "merge"]

theorem relabel_inner (r : String → String) {label : String} (h : label ∈ innerLabels) :
    relabel r label = label := by
  have hshort : ∀ label ∈ innerLabels,
      label ≠ entryLabel (String.ofList (label.toList.take (label.toList.length - 6))) := by
    decide
  exact if_neg (hshort label h)

/-! ## Modules -/

section modules

variable (r : String → String)

def Slot.rename (s : Slot) : Slot := { s with name := s.name.map r }

def Block.rename (b : Block) : Block := { b with name := relabel r b.name }

/-- A function with other names for itself, its parameters, its slots and its entry. -/
def Function.rename (f : Function) : Function :=
  { f with
    name := r f.name
    paramNames := f.paramNames.map r
    slots := f.slots.map (Slot.rename r)
    blocks := f.blocks.map (Block.rename r) }

def Global.rename (g : Global) : Global := { g with name := r g.name }

/-- A table with other names for the same indices. -/
def NameTable.rename (t : NameTable) : NameTable := t.map fun p => (r p.1, p.2)

/-- A module with other names for its globals and functions. -/
def Module.rename (m : Module) : Module :=
  { m with
    functions := m.functions.map (Function.rename r)
    globals := m.globals.map (Global.rename r)
    functionTable := m.functionTable.rename r
    globalTable := m.globalTable.rename r }

end modules

section fields

variable (r : String → String)

@[simp] theorem Block.rename_terminator (b : Block) : (b.rename r).terminator = b.terminator := rfl

@[simp] theorem Function.rename_layout (f : Function) : (f.rename r).layout = f.layout := rfl

@[simp] theorem Function.getElem?_rename (f : Function) (i : Nat) :
    (f.rename r).blocks[i]? = f.blocks[i]?.map (Block.rename r) := List.getElem?_map

@[simp] theorem Module.getElem?_rename (m : Module) (i : Nat) :
    (m.rename r).functions[i]? = m.functions[i]?.map (Function.rename r) := List.getElem?_map

end fields

section id

theorem Slot.rename_id (s : Slot) : s.rename id = s := by
  simp [Slot.rename]

theorem Block.rename_id (b : Block) : b.rename id = b := by
  simp [Block.rename, relabel_id]

theorem Function.rename_id (f : Function) : f.rename id = f := by
  simp [Function.rename, List.map_id'' Slot.rename_id, List.map_id'' Block.rename_id]

theorem NameTable.rename_id (t : NameTable) : t.rename id = t :=
  List.map_id t

theorem Module.rename_id (m : Module) : m.rename id = m := by
  have hglobal : ∀ g : Global, g.rename id = g := fun _ => rfl
  simp [Module.rename, List.map_id'' Function.rename_id, List.map_id'' hglobal, NameTable.rename_id]

end id

section functions

variable (r : String → String) (f : Function)

theorem Function.block_rename (i : Nat) :
    (f.rename r).block i = (f.block i).map (Block.rename r) := by
  unfold Function.block
  rw [f.getElem?_rename r]
  cases f.blocks[i]? <;> rfl

theorem Function.blocksAt_rename (layout : List Nat) :
    (f.rename r).blocksAt layout =
      (f.blocksAt layout).map (List.map fun p => (p.1, p.2.rename r)) := by
  induction layout with
  | nil => rfl
  | cons i is ih =>
    unfold Function.blocksAt
    rw [f.block_rename r, ih]
    cases f.block i with
    | error e => rfl
    | ok b => cases f.blocksAt is <;> rfl

/-- Which block leads to which has nothing to do with labels. -/
theorem Function.predecessors_rename (target : Nat) :
    (f.rename r).predecessors target = f.predecessors target := by
  unfold Function.predecessors
  rw [f.blocksAt_rename r, f.rename_layout r]
  cases f.blocksAt f.layout with
  | error e => rfl
  | ok bs =>
    show Except.ok _ = Except.ok _
    rw [List.filter_map, List.map_map]
    rfl

theorem Function.resultType?_rename (id : Nat) :
    (f.rename r).resultType? id = f.resultType? id := by
  unfold Function.resultType? Function.results
  rw [show (f.rename r).blocks = f.blocks.map (Block.rename r) from rfl, List.flatMap_map]
  rfl

theorem Module.operandType?_rename (m : Module) (o : Operand) :
    (m.rename r).operandType? (f.rename r) o = m.operandType? f o := by
  cases o with
  | const v => rfl
  | arg i => rfl
  | temp id => exact f.resultType?_rename r id
  | slot i =>
    show ((f.slots.map _)[i]?).map _ = _
    rw [List.getElem?_map, Option.map_map]
    rfl
  | global i =>
    show ((m.globals.map _)[i]?).map _ = _
    rw [List.getElem?_map, Option.map_map]
    rfl

end functions

/-! ## Tables of names -/

section tables

variable {r : String → String} (hr : Function.Injective r)

include hr

theorem beq_rename (a b : String) : (r a == r b) = (a == b) := by
  rw [Bool.eq_iff_iff, beq_iff_eq, beq_iff_eq]
  exact hr.eq_iff

/-- A name is found under its new name. -/
theorem lookup_map_rename {α : Type} (entries : List (String × α)) (name : String) :
    (entries.map fun p => (r p.1, p.2)).lookup (r name) = entries.lookup name := by
  induction entries with
  | nil => rfl
  | cons p entries ih => rw [List.map_cons, List.lookup_cons, List.lookup_cons, beq_rename hr, ih]

theorem Module.functionIndex?_rename (m : Module) (name : String) :
    (m.rename r).functionIndex? (r name) = m.functionIndex? name :=
  lookup_map_rename hr m.functionTable name

theorem Module.globalIndex?_rename (m : Module) (name : String) :
    (m.rename r).globalIndex? (r name) = m.globalIndex? name :=
  lookup_map_rename hr m.globalTable name

end tables

/-! ## Scopes -/

section scopes

variable (r : String → String)

def Scope.rename (s : Scope) : Scope :=
  { s with symbols := s.symbols.map fun p => (r p.1, p.2) }

def ScopeChain.rename (c : ScopeChain) : ScopeChain :=
  { c with live := c.live.map fun p => (p.1, p.2.rename r) }

theorem ScopeChain.get?_rename (c : ScopeChain) (id : ScopeId) :
    (c.rename r).get? id = (c.get? id).map (Scope.rename r) := by
  show (c.live.map _).lookup id = (c.live.lookup id).map _
  induction c.live with
  | nil => rfl
  | cons p live ih =>
    rw [List.map_cons, List.lookup_cons, List.lookup_cons, ih]
    cases id == p.1 <;> rfl

theorem ScopeChain.pop_rename (c : ScopeChain) (id : ScopeId) :
    (c.rename r).pop id = (c.pop id).rename r := by
  simp only [ScopeChain.pop, ScopeChain.rename, List.filter_map]
  rfl

theorem ScopeChain.update_rename (c : ScopeChain) (id : ScopeId) {change change' : Scope → Scope}
    (h : ∀ s, change' (s.rename r) = (change s).rename r) :
    (c.rename r).update id change' = (c.update id change).rename r := by
  simp only [ScopeChain.update, ScopeChain.rename, List.map_map, ScopeChain.mk.injEq, true_and]
  refine List.map_congr_left fun p _ => ?_
  simp only [Function.comp_apply]
  split
  · rw [h]
  · rfl

variable {r} (hr : Function.Injective r)

include hr

theorem Scope.lookup_rename (s : Scope) (name : String) :
    (s.rename r).symbols.lookup (r name) = s.symbols.lookup name :=
  lookup_map_rename hr s.symbols name

theorem Scope.binds_rename (s : Scope) (name : String) :
    (s.rename r).binds (r name) = s.binds name := by
  rw [Scope.binds, s.lookup_rename hr, Scope.binds]

theorem ScopeChain.binds_rename (c : ScopeChain) (id : ScopeId) (name : String) :
    (c.rename r).binds id (r name) = c.binds id name := by
  rw [ScopeChain.binds, c.get?_rename, ScopeChain.binds]
  cases c.get? id with
  | none => rfl
  | some s => exact s.binds_rename hr name

theorem ScopeChain.define?_rename (c : ScopeChain) (id : ScopeId) (name : String) (v : Value) :
    (c.rename r).define? id (r name) v = (c.define? id name v).map (ScopeChain.rename r) := by
  unfold ScopeChain.define?
  rw [c.get?_rename]
  cases c.get? id with
  | none => rfl
  | some s =>
    dsimp only [Option.map_some]
    rw [s.binds_rename hr]
    split
    · rfl
    · exact congrArg some (c.update_rename r id fun _ => rfl)

theorem ScopeChain.ownerIn_rename (live : List (ScopeId × Scope)) (id : ScopeId) (name : String) :
    ownerIn (live.map fun p => (p.1, p.2.rename r)) id (r name) = ownerIn live id name := by
  induction live generalizing id with
  | nil => rfl
  | cons p live ih =>
    obtain ⟨i, s⟩ := p
    simp only [List.map_cons, ownerIn, s.binds_rename hr, ih]
    rfl

theorem ScopeChain.lookup?_rename (c : ScopeChain) (id : ScopeId) (name : String) :
    (c.rename r).lookup? id (r name) = c.lookup? id name := by
  have howner : (c.rename r).owner? id (r name) = c.owner? id name :=
    ownerIn_rename hr c.live id name
  unfold ScopeChain.lookup?
  rw [howner]
  cases c.owner? id name with
  | none => rfl
  | some owner =>
    show ((c.rename r).get? owner >>= fun s => s.symbols.lookup (r name)) =
      (c.get? owner >>= fun s => s.symbols.lookup name)
    rw [c.get?_rename]
    cases c.get? owner with
    | none => rfl
    | some s => exact s.lookup_rename hr name

end scopes

/-- A builder with other names in its module and its scopes. -/
def Builder.rename (r : String → String) (b : Builder) : Builder :=
  { b with module := b.module.rename r, scopes := b.scopes.rename r }

@[simp] theorem Builder.rename_cursor (r : String → String) (b : Builder) :
    (b.rename r).cursor = b.cursor := rfl

/-! ## Errors -/

section errors

variable (r : String → String)

def TypeFlaw.rename : TypeFlaw → TypeFlaw
  | .argument index callee found needs => .argument index (r callee) found needs
  | .callResult callee produces stated => .callResult (r callee) produces stated
  | flaw => flaw

def VerifyError.rename : VerifyError → VerifyError
  | .missingTerminator function block => .missingTerminator (r function) (relabel r block)
  | .danglingBranch function block target => .danglingBranch (r function) (relabel r block) target
  | .entryHasPredecessors function => .entryHasPredecessors (r function)
  | .invalidOperand function block flaw => .invalidOperand (r function) (relabel r block) flaw
  | .typeMismatch function block flaw =>
    .typeMismatch (r function) (relabel r block) (flaw.rename r)
  | .callArity function callee found needs => .callArity (r function) (r callee) found needs
  | .invalidSlot function index ty => .invalidSlot (r function) index ty
  | .globalInitializer name ty init => .globalInitializer (r name) ty init
  | .duplicateSymbol name => .duplicateSymbol (r name)

def Lowering.Malformation.rename : Malformation → Malformation
  | .nestedDefinition name outer => .nestedDefinition (r name) (r outer)
  | .unnamedParameter function => .unnamedParameter (r function)
  | how => how

/-- A cause with other names. The name of an unknown type is no name of the source's own. -/
def Lowering.Cause.rename : Cause → Cause
  | .arityMismatch function found needs => .arityMismatch (r function) found needs
  | .undefinedIdentifier name => .undefinedIdentifier (r name)
  | .undefinedFunction name => .undefinedFunction (r name)
  | .duplicateDefinition what name => .duplicateDefinition what (r name)
  | .signatureConflict name previous found => .signatureConflict (r name) previous found
  | .malformed how => .malformed (how.rename r)
  | .nonConstantInitializer name => .nonConstantInitializer (r name)
  | .verification e => .verification (e.rename r)
  | cause => cause

/-- Under other names an error has the same code. -/
theorem Lowering.Cause.code_rename (cause : Cause) : (cause.rename r).code = cause.code := by
  cases cause <;> rfl

theorem VerifyError.rename_id (e : VerifyError) : e.rename id = e := by
  cases e with
  | typeMismatch function block flaw =>
    cases flaw <;> simp [VerifyError.rename, TypeFlaw.rename, relabel_id]
  | _ => simp [VerifyError.rename, relabel_id]

theorem Lowering.Cause.rename_id (cause : Cause) : cause.rename id = cause := by
  cases cause with
  | malformed how => cases how <;> rfl
  | verification e => exact congrArg _ e.rename_id
  | _ => rfl

end errors

/-! ## Verification -/

/-- The outcome of a check, told with other names. -/
def Checked.rename {α : Type} (r : String → String) : Checked α → Checked α
  | .ok a => .ok a
  | .error (.error e) => .error (.error (e.rename r))
  | .error (.missing what) => .error (.missing what)
  | .error .exhausted => .error .exhausted

theorem Checked.bind_rename {α β : Type} {r : String → String} {x x' : Checked α}
    {f g : α → Checked β} (hx : x' = x.rename r) (hf : ∀ a, g a = (f a).rename r) :
    x' >>= g = Checked.rename r (x >>= f) := by
  subst hx
  rcases x with (e | what | _) | a
  · rfl
  · rfl
  · rfl
  · exact hf a

theorem Checked.ite_rename {α : Type} {r : String → String} {p : Prop} [Decidable p]
    {d' : Decidable p} {x x' y y' : Checked α} (hx : x' = x.rename r) (hy : y' = y.rename r) :
    @ite _ p d' x' y' = Checked.rename r (if p then x else y) := by
  by_cases hp : p
  · rw [if_pos hp, if_pos hp, hx]
  · rw [if_neg hp, if_neg hp, hy]

namespace Module

section verification

variable (r : String → String) (m : Module) (f : Function) (b : Block) (defined : List Nat)

theorem checkOperand_rename (o : Operand) :
    (m.rename r).checkOperand (f.rename r) (b.rename r) defined o =
      (m.checkOperand f b defined o).rename r := by
  unfold checkOperand
  rw [operandType?_rename r f m o]
  cases o with
  | temp id =>
    dsimp only
    split
    · cases m.operandType? f (.temp id) <;> rfl
    · rfl
  | const v => cases m.operandType? f (.const v) <;> rfl
  | arg i => cases m.operandType? f (.arg i) <;> rfl
  | slot i => cases m.operandType? f (.slot i) <;> rfl
  | global i => cases m.operandType? f (.global i) <;> rfl

theorem checkAddress_rename (o : Operand) :
    (m.rename r).checkAddress (f.rename r) (b.rename r) defined o =
      (m.checkAddress f b defined o).rename r := by
  refine Checked.bind_rename (checkOperand_rename r m f b defined o) fun t => ?_
  cases t <;> rfl

theorem checkArgs_rename (callee : String) (args : List Operand) :
    ∀ (index : Nat) (params : List Ty),
      (m.rename r).checkArgs (f.rename r) (b.rename r) defined (r callee) index args params =
        (m.checkArgs f b defined callee index args params).rename r := by
  induction args with
  | nil =>
    intro index params
    rfl
  | cons arg args ih =>
    intro index params
    cases params with
    | nil => rfl
    | cons param params =>
      refine Checked.bind_rename (checkOperand_rename r m f b defined arg) fun t => ?_
      exact Checked.ite_rename rfl (ih (index + 1) params)

theorem checkNoResult_rename (i : Inst) :
    checkNoResult (f.rename r) (b.rename r) i = (checkNoResult f b i).rename r := by
  unfold checkNoResult
  cases i.result <;> rfl

theorem checkAction_rename (i : Inst) :
    (m.rename r).checkAction (f.rename r) (b.rename r) defined i =
      (m.checkAction f b defined i).rename r := by
  unfold checkAction
  cases i.action with
  | load address =>
    refine Checked.bind_rename (checkAddress_rename r m f b defined address) fun pointee => ?_
    exact Checked.ite_rename rfl rfl
  | store address value =>
    refine Checked.bind_rename (checkAddress_rename r m f b defined address) fun pointee => ?_
    refine Checked.bind_rename (checkOperand_rename r m f b defined value) fun t => ?_
    exact Checked.ite_rename rfl (checkNoResult_rename r f b i)
  | cast op value =>
    refine Checked.bind_rename (checkOperand_rename r m f b defined value) fun source => ?_
    exact Checked.ite_rename rfl rfl
  | compare lhs rhs =>
    refine Checked.bind_rename (checkOperand_rename r m f b defined lhs) fun left => ?_
    refine Checked.bind_rename (checkOperand_rename r m f b defined rhs) fun right => ?_
    exact Checked.ite_rename rfl rfl
  | call callee args =>
    dsimp only
    rw [m.getElem?_rename r]
    cases m.functions[callee]? with
    | none => rfl
    | some g =>
      refine Checked.ite_rename rfl ?_
      refine Checked.bind_rename (checkArgs_rename r m f b defined g.name args 0 _) fun _ => ?_
      exact Checked.ite_rename rfl (Checked.ite_rename (checkNoResult_rename r f b i) rfl)

theorem checkInst_rename (i : Inst) :
    (m.rename r).checkInst (f.rename r) (b.rename r) defined i =
      (m.checkInst f b defined i).rename r := by
  refine Checked.bind_rename (checkAction_rename r m f b defined i) fun _ => ?_
  exact Checked.ite_rename rfl rfl

theorem checkInsts_rename (is : List Inst) : ∀ seen defined,
    (m.rename r).checkInsts (f.rename r) (b.rename r) is seen defined =
      (m.checkInsts f b is seen defined).rename r := by
  induction is with
  | nil =>
    intro seen defined
    rfl
  | cons i is ih =>
    intro seen defined
    refine Checked.bind_rename (checkInst_rename r m f b defined i) fun _ => ?_
    cases i.result with
    | none => exact ih seen defined
    | some id => exact Checked.ite_rename rfl (ih (id :: seen) (id :: defined))

theorem checkTargets_rename (targets : List Nat) :
    checkTargets (f.rename r) (b.rename r) targets = (checkTargets f b targets).rename r := by
  induction targets with
  | nil => rfl
  | cons target targets ih => exact Checked.ite_rename ih rfl

theorem checkTerminator_rename (t : Terminator) :
    (m.rename r).checkTerminator (f.rename r) (b.rename r) defined t =
      (m.checkTerminator f b defined t).rename r := by
  rcases t with target | ⟨cond, onTrue, onFalse⟩ | ⟨_ | v⟩ | _
  · rfl
  · refine Checked.bind_rename (checkOperand_rename r m f b defined cond) fun ty => ?_
    exact Checked.ite_rename rfl rfl
  · exact Checked.ite_rename rfl rfl
  · refine Checked.bind_rename (checkOperand_rename r m f b defined v) fun ty => ?_
    exact Checked.ite_rename rfl rfl
  · rfl

theorem checkBlock_rename (seen : List Nat) :
    (m.rename r).checkBlock (f.rename r) (b.rename r) seen = (m.checkBlock f b seen).rename r := by
  refine Checked.bind_rename (checkInsts_rename r m f b b.insts seen []) fun p => ?_
  dsimp only [Block.rename_terminator]
  cases b.terminator with
  | none => rfl
  | some t =>
    refine Checked.bind_rename (checkTargets_rename r f b _) fun _ => ?_
    exact Checked.bind_rename (checkTerminator_rename r m f b p.2 t) fun _ => rfl

theorem checkBlocks_rename (layout : List Nat) : ∀ seen,
    (m.rename r).checkBlocks (f.rename r) layout seen = (m.checkBlocks f layout seen).rename r := by
  induction layout with
  | nil =>
    intro seen
    rfl
  | cons i is ih =>
    intro seen
    unfold checkBlocks
    rw [f.block_rename r]
    cases f.block i with
    | error e => rfl
    | ok b =>
      show (m.rename r).checkBlock (f.rename r) (b.rename r) seen >>= _ = _
      exact Checked.bind_rename (checkBlock_rename r m f b seen) ih

theorem checkSlots_rename (slots : List Slot) : ∀ index,
    checkSlots (f.rename r) index (slots.map (Slot.rename r)) =
      (checkSlots f index slots).rename r := by
  induction slots with
  | nil =>
    intro index
    rfl
  | cons s slots ih =>
    intro index
    exact Checked.ite_rename (ih (index + 1)) rfl

/-- Verification finds the same under other names. -/
theorem verifyBody_rename :
    (m.rename r).verifyBody (f.rename r) = (m.verifyBody f).rename r := by
  have hentry : ∀ entry, checkEntry (f.rename r) entry = (checkEntry f entry).rename r := by
    intro entry
    unfold checkEntry
    rw [f.predecessors_rename r]
    cases f.predecessors entry with
    | error e => rfl
    | ok ps => cases ps <;> rfl
  unfold verifyBody
  rw [f.rename_layout r]
  cases f.layout with
  | nil => rfl
  | cons entry rest =>
    refine Checked.bind_rename (checkSlots_rename r f f.slots 0) fun _ => ?_
    exact Checked.bind_rename (hentry entry) fun _ => checkBlocks_rename r m f (entry :: rest) []

theorem verifyFunction_rename (index : Nat) :
    (m.rename r).verifyFunction index = (m.verifyFunction index).rename r := by
  unfold verifyFunction Module.function
  rw [m.getElem?_rename r]
  cases m.functions[index]? with
  | none => rfl
  | some f => exact verifyBody_rename r m f

end verification

end Module

end SlotIR
