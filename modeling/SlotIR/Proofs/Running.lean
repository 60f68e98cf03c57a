import SlotIR.Machine
import SlotIR.Proofs.Ending

/-!
# Equations of the machine

What each operation of the machine does to a given state, one equation for each way it can go, and
the two halves of running a block: its instructions and its end.
-/

namespace SlotIR

open RunM

namespace Machine

variable {f : Function} {fr : Frame} {s : Machine} {i : Nat} {v : Scalar}

/-! ## Memory -/

theorem load_slot (h : fr.slots[i]? = some (some v)) : load f fr (.slot i) s = .ok v s := by
  rw [load, h]
  rfl

theorem load_slot_empty (h : ∀ v, fr.slots[i]? ≠ some (some v)) :
    load f fr (.slot i) s = .error (.error (.uninitializedRead f.name i)) s := by
  rw [load]
  cases hv : fr.slots[i]? with
  | none => rfl
  | some c =>
    cases c with
    | none => rfl
    | some v => exact absurd hv (h v)

theorem load_global (h : s.globals[i]? = some v) : load f fr (.global i) s = .ok v s := by
  rw [load, bind_of_ok (get_run s), h]
  rfl

theorem store_slot (h : i < fr.slots.length) :
    store f fr (.slot i) v s = .ok { fr with slots := fr.slots.set i (some v) } s := by
  rw [store, if_pos h]
  rfl

theorem store_global (h : i < s.globals.length) :
    store f fr (.global i) v s = .ok fr { s with globals := s.globals.set i v } := by
  rw [store, bind_of_ok (get_run s), if_pos h]
  rfl

/-! ## Instructions -/

theorem orTrap_ok {α : Type} {r : Except Trap α} {a : α} (h : r = .ok a) (s : Machine) :
    orTrap f r s = .ok a s := by
  rw [h]
  rfl

section insts

variable {call : Nat → List Scalar → RunM (Option Scalar)} {inst : Inst}

theorem runInst_load {address : Operand} (h : inst.action = .load address) :
    runInst call f fr inst s =
      (load f fr address >>= fun v => pure (fr.bind inst.result (some v))) s := by
  simp only [runInst, h]

theorem runInst_store {address value : Operand} (h : inst.action = .store address value)
    (hv : fr.operand value = .ok v) : runInst call f fr inst s = store f fr address v s := by
  simp only [runInst, h]
  exact bind_of_ok (orTrap_ok hv s)

theorem runInst_cast {op : CastOp} {value : Operand} {w : Scalar}
    (h : inst.action = .cast op value) (hv : fr.operand value = .ok v)
    (hw : op.apply v inst.ty = .ok w) :
    runInst call f fr inst s = .ok (fr.bind inst.result (some w)) s := by
  simp only [runInst, h]
  exact (bind_of_ok (orTrap_ok hv s)).trans (bind_of_ok (orTrap_ok hw s))

theorem runInst_compare {lhs rhs : Operand} {x y : Binary32} (h : inst.action = .compare lhs rhs)
    (hx : fr.operand lhs = .ok (.float x)) (hy : fr.operand rhs = .ok (.float y)) :
    runInst call f fr inst s =
      .ok (fr.bind inst.result (some (.bool (x.lessOrGreater y)))) s := by
  simp only [runInst, h]
  exact (bind_of_ok (orTrap_ok hx s)).trans (bind_of_ok (orTrap_ok hy s))

theorem runInst_call {callee : Nat} {args : List Operand} {vs : List Scalar}
    (h : inst.action = .call callee args) (hvs : fr.operands args = .ok vs) :
    runInst call f fr inst s =
      (call callee vs >>= fun v => pure (fr.bind inst.result v)) s := by
  simp only [runInst, h]
  exact bind_of_ok (orTrap_ok hvs s)

end insts

/-! ## Blocks -/

/-- Ends a block: goes on with the next one, or ends the call. -/
def finish (m : Module) (steps : Nat) (f : Function) (index : Nat) (t : Option Terminator)
    (fr : Frame) : RunM (Option Scalar) :=
  match t with
  | some (.jump target) => runFrom m steps f fr target
  | some (.branch cond onTrue onFalse) => do
    match ← orTrap f (fr.operand cond) with
    | .bool true => runFrom m steps f fr onTrue
    | .bool false => runFrom m steps f fr onFalse
    | v => fail (.trap f.name (.branchOnNonBool v))
  | some (.ret (some o)) => do
    let v ← orTrap f (fr.operand o)
    return some v
  | some (.ret none) => return none
  | some .unreachable => fail (.unreachable f.name)
  | none => fail (.missingTerminator f.name index)

theorem runFrom_succ (m : Module) (steps : Nat) (f : Function) (fr : Frame) {index : Nat} {b : Block}
    (h : f.blocks[index]? = some b) :
    runFrom m (steps + 1) f fr index =
      (runInsts (callWith (runFrom m steps) m) f b.insts fr >>=
        finish m steps f index b.terminator) := by
  rw [runFrom, h]
  rfl

theorem finish_of_branch {m : Module} {steps index : Nat} {cond : Operand} {c : Bool}
    {onTrue onFalse : Nat} (hc : fr.operand cond = .ok (.bool c)) :
    finish m steps f index (some (.branch cond onTrue onFalse)) fr s =
      runFrom m steps f fr (if c then onTrue else onFalse) s := by
  rw [finish, bind_of_ok (orTrap_ok hc s)]
  cases c with
  | true => rfl
  | false => rfl

theorem finish_of_ret {m : Module} {steps index : Nat} {o : Operand} (ho : fr.operand o = .ok v) :
    finish m steps f index (some (.ret (some o))) fr s = .ok (some v) s := by
  rw [finish, bind_of_ok (orTrap_ok ho s)]
  rfl

/-! ## Calls -/

section calls

variable {enter : Function → Frame → Nat → RunM (Option Scalar)} {m : Module} {index entry : Nat}
  {rest : List Nat} {args : List Scalar}

theorem callWith_noBody (hf : m.functions[index]? = some f) (hl : f.layout = []) :
    callWith enter m index args s = .error (.error (.noBody f.name)) s := by
  rw [callWith, hf]
  dsimp only
  rw [hl]
  rfl

theorem callWith_argumentCount (hf : m.functions[index]? = some f) (hl : f.layout = entry :: rest)
    (ha : args.length ≠ f.signature.params.length) :
    callWith enter m index args s =
      .error (.error (.argumentCount f.name args.length f.signature.params.length)) s := by
  rw [callWith, hf]
  dsimp only
  rw [hl]
  dsimp only
  rw [if_pos ha]
  rfl

theorem callWith_callDepth (hf : m.functions[index]? = some f) (hl : f.layout = entry :: rest)
    (ha : args.length = f.signature.params.length) (hd : maxCallDepth ≤ s.depth) :
    callWith enter m index args s = .error (.error (.callDepth maxCallDepth)) s := by
  rw [callWith, hf]
  dsimp only
  rw [hl]
  dsimp only
  rw [if_neg (fun h => h ha), bind_of_ok (get_run s), if_pos hd]
  rfl

theorem callWith_enter (hf : m.functions[index]? = some f) (hl : f.layout = entry :: rest)
    (ha : args.length = f.signature.params.length) (hd : s.depth < maxCallDepth) :
    callWith enter m index args s = deeper (enter f (.start f args) entry) s := by
  rw [callWith, hf]
  dsimp only
  rw [hl]
  dsimp only
  rw [if_neg (fun h => h ha), bind_of_ok (get_run s), if_neg (Nat.not_le.2 hd)]

end calls

section deeper

variable {α : Type} {x : RunM α} {s' : Machine}

theorem deeper_ok {a : α} (h : x { s with depth := s.depth + 1 } = .ok a s') :
    deeper x s = .ok a { s' with depth := s'.depth - 1 } := by
  simp only [deeper, h]

theorem deeper_error {e : Fault EvalError} (h : x { s with depth := s.depth + 1 } = .error e s') :
    deeper x s = .error e { s' with depth := s'.depth - 1 } := by
  simp only [deeper, h]

end deeper

end Machine

end SlotIR
