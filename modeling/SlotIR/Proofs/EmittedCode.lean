import SlotIR.Lowering.Expression
import SlotIR.Proofs.Building
import SlotIR.Proofs.Running

/-!
# Code for a value

Steps of lowering that compute a value append instructions to the block at the cursor, wherever that
is (`Writes`). What these instructions do is a statement of its own, about every frame in which they
may run (`Computes`). Both are put together one instruction at a time.
-/

namespace SlotIR

open Machine

namespace Builder

/-! ## Writing -/

/-- The cursor is at a block of a function. -/
def CanWrite (b : Builder) : Prop :=
  ∃ c f blk, b.cursor = some c ∧ b.module.functions[c.function]? = some f ∧
    f.blocks[c.block]? = some blk

/-- The instructions behind which the next one goes: none if the block at the cursor has its
terminator, because then a new block is begun. -/
def code (b : Builder) : List Inst :=
  match b.cursor with
  | none => []
  | some c =>
    match b.module.functions[c.function]?.bind (·.blocks[c.block]?) with
    | none => []
    | some blk => if blk.terminator.isSome then [] else blk.insts

/-- The step `x` yields the value `w`, and it appends the instructions `is`. -/
structure Writes (x : BuildM Value) (b : Builder) (w : Value) (b' : Builder) (is : List Inst) :
    Prop where
  yields : x b = .ok w b'
  stays : b'.CanWrite
  appends : b'.code = b.code ++ is

theorem Writes.bind {x : BuildM Value} {next : Value → BuildM Value} {b b₁ b₂ : Builder} {v w : Value}
    {is is' : List Inst} (h : Writes x b v b₁ is) (h' : Writes (next v) b₁ w b₂ is') :
    Writes (x >>= next) b w b₂ (is ++ is') where
  yields := (bind_of_ok h.yields).trans h'.yields
  stays := h'.stays
  appends := by rw [h'.appends, h.appends, List.append_assoc]

variable {b : Builder} {c : Cursor} {f : Function} {blk : Block}

theorem code_of_block (hc : b.cursor = some c) (hf : b.module.functions[c.function]? = some f)
    (hb : f.blocks[c.block]? = some blk) :
    b.code = if blk.terminator.isSome then [] else blk.insts := by
  simp only [code, hc, hf, Option.bind_some, hb]

theorem isTerminated_of_block (hc : b.cursor = some c)
    (hf : b.module.functions[c.function]? = some f) (hb : f.blocks[c.block]? = some blk) :
    isTerminated b = .ok blk.terminator.isSome b := by
  unfold isTerminated
  rw [bind_of_ok (get_run b), hc]
  show (Builder.function c.function >>= _) b = _
  rw [bind_of_ok (function_of_some hf), hb]
  rfl

theorem current_of_cursor (hc : b.cursor = some c) : current b = .ok c b := by
  unfold current
  rw [bind_of_ok (get_run b), hc]
  rfl

theorem modifyFunction_put {k : Nat} {m : Module} (hk : k < m.functions.length)
    (hm : b.module = m.put k f) (g : Function → Function) :
    modifyFunction k g b = .ok () { b with module := m.put k (g f) } := by
  rw [modifyFunction_of_some (f := f) (hm ▸ Draft.getElem?_put hk), hm, Draft.put_put]

theorem appendBlock_of_function (hc : b.cursor = some c)
    (hf : b.module.functions[c.function]? = some f) (name : String) :
    ∃ f' : Function, f'.blocks = f.blocks ++ [({ name := name } : Block)] ∧
      appendBlock name b =
        .ok f.blocks.length { b with module := b.module.put c.function f' } := by
  have hlt := (List.getElem?_eq_some_iff.1 hf).1
  let b₁ : Builder := { b with module := b.module.put c.function (f.addBlock name) }
  have hcreate : createBlock name b = .ok f.blocks.length b₁ := by
    unfold createBlock
    rw [bind_of_ok (current_of_cursor hc), bind_of_ok (function_of_some hf),
      bind_of_ok (modifyFunction_of_some hf _)]
    rfl
  have hcurrent : current b₁ = .ok c b₁ := current_of_cursor hc
  unfold appendBlock attachBlock
  rw [bind_of_ok hcreate, bind_of_ok ((bind_of_ok hcurrent).trans (modifyFunction_put hlt rfl _))]
  refine ⟨_, ?_, rfl⟩
  -- whether the layout names the new block already makes no difference to the blocks
  split <;> rfl

/-- The block that takes the next instruction. -/
theorem openBlock_of_canWrite (h : b.CanWrite) : ∃ c f blk b', openBlock b = .ok c b' ∧
    b'.cursor = some c ∧ b'.module.functions[c.function]? = some f ∧
    f.blocks[c.block]? = some blk ∧ blk.terminator = none ∧ blk.insts = b.code := by
  obtain ⟨c, f, blk, hc, hf, hb⟩ := h
  rw [code_of_block hc hf hb]
  unfold openBlock
  cases ht : blk.terminator with
  | none =>
    refine ⟨c, f, blk, b, ?_, hc, hf, hb, ht, rfl⟩
    rw [bind_of_ok (isTerminated_of_block hc hf hb), ht]
    exact current_of_cursor hc
  | some t =>
    have hlt := (List.getElem?_eq_some_iff.1 hf).1
    obtain ⟨f', hblocks, happend⟩ := appendBlock_of_function hc hf "dead"
    let b₁ : Builder := { b with module := b.module.put c.function f' }
    let c' : Cursor := { c with block := f.blocks.length }
    have hmove : positionAtEnd f.blocks.length b₁ = .ok () { b₁ with cursor := some c' } := by
      unfold positionAtEnd
      rw [bind_of_ok (current_of_cursor (b := b₁) hc)]
      rfl
    refine ⟨c', f', { name := "dead" }, { b₁ with cursor := some c' }, ?_, rfl,
      Draft.getElem?_put hlt, by simp [c', hblocks], rfl, rfl⟩
    rw [bind_of_ok (isTerminated_of_block hc hf hb), ht]
    exact (bind_of_ok happend).trans ((bind_of_ok hmove).trans (current_of_cursor rfl))

theorem modifyBlock_of_block (hf : b.module.functions[c.function]? = some f)
    (hb : f.blocks[c.block]? = some blk) (g : Block → Block) :
    modifyBlock c g b = .ok () { b with
      module := b.module.put c.function { f with blocks := f.blocks.modify c.block g } } := by
  unfold modifyBlock
  rw [bind_of_ok (function_of_some hf), Function.block_ok.2 hb]
  exact modifyFunction_of_some hf _

/-- An instruction with a result goes behind the code at the cursor. -/
theorem pushInst_writes (h : b.CanWrite) {ty : Ty} (ht : ty ≠ .void) (a : Action) : ∃ id b',
    Writes (pushInst ty a >>= fun r => typedResult r ty) b ⟨.temp id, ty⟩ b'
      [{ result := some id, ty, action := a }] := by
  obtain ⟨c, f, blk, b₁, hopen, hc, hf, hb, hterm, hcode⟩ := openBlock_of_canWrite h
  have hlt := (List.getElem?_eq_some_iff.1 hf).1
  let push : Block → Block :=
    fun blk => { blk with insts := blk.insts ++ [{ result := some f.nextValue, ty, action := a }] }
  let f' : Function :=
    { f with blocks := f.blocks.modify c.block push, nextValue := f.nextValue + 1 }
  let b' : Builder := { b₁ with module := b₁.module.put c.function f' }
  have hf' : b'.module.functions[c.function]? = some f' := Draft.getElem?_put hlt
  have hb' : f'.blocks[c.block]? = some (push blk) := by simp [f', hb]
  have hpush : pushInst ty a b = .ok (some (.temp f.nextValue)) b' := by
    unfold pushInst
    rw [bind_of_ok hopen, bind_of_ok (function_of_some hf), if_neg ht]
    refine (bind_of_ok (modifyBlock_of_block hf hb push)).trans ?_
    rw [bind_of_ok (modifyFunction_put hlt rfl _)]
    rfl
  refine ⟨f.nextValue, b', ⟨bind_of_ok hpush, ⟨c, f', push blk, hc, hf', hb'⟩, ?_⟩⟩
  have hopen' : (push blk).terminator.isSome = false := by simp [push, hterm]
  rw [code_of_block (c := c) (b := b') hc hf' hb', hopen', ← hcode]
  rfl

end Builder

/-! ## Running -/

/-- In every frame in which `v` holds `x`, the instructions `is` leave `y` in `w`. They change nothing
but temporaries. -/
def Computes (is : List Inst) (v : Operand) (x : Scalar) (w : Operand) (y : Scalar) : Prop :=
  ∀ (call : Nat → List Scalar → RunM (Option Scalar)) (f : Function) (fr : Frame) (s : Machine),
    fr.operand v = .ok x → ∃ temps, runInsts call f is fr s = .ok { fr with temps } s ∧
      { fr with temps }.operand w = .ok y

theorem runInsts_append (call : Nat → List Scalar → RunM (Option Scalar)) (f : Function)
    (is is' : List Inst) (fr : Frame) :
    runInsts call f (is ++ is') fr = runInsts call f is fr >>= runInsts call f is' := by
  induction is generalizing fr with
  | nil => rfl
  | cons i is ih =>
    show (runInst call f fr i >>= fun fr => runInsts call f (is ++ is') fr) = _
    simp only [ih]
    exact (bind_assoc ..).symm

namespace Computes

variable {is is' : List Inst} {u v w : Operand} {x y z : Scalar}

theorem trans (h : Computes is u x v y) (h' : Computes is' v y w z) :
    Computes (is ++ is') u x w z := by
  intro call f fr s hu
  obtain ⟨temps, hrun, hv⟩ := h call f fr s hu
  obtain ⟨temps', hrun', hw⟩ := h' call f { fr with temps } s hv
  exact ⟨temps', by rw [runInsts_append, bind_of_ok hrun, hrun'], hw⟩

theorem of_inst {id : Nat} {ty : Ty} {a : Action}
    (h : ∀ (call : Nat → List Scalar → RunM (Option Scalar)) (f : Function) (fr : Frame)
      (s : Machine), fr.operand v = .ok x →
      runInst call f fr { result := some id, ty, action := a } s = .ok (fr.bind (some id) (some y)) s) :
    Computes [{ result := some id, ty, action := a }] v x (.temp id) y := by
  intro call f fr s hv
  refine ⟨(id, y) :: fr.temps, bind_of_ok (h call f fr s hv), ?_⟩
  simp [Frame.operand]

theorem cast {id : Nat} {ty : Ty} {op : CastOp} (h : op.apply x ty = .ok y) :
    Computes [{ result := some id, ty, action := .cast op v }] v x (.temp id) y :=
  of_inst fun _ _ _ _ hv => runInst_cast rfl hv h

theorem compare {id : Nat} {p q : Binary32} :
    Computes [{ result := some id, ty := .bool, action := .compare v (.const (.float q)) }] v
      (.float p) (.temp id) (.bool (p.lessOrGreater q)) :=
  of_inst fun _ _ _ _ hv => runInst_compare rfl hv rfl

end Computes

end SlotIR
