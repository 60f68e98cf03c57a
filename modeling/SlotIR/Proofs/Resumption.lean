import SlotIR.Proofs.Running
import SlotIR.Proofs.Draft

/-!
# The rest of a call

A draft marks a place in the function that it will grow to: the end of what was written so far. With
enough steps, a call that is at this place with some frame leads to one result (`Draft.LeadsTo`). The
lemmas below say what one more instruction, the end of a block and a branch have to do with that: each
carries a result of the place behind it back to the place before it.
-/

namespace SlotIR

open RunM Machine

/-- How a call ends. -/
abbrev CallResult := EStateM.Result (Fault EvalError) Machine (Option Scalar)

/-! ## Enough steps -/

section eventually

variable {α : Type} {r : EStateM.Result (Fault EvalError) Machine α}

/-- From some number of steps on, a computation ends in `r`. -/
def Eventually (x : Nat → EStateM.Result (Fault EvalError) Machine α)
    (r : EStateM.Result (Fault EvalError) Machine α) : Prop :=
  ∃ enough, ∀ steps, enough ≤ steps → x steps = r

theorem Eventually.of_eq {x : Nat → EStateM.Result (Fault EvalError) Machine α}
    (h : ∀ steps, x steps = r) : Eventually x r :=
  ⟨0, fun steps _ => h steps⟩

end eventually

/-! ## Places -/

namespace Machine

/-- The rest of a call from the instruction at a position of a block on. -/
def resume (m : Module) (steps : Nat) (f : Function) (fr : Frame) (i off : Nat) :
    RunM (Option Scalar) :=
  match f.blocks[i]? with
  | none => throw (.missing (.block i))
  | some b =>
    runInsts (callWith (runFrom m steps) m) f (b.insts.drop off) fr >>=
      finish m steps f i b.terminator

theorem runFrom_eq_resume (m : Module) (steps : Nat) (f : Function) (fr : Frame) (i : Nat) :
    runFrom m (steps + 1) f fr i = resume m steps f fr i 0 := by
  cases hb : f.blocks[i]? with
  | none => rw [runFrom, resume, hb]
  | some b =>
    rw [runFrom_succ m steps f fr hb, resume, hb]
    rfl

end Machine

/-- With enough steps, the rest of a call ends in `r`. -/
def Leads (m : Module) (f : Function) (fr : Frame) (i off : Nat) (s : Machine) (r : CallResult) :
    Prop :=
  Eventually (fun steps => resume m steps f fr i off s) r

section leads

variable {m : Module} {f : Function} {fr fr' : Frame} {i off : Nat} {s s' : Machine} {r : CallResult}

theorem runFrom_leads (h : Leads m f fr i 0 s r) :
    Eventually (fun steps => runFrom m steps f fr i s) r := by
  obtain ⟨n, h⟩ := h
  refine ⟨n + 1, fun steps hsteps => ?_⟩
  obtain ⟨steps, rfl⟩ : ∃ k, steps = k + 1 := ⟨steps - 1, by omega⟩
  show runFrom m (steps + 1) f fr i s = r
  rw [runFrom_eq_resume]
  exact h steps (by omega)

theorem leads_inst {b : Block} {inst : Inst} (hb : f.blocks[i]? = some b)
    (hinst : b.insts[off]? = some inst)
    (hrun : Eventually (fun steps => runInst (callWith (runFrom m steps) m) f fr inst s) (.ok fr' s'))
    (hnext : Leads m f fr' i (off + 1) s' r) : Leads m f fr i off s r := by
  obtain ⟨hlt, rfl⟩ := List.getElem?_eq_some_iff.1 hinst
  obtain ⟨n, hrun⟩ := hrun
  obtain ⟨n', hnext⟩ := hnext
  refine ⟨max n n', fun steps hsteps => ?_⟩
  have hrest := hnext steps (by omega)
  have hfirst := hrun steps (by omega)
  simp only [resume, hb] at hrest ⊢
  rw [List.drop_eq_getElem_cons hlt, runInsts]
  cases hr : runInsts (callWith (runFrom m steps) m) f (b.insts.drop (off + 1)) fr' s' with
  | ok fr'' s'' =>
    rw [bind_of_ok hr] at hrest
    rw [bind_of_ok ((bind_of_ok hfirst).trans hr), hrest]
  | error e s'' =>
    rw [bind_of_error hr] at hrest
    rw [bind_of_error ((bind_of_ok hfirst).trans hr), hrest]

theorem leads_inst_error {b : Block} {inst : Inst} {e : Fault EvalError}
    (hb : f.blocks[i]? = some b) (hinst : b.insts[off]? = some inst)
    (hrun : Eventually (fun steps => runInst (callWith (runFrom m steps) m) f fr inst s)
      (.error e s')) : Leads m f fr i off s (.error e s') := by
  obtain ⟨hlt, rfl⟩ := List.getElem?_eq_some_iff.1 hinst
  obtain ⟨n, hrun⟩ := hrun
  refine ⟨n, fun steps hsteps => ?_⟩
  have hfirst := hrun steps hsteps
  simp only [resume, hb]
  rw [List.drop_eq_getElem_cons hlt, runInsts]
  exact bind_of_error (bind_of_error hfirst)

theorem leads_finish {b : Block} (hb : f.blocks[i]? = some b) (hoff : b.insts.length = off)
    (h : Eventually (fun steps => finish m steps f i b.terminator fr s) r) :
    Leads m f fr i off s r := by
  obtain ⟨n, h⟩ := h
  refine ⟨n, fun steps hsteps => ?_⟩
  simp only [resume, hb]
  rw [List.drop_eq_nil_of_le (by omega), runInsts, bind_of_ok (pure_run fr s)]
  exact h steps hsteps

/-! ### Ends of blocks -/

theorem finish_jump {target : Nat} (h : Leads m f fr target 0 s r) :
    Eventually (fun steps => finish m steps f i (some (.jump target)) fr s) r :=
  runFrom_leads h

theorem finish_branch {cond : Operand} {c : Bool} {onTrue onFalse : Nat}
    (hc : fr.operand cond = .ok (.bool c))
    (h : Leads m f fr (if c then onTrue else onFalse) 0 s r) :
    Eventually (fun steps => finish m steps f i (some (.branch cond onTrue onFalse)) fr s) r := by
  obtain ⟨n, h⟩ := runFrom_leads h
  exact ⟨n, fun steps hsteps => (finish_of_branch hc).trans (h steps hsteps)⟩

theorem finish_ret {o : Operand} {v : Scalar} (ho : fr.operand o = .ok v) :
    Eventually (fun steps => finish m steps f i (some (.ret (some o))) fr s) (.ok (some v) s) :=
  .of_eq fun _ => finish_of_ret ho

end leads

/-! ## Drafts -/

namespace Draft

/-- The number of instructions in the block at the cursor. -/
def offset (d : Draft) : Nat :=
  match d.function.blocks[d.block]? with
  | some b => b.insts.length
  | none => 0

theorem offset_of_some {d : Draft} {b : Block} (h : d.function.blocks[d.block]? = some b) :
    d.offset = b.insts.length := by
  rw [offset, h]

/-- The rest of a call that is at the place of the draft ends in `r`. -/
def LeadsTo (m : Module) (f : Function) (d : Draft) (fr : Frame) (s : Machine) (r : CallResult) :
    Prop :=
  Leads m f fr d.block d.offset s r

variable {m : Module} {f : Function} {d : Draft} {k : Nat} {pend : List Nat} {fr fr' : Frame}
  {s s' : Machine} {r : CallResult}

/-- The instruction that was appended at a place stands there in the end. -/
theorem inst_of_emit (hi : d.Inv k pend) (ho : d.function.closedAt d.block = false) {ty : Ty}
    {a : Action} (he : (d.emit ty a).function.Extends f) :
    (d.emit ty a).block = d.block ∧ (d.emit ty a).offset = d.offset + 1 ∧
      ∃ b, f.blocks[d.block]? = some b ∧ b.insts[d.offset]? = some (d.function.nextInst ty a) := by
  obtain ⟨b, hb⟩ := hi.shape.cur_block
  have hblock : (d.emit ty a).block = d.block := by
    rw [emit, reopen_of_open ho]
  have hfun : (d.emit ty a).function = d.function.emit d.block ty a := by
    rw [emit, reopen_of_open ho]
  have hself : (d.function.emit d.block ty a).blocks[d.block]? =
      some { b with insts := b.insts ++ [d.function.nextInst ty a] } :=
    Function.getElem?_emit_self hb
  rw [hfun] at he
  obtain ⟨b', hb', ⟨rest, hrest⟩, -⟩ := he.blocks _ _ hself
  refine ⟨hblock, ?_, b', hb', ?_⟩
  · rw [offset, hblock, hfun, hself, offset_of_some hb]
    simp
  · rw [← hrest, offset_of_some hb]
    simp

theorem leadsTo_emit (hi : d.Inv k pend) (ho : d.function.closedAt d.block = false) {ty : Ty}
    {a : Action} (he : (d.emit ty a).function.Extends f)
    (hrun : Eventually (fun steps =>
      runInst (callWith (runFrom m steps) m) f fr (d.function.nextInst ty a) s) (.ok fr' s'))
    (hnext : (d.emit ty a).LeadsTo m f fr' s' r) : d.LeadsTo m f fr s r := by
  obtain ⟨hblock, hoff, b, hb, hinst⟩ := inst_of_emit hi ho he
  refine leads_inst hb hinst hrun ?_
  rw [LeadsTo, hblock, hoff] at hnext
  exact hnext

theorem leadsTo_emit_error (hi : d.Inv k pend) (ho : d.function.closedAt d.block = false) {ty : Ty}
    {a : Action} (he : (d.emit ty a).function.Extends f) {e : Fault EvalError}
    (hrun : Eventually (fun steps =>
      runInst (callWith (runFrom m steps) m) f fr (d.function.nextInst ty a) s) (.error e s')) :
    d.LeadsTo m f fr s (.error e s') := by
  obtain ⟨-, -, b, hb, hinst⟩ := inst_of_emit hi ho he
  exact leads_inst_error hb hinst hrun

/-- A block that was closed at a place ends there. -/
theorem leadsTo_close (hi : d.Inv k pend) (ho : d.function.closedAt d.block = false)
    {t : Terminator} (he : (d.close t).function.Extends f)
    (h : Eventually (fun steps => finish m steps f d.block (some t) fr s) r) :
    d.LeadsTo m f fr s r := by
  obtain ⟨b, hb⟩ := hi.shape.cur_block
  rw [close_of_open ho] at he
  obtain ⟨b', hb', -, hclosed⟩ := he.blocks _ _ (Function.getElem?_close_self hb)
  have e : b' = { b with terminator := some t } := hclosed (by simp)
  subst e
  refine leads_finish hb' ?_ h
  exact (offset_of_some hb).symm

theorem getElem?_addBlocks {names : List String} {i : Nat} {b : Block} :
    ∀ {f : Function}, f.blocks[i]? = some b →
      (names.foldl Function.addBlock f).blocks[i]? = some b := by
  induction names with
  | nil => exact fun h => h
  | cons name names ih =>
    intro f h
    have hlt := (List.getElem?_eq_some_iff.1 h).1
    exact ih ((Function.getElem?_addBlock_of_lt hlt).trans h)

theorem offset_addBlocks (hi : d.Inv k pend) (names : List String) :
    (d.addBlocks names).offset = d.offset := by
  obtain ⟨b, hb⟩ := hi.shape.cur_block
  rw [offset_of_some hb]
  exact offset_of_some (getElem?_addBlocks hb)

/-- A block that waited starts at its first instruction. -/
theorem leadsTo_moveTo {j : Nat} (hi : d.Inv k pend) (hj : j ∈ pend) :
    (d.moveTo j).LeadsTo m f fr s r ↔ Leads m f fr j 0 s r := by
  obtain ⟨name, hb⟩ := hi.shape.waiting j hj
  have hoff : (d.moveTo j).offset = 0 := offset_of_some (d := d.moveTo j) hb
  rw [LeadsTo, hoff]
  exact Iff.rfl

theorem moveTo_open {j : Nat} (hi : d.Inv k pend) (hj : j ∈ pend) :
    (d.moveTo j).function.closedAt (d.moveTo j).block = false := by
  obtain ⟨name, hb⟩ := hi.shape.waiting j hj
  exact Function.closedAt_of_some (f := (d.moveTo j).function) hb

theorem leadsTo_fallThrough (hi : d.Inv k pend) (ho : d.function.closedAt d.block = false)
    {target : Nat} (he : (d.fallThrough target).function.Extends f)
    (h : Leads m f fr target 0 s r) : d.LeadsTo m f fr s r := by
  have hclose : d.fallThrough target = d.close (.jump target) := by
    simp [fallThrough, ho]
  rw [hclose] at he
  exact leadsTo_close hi ho he (finish_jump h)

/-- A branch goes to the block that is written next, or to the one created after it. -/
theorem leadsTo_fork (hi : d.Inv k pend) (ho : d.function.closedAt d.block = false)
    {cond : Operand} {names : List String} {c : Bool} (he : (d.fork cond names).function.Extends f)
    (hc : fr.operand cond = .ok (.bool c))
    (h : Leads m f fr (if c then d.function.blocks.length else d.function.blocks.length + 1) 0 s r) :
    d.LeadsTo m f fr s r := by
  have hi' := hi.addBlocks ("then" :: names)
  have hclose : ((d.addBlocks ("then" :: names)).close (.branch cond d.function.blocks.length
      (d.function.blocks.length + 1))).function.Extends f :=
    (Function.Extends.place _ _).trans he
  have hlead := leadsTo_close hi' (addBlocks_open ho) hclose (finish_branch hc h)
  rw [LeadsTo, offset_addBlocks hi] at hlead
  exact hlead

end Draft

end SlotIR
