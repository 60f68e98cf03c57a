import SlotIR.Proofs.Execution

/-!
# What happens in a run

A logged run is a run that also tells, call by call, which blocks control enters and which calls are
made from them. Without its log it is the run (`erase_logged`). The log of a module in which control
only goes forward is orderly: no call enters a block twice, and calls nest as deep as the machine
allows, whatever calls what. So every run of generated code comes to an end, from any state of the
machine and with any arguments.
-/

namespace SlotIR

open RunM Machine

/-! ## Logs -/

/-- What happens in a call. -/
inductive Event where
  | enter (block : Nat)
  /-- A function is called, and this happens in the call. -/
  | call (function : String) (log : List Event)

/-- The blocks that a call itself enters, in order. -/
def entered : List Event → List Nat
  | [] => []
  | .enter block :: log => block :: entered log
  | .call _ _ :: log => entered log

mutual

/-- How deep calls nest. -/
def Event.height : Event → Nat
  | .enter _ => 0
  | .call _ log => heightOf log + 1

def heightOf : List Event → Nat
  | [] => 0
  | e :: log => max e.height (heightOf log)

end

mutual

/-- No call enters a block more than once. -/
def Event.EntersOnce : Event → Prop
  | .enter _ => True
  | .call _ log => (entered log).Nodup ∧ EntersOnceIn log

def EntersOnceIn : List Event → Prop
  | [] => True
  | e :: log => e.EntersOnce ∧ EntersOnceIn log

end

@[simp] theorem entered_append (log log' : List Event) :
    entered (log ++ log') = entered log ++ entered log' := by
  induction log with
  | nil => rfl
  | cons e log ih => cases e <;> simp [entered, ih]

theorem heightOf_le {log : List Event} {n : Nat} : heightOf log ≤ n ↔ ∀ e ∈ log, e.height ≤ n := by
  induction log with
  | nil => simp [heightOf]
  | cons e log ih => rw [heightOf, Nat.max_le, ih, List.forall_mem_cons]

theorem entersOnceIn_iff {log : List Event} : EntersOnceIn log ↔ ∀ e ∈ log, e.EntersOnce := by
  induction log with
  | nil => simp [EntersOnceIn]
  | cons e log ih => rw [EntersOnceIn, ih, List.forall_mem_cons]

/-! ## Logged computations -/

/-- A computation on the machine that keeps a log. -/
def LogM (α : Type) : Type :=
  Machine → EStateM.Result (Fault EvalError) Machine α × List Event

namespace LogM

variable {α β : Type}

instance : Monad LogM where
  pure a := fun s => (.ok a s, [])
  bind x f := fun s =>
    match x s with
    | (.ok a s', log) => ((f a s').1, log ++ (f a s').2)
    | (.error e s', log) => (.error e s', log)

/-- The computation without its log. -/
def erase (x : LogM α) : RunM α := fun s => (x s).1

/-- A computation in which nothing happens that is logged. -/
def quiet (x : RunM α) : LogM α := fun s => (x s, [])

def note (e : Event) : LogM Unit := fun s => (.ok () s, [e])

/-- Runs `body` one call deeper, as a call of a function. -/
def called (function : String) (body : LogM α) : LogM α := fun s =>
  (deeper body.erase s, [.call function (body { s with depth := s.depth + 1 }).2])

theorem bind_ok {x : LogM α} {f : α → LogM β} {s s' : Machine} {a : α} {log : List Event}
    (h : x s = (.ok a s', log)) : (x >>= f) s = ((f a s').1, log ++ (f a s').2) := by
  simp only [bind, h]

theorem bind_error {x : LogM α} {f : α → LogM β} {s s' : Machine} {e : Fault EvalError}
    {log : List Event} (h : x s = (.error e s', log)) : (x >>= f) s = (.error e s', log) := by
  simp only [bind, h]

theorem get_bind (f : Machine → LogM α) (s : Machine) : (quiet get >>= f) s = f s s := rfl

@[simp] theorem erase_pure (a : α) : erase (pure a) = (pure a : RunM α) := rfl

@[simp] theorem erase_bind (x : LogM α) (f : α → LogM β) :
    erase (x >>= f) = erase x >>= fun a => erase (f a) := by
  funext s
  cases h : x s with
  | mk r log =>
    cases r with
    | ok a s' =>
      have hx : erase x s = .ok a s' := by rw [erase, h]
      rw [erase, bind_ok h, bind_of_ok hx]
      rfl
    | error e s' =>
      have hx : erase x s = .error e s' := by rw [erase, h]
      rw [erase, bind_error h, bind_of_error hx]

@[simp] theorem erase_quiet (x : RunM α) : erase (quiet x) = x := rfl

@[simp] theorem erase_note (e : Event) : erase (note e) = pure () := rfl

@[simp] theorem erase_called (function : String) (body : LogM α) :
    erase (called function body) = deeper (erase body) := rfl

end LogM

open LogM

/-! ## Logged runs -/

/-- Carries out an instruction; `call` carries out calls, and only calls are logged. -/
def logInst (call : Nat → List Scalar → LogM (Option Scalar)) (f : Function) (fr : Frame)
    (i : Inst) : LogM Frame :=
  match i.action with
  | .call callee args => do
    let vs ← quiet (orTrap f (fr.operands args))
    let v ← call callee vs
    return fr.bind i.result v
  | _ => quiet (runInst (fun callee vs => erase (call callee vs)) f fr i)

def logInsts (call : Nat → List Scalar → LogM (Option Scalar)) (f : Function) :
    List Inst → Frame → LogM Frame
  | [], fr => pure fr
  | i :: is, fr => do
    let fr ← logInst call f fr i
    logInsts call f is fr

/-- Calls a function; what `enter` logs is what happens in the call. -/
def logCall (enter : Function → Frame → Nat → LogM (Option Scalar)) (m : Module) (index : Nat)
    (args : List Scalar) : LogM (Option Scalar) :=
  match m.functions[index]? with
  | none => quiet (throw (.missing (.function index)))
  | some f =>
    match f.layout with
    | [] => quiet (fail (.noBody f.name))
    | entry :: _ => do
      let needs := f.signature.params.length
      if args.length ≠ needs then quiet (fail (.argumentCount f.name args.length needs))
      else if maxCallDepth ≤ (← quiet get).depth then quiet (fail (.callDepth maxCallDepth))
      else called f.name (enter f (.start f args) entry)

/-- Runs a function from the start of a block to its return, and logs every block it enters. -/
def logFrom (m : Module) : Nat → Function → Frame → Nat → LogM (Option Scalar)
  | 0, _, _, _ => quiet (throw .exhausted)
  | steps + 1, f, fr, index =>
    match f.blocks[index]? with
    | none => quiet (throw (.missing (.block index)))
    | some b => do
      note (.enter index)
      let fr ← logInsts (logCall (logFrom m steps) m) f b.insts fr
      match b.terminator with
      | some (.jump target) => logFrom m steps f fr target
      | some (.branch cond onTrue onFalse) =>
        match ← quiet (orTrap f (fr.operand cond)) with
        | .bool true => logFrom m steps f fr onTrue
        | .bool false => logFrom m steps f fr onFalse
        | v => quiet (fail (.trap f.name (.branchOnNonBool v)))
      | some (.ret (some o)) => do
        let v ← quiet (orTrap f (fr.operand o))
        return some v
      | some (.ret none) => return none
      | some .unreachable => quiet (fail (.unreachable f.name))
      | none => quiet (fail (.missingTerminator f.name index))

/-- A run with the log of what happens in it. -/
def Module.logged (m : Module) (steps : Nat) (name : String) (args : List Scalar) :
    LogM (Option Scalar) :=
  match m.functionIndex? name with
  | none => quiet (fail (.unknownFunction name))
  | some index => logCall (logFrom m steps) m index args

section erase

variable {f : Function} {call : Nat → List Scalar → LogM (Option Scalar)}

theorem erase_logInst (fr : Frame) (i : Inst) :
    erase (logInst call f fr i) = runInst (fun callee vs => erase (call callee vs)) f fr i := by
  unfold logInst
  cases ha : i.action with
  | call callee args => simp [runInst, ha]
  | _ => rfl

theorem erase_logInsts (is : List Inst) : ∀ fr : Frame,
    erase (logInsts call f is fr) = runInsts (fun callee vs => erase (call callee vs)) f is fr := by
  induction is with
  | nil =>
    intro fr
    rfl
  | cons i is ih =>
    intro fr
    rw [logInsts, runInsts, erase_bind, erase_logInst]
    simp only [ih]

theorem erase_logCall (m : Module) (enter : Function → Frame → Nat → LogM (Option Scalar))
    (index : Nat) (args : List Scalar) : erase (logCall enter m index args) =
      callWith (fun f fr i => erase (enter f fr i)) m index args := by
  unfold logCall callWith
  cases m.functions[index]? with
  | none => rfl
  | some f =>
    dsimp only
    cases f.layout with
    | nil => rfl
    | cons entry rest =>
      dsimp only
      split
      · rfl
      · rw [erase_bind, erase_quiet]
        refine bind_congr fun s => ?_
        split
        · rfl
        · rfl

theorem erase_logFrom (m : Module) : ∀ (steps : Nat) (f : Function) (fr : Frame) (i : Nat),
    erase (logFrom m steps f fr i) = runFrom m steps f fr i := by
  intro steps
  induction steps with
  | zero =>
    intro f fr i
    rfl
  | succ steps ih =>
    intro f fr i
    cases hb : f.blocks[i]? with
    | none => simp only [logFrom, runFrom, hb, erase_quiet]
    | some b =>
      rw [runFrom_succ m steps f fr hb]
      simp only [logFrom, hb]
      rw [erase_bind, erase_note, pure_bind, erase_bind, erase_logInsts]
      simp only [erase_logCall, ih]
      refine bind_congr fun fr' => ?_
      rcases b.terminator with _ | (target | ⟨cond, onTrue, onFalse⟩ | ⟨_ | o⟩ | _)
      · rfl
      · exact ih f fr' target
      · rw [erase_bind, erase_quiet]
        refine bind_congr fun v => ?_
        rcases v with (_ | _) | c | n | x
        · exact ih f fr' onFalse
        · exact ih f fr' onTrue
        · rfl
        · rfl
        · rfl
      · rfl
      · rw [erase_bind, erase_quiet]
        rfl
      · rfl

/-- A logged run without its log is the run. -/
theorem erase_logged (m : Module) (steps : Nat) (name : String) (args : List Scalar) :
    erase (m.logged steps name args) = m.run steps name args := by
  unfold Module.logged Module.run
  cases m.functionIndex? name with
  | none => rfl
  | some index =>
    show erase (logCall (logFrom m steps) m index args) = callWith (runFrom m steps) m index args
    rw [erase_logCall]
    simp only [erase_logFrom]

end erase

/-! ## Orderly logs -/

/-- A computation comes back to the depth of its start, and refers to nothing that is missing. -/
def Finds {α : Type} (depth : Nat) (r : EStateM.Result (Fault EvalError) Machine α) : Prop :=
  Ends r (fun _ s' => s'.depth = depth) fun e _ => ∀ what, e ≠ .missing what

section finds

variable {α : Type} {depth : Nat} {s : Machine} {f : Function} {fr : Frame}

theorem fail_finds (e : EvalError) : Finds depth (fail e s : EStateM.Result _ _ α) := nofun

theorem orTrap_finds (x : Except Trap α) (hs : s.depth = depth) : Finds depth (orTrap f x s) := by
  cases x with
  | ok a => exact hs
  | error t => exact fail_finds _

theorem load_finds (address : Operand) (hs : s.depth = depth) : Finds depth
    (load f fr address s) := by
  unfold load
  cases address with
  | slot i =>
    dsimp only
    rcases fr.slots[i]? with _ | _ | v
    · exact fail_finds _
    · exact fail_finds _
    · exact hs
  | global i =>
    dsimp only
    rw [bind_of_ok (get_run s)]
    cases s.globals[i]? with
    | some v => exact hs
    | none => exact fail_finds _
  | _ => exact fail_finds _

theorem store_finds (address : Operand) (v : Scalar) (hs : s.depth = depth) :
    Finds depth (store f fr address v s) := by
  unfold store
  cases address with
  | slot i =>
    dsimp only
    split
    · exact hs
    · exact fail_finds _
  | global i =>
    dsimp only
    rw [bind_of_ok (get_run s)]
    split
    · exact hs
    · exact fail_finds _
  | _ => exact fail_finds _

/-- Instructions that are no calls always find what they refer to. -/
theorem runInst_finds {call : Nat → List Scalar → RunM (Option Scalar)} (i : Inst)
    (hi : ∀ callee args, i.action ≠ .call callee args) (hs : s.depth = depth) :
    Finds depth (runInst call f fr i s) := by
  unfold runInst
  cases ha : i.action with
  | load address => exact (load_finds address hs).bind fun _ _ h => h
  | store address value => exact (orTrap_finds _ hs).bind fun v _ h => store_finds address v h
  | cast op value =>
    exact (orTrap_finds _ hs).bind fun _ _ h => (orTrap_finds _ h).bind fun _ _ h => h
  | compare lhs rhs =>
    refine (orTrap_finds _ hs).bind fun _ _ h => (orTrap_finds _ h).bind fun _ _ h => ?_
    exact (orTrap_finds _ h).bind fun _ _ h => h
  | call callee args => exact absurd ha (hi callee args)

end finds

/-- What a computation at a depth of calls logs is in order; the blocks that it enters itself are
those of `blocks`. -/
structure Orderly {α : Type} (depth : Nat) (blocks : List Nat → Prop)
    (r : EStateM.Result (Fault EvalError) Machine α × List Event) : Prop where
  finds : Finds depth r.1
  once : ∀ e ∈ r.2, e.EntersOnce
  height : ∀ e ∈ r.2, e.height + depth ≤ maxCallDepth
  blocks : blocks (entered r.2)

section orderly

variable {α β : Type} {depth : Nat} {blocks : List Nat → Prop} {s : Machine}

theorem Orderly.bind {x : LogM α} {g : α → LogM β} (hx : Orderly depth (· = []) (x s))
    (hg : ∀ a s', s'.depth = depth → Orderly depth blocks (g a s')) (hnil : blocks []) :
    Orderly depth blocks ((x >>= g) s) := by
  cases h : x s with
  | mk r log =>
    rw [h] at hx
    have hlog : entered log = [] := hx.blocks
    cases r with
    | ok a s' =>
      have hg := hg a s' hx.finds
      rw [bind_ok h]
      refine ⟨hg.finds, List.forall_mem_append.2 ⟨hx.once, hg.once⟩,
        List.forall_mem_append.2 ⟨hx.height, hg.height⟩, ?_⟩
      rw [entered_append, hlog]
      exact hg.blocks
    | error e s' =>
      rw [bind_error h]
      refine ⟨hx.finds, hx.once, hx.height, ?_⟩
      rw [hlog]
      exact hnil

/-- Where nothing is logged, only the result matters. -/
theorem quiet_orderly {x : RunM α} (h : Finds depth (x s)) (hnil : blocks []) :
    Orderly depth blocks (quiet x s) :=
  ⟨h, nofun, nofun, hnil⟩

theorem pure_orderly {a : α} (hs : s.depth = depth) (hnil : blocks []) :
    Orderly depth blocks ((pure a : LogM α) s) :=
  ⟨hs, List.forall_mem_nil _, List.forall_mem_nil _, hnil⟩

variable {call : Nat → List Scalar → LogM (Option Scalar)} {f : Function}

theorem logInst_orderly (fr : Frame) (i : Inst)
    (hcall : ∀ callee args, i.action = .call callee args → ∀ vs s, s.depth = depth →
      Orderly depth (· = []) (call callee vs s)) (hs : s.depth = depth) :
    Orderly depth (· = []) (logInst call f fr i s) := by
  unfold logInst
  cases ha : i.action with
  | call callee args =>
    refine Orderly.bind (quiet_orderly (orTrap_finds _ hs) rfl) (fun vs s' hs' => ?_) rfl
    exact (hcall callee args ha vs s' hs').bind (fun v s'' hs'' => pure_orderly hs'' rfl) rfl
  | _ =>
    refine quiet_orderly (runInst_finds i (fun callee args h => ?_) hs) rfl
    cases ha.symm.trans h

theorem logInsts_orderly {is : List Inst} :
    ∀ (fr : Frame) {s : Machine}, (∀ i ∈ is, ∀ callee args, i.action = .call callee args →
      ∀ vs s, s.depth = depth → Orderly depth (· = []) (call callee vs s)) → s.depth = depth →
      Orderly depth (· = []) (logInsts call f is fr s) := by
  induction is with
  | nil =>
    intro fr s _ hs
    exact pure_orderly hs rfl
  | cons i is ih =>
    intro fr s hcall hs
    obtain ⟨hi, his⟩ := List.forall_mem_cons.1 hcall
    exact (logInst_orderly fr i hi hs).bind (fun fr' s' hs' => ih fr' his hs') rfl

/-- A call is logged with what happens one level deeper. -/
theorem called_orderly {body : LogM α} {name : String} (hd : s.depth < maxCallDepth)
    (h : Orderly (s.depth + 1) List.Nodup (body { s with depth := s.depth + 1 })) :
    Orderly s.depth (· = []) (called name body s) := by
  refine ⟨?_, ?_, ?_, rfl⟩
  · show Finds s.depth (deeper body.erase s)
    unfold deeper
    cases hr : body.erase { s with depth := s.depth + 1 } with
    | ok a s' =>
      have hs' : s'.depth = s.depth + 1 := h.finds.of_ok hr
      show s'.depth - 1 = s.depth
      omega
    | error e s' => exact h.finds.of_error hr
  · intro e he
    cases List.mem_singleton.1 he
    exact ⟨h.blocks, entersOnceIn_iff.2 h.once⟩
  · intro e he
    cases List.mem_singleton.1 he
    have hheight : heightOf (body { s with depth := s.depth + 1 }).2 ≤
        maxCallDepth - (s.depth + 1) := by
      refine heightOf_le.2 fun e he => ?_
      have := h.height e he
      omega
    show heightOf _ + 1 + s.depth ≤ maxCallDepth
    omega

theorem logCall_orderly {m : Module} {enter : Function → Frame → Nat → LogM (Option Scalar)}
    {index : Nat} {args : List Scalar} (hf : m.functions[index]? = some f)
    (henter : ∀ entry, f.entry? = some entry → ∀ fr s', s'.depth = s.depth + 1 →
      s.depth < maxCallDepth → Orderly (s.depth + 1) List.Nodup (enter f fr entry s')) :
    Orderly s.depth (· = []) (logCall enter m index args s) := by
  unfold logCall
  rw [hf]
  dsimp only
  cases hl : f.layout with
  | nil => exact quiet_orderly (fail_finds _) rfl
  | cons entry rest =>
    have he : f.entry? = some entry := by rw [ Function.entry?, hl]; rfl
    dsimp only
    split
    · exact quiet_orderly (fail_finds _) rfl
    · rw [get_bind]
      split
      · exact quiet_orderly (fail_finds _) rfl
      · next hd =>
        have hd := Nat.not_le.1 hd
        exact called_orderly hd (henter entry he _ _ rfl hd)

end orderly

/-! ## Forward control -/

/-- Blocks in the order of a layout, from its position `n` on. -/
def Function.Ascends (f : Function) (n : Nat) (blocks : List Nat) : Prop :=
  (blocks.map f.layout.idxOf).Pairwise (· < ·) ∧ ∀ i ∈ blocks, n ≤ f.layout.idxOf i

namespace Function.Ascends

variable {f : Function} {n : Nat} {blocks : List Nat}

theorem nil : f.Ascends n [] := ⟨.nil, nofun⟩

theorem cons {i : Nat} (h : f.Ascends (f.layout.idxOf i + 1) blocks) :
    f.Ascends (f.layout.idxOf i) (i :: blocks) := by
  refine ⟨List.pairwise_cons.2 ⟨fun k hk => ?_, h.1⟩, List.forall_mem_cons.2 ⟨Nat.le_refl _, ?_⟩⟩
  · obtain ⟨j, hj, rfl⟩ := List.mem_map.1 hk
    exact h.2 j hj
  · intro j hj
    exact Nat.le_of_succ_le (h.2 j hj)

theorem mono {n' : Nat} (h : f.Ascends n blocks) (hn : n' ≤ n) : f.Ascends n' blocks :=
  ⟨h.1, fun i hi => Nat.le_trans hn (h.2 i hi)⟩

theorem nodup (h : f.Ascends n blocks) : blocks.Nodup :=
  List.Nodup.of_map f.layout.idxOf (h.1.imp Nat.ne_of_lt)

end Function.Ascends

theorem Block.Typed.callee {m : Module} {f : Function} {b : Block} (h : b.Typed m f) {inst : Inst}
    (hinst : inst ∈ b.insts) {callee : Nat} {args : List Operand}
    (ha : inst.action = .call callee args) :
    ∃ g, m.functions[callee]? = some g := by
  obtain ⟨before, after, e⟩ := List.append_of_mem hinst
  have hinsts := h.insts
  rw [e] at hinsts
  obtain ⟨-, ⟨-, htyped⟩, -⟩ := instsTyped_append.1 hinsts
  simp only [ha] at htyped
  obtain ⟨g, hg, -⟩ := htyped
  exact ⟨g, hg⟩

section forward

variable {m : Module}

/-- Entering a block comes first, and what follows enters later ones. -/
theorem enter_orderly {α : Type} {depth i : Nat} {s : Machine} {f : Function} {x : LogM α}
    (h : Orderly depth (f.Ascends (f.layout.idxOf i + 1)) (x s)) (hd : depth ≤ maxCallDepth) :
    Orderly depth (f.Ascends (f.layout.idxOf i)) ((note (.enter i) >>= fun _ => x) s) := by
  refine ⟨h.finds, List.forall_mem_cons.2 ⟨trivial, h.once⟩,
    List.forall_mem_cons.2 ⟨?_, h.height⟩, ?_⟩
  · show 0 + depth ≤ maxCallDepth
    omega
  · exact h.blocks.cons

theorem logFrom_orderly (hv : m.Verified) (hm : ∀ f ∈ m.functions, f.Forward) :
    ∀ (steps : Nat) {f : Function} (fr : Frame) {i depth : Nat} {s : Machine}, f ∈ m.functions →
      i ∈ f.layout → s.depth = depth → depth ≤ maxCallDepth →
      Orderly depth (f.Ascends (f.layout.idxOf i)) (logFrom m steps f fr i s) := by
  intro steps
  induction steps with
  | zero =>
    intro f fr i depth s _ _ _ _
    refine quiet_orderly ?_ .nil
    rintro _ ⟨⟩
  | succ steps ih =>
    intro f fr i depth s hf hi hs hd
    obtain ⟨b, hb, hok⟩ := (hv.bodies f hf (List.ne_nil_of_mem hi)).blocks i hi
    have hcall : ∀ inst ∈ b.insts, ∀ callee args, inst.action = .call callee args →
        ∀ vs s, s.depth = depth →
          Orderly depth (· = []) (logCall (logFrom m steps) m callee vs s) := by
      rintro inst hinst callee args ha vs s rfl
      obtain ⟨g, hg⟩ := hok.typed.callee hinst ha
      refine logCall_orderly hg fun entry he fr s' hs' hd => ?_
      have h := ih fr (List.mem_of_getElem? hg) (List.mem_of_head? he) hs' hd
      exact ⟨h.finds, h.once, h.height, h.blocks.nodup⟩
    have hnext : ∀ j, Function.goesTo b j = true → ∀ fr (s' : Machine), s'.depth = depth →
        Orderly depth (f.Ascends (f.layout.idxOf i + 1)) (logFrom m steps f fr j s') := by
      intro j hj fr s' hs'
      obtain ⟨hjl, hij⟩ := (hm f hf).targets i hi b hb j hj
      have h := ih fr hf hjl hs' hd
      exact ⟨h.finds, h.once, h.height, h.blocks.mono hij⟩
    rw [logFrom, hb]
    refine enter_orderly ((logInsts_orderly fr hcall hs).bind (fun fr' s' hs' => ?_) .nil) hd
    obtain ⟨t, ht⟩ := Option.ne_none_iff_exists'.1 hok.closed
    rw [ht]
    have hsucc : ∀ j ∈ t.successors, Function.goesTo b j = true := fun j hj =>
      (Function.goesTo_iff ht).2 hj
    cases t with
    | jump target => exact hnext target (hsucc target (by simp [Terminator.successors])) fr' s' hs'
    | branch cond onTrue onFalse =>
      refine Orderly.bind (quiet_orderly (orTrap_finds _ hs') rfl) (fun v s'' hs'' => ?_) .nil
      rcases v with (_ | _) | c | n | x
      · exact hnext onFalse (hsucc onFalse (by simp [Terminator.successors])) fr' s'' hs''
      · exact hnext onTrue (hsucc onTrue (by simp [Terminator.successors])) fr' s'' hs''
      · exact quiet_orderly (fail_finds _) .nil
      · exact quiet_orderly (fail_finds _) .nil
      · exact quiet_orderly (fail_finds _) .nil
    | ret value =>
      cases value with
      | none => exact pure_orderly hs' .nil
      | some o =>
        refine Orderly.bind (quiet_orderly (orTrap_finds _ hs') rfl) (fun v s'' hs'' => ?_) .nil
        exact pure_orderly hs'' .nil
    | unreachable => exact quiet_orderly (fail_finds _) .nil

/-- The log of every run is in order. -/
theorem logged_orderly (hx : m.Indexed) (hv : m.Verified) (hm : ∀ f ∈ m.functions, f.Forward)
    (steps : Nat) (name : String) (args : List Scalar) (s : Machine) :
    Orderly s.depth (· = []) (m.logged steps name args s) := by
  unfold Module.logged
  cases hi : m.functionIndex? name with
  | none => exact quiet_orderly (fail_finds _) rfl
  | some index =>
    obtain ⟨g, hg, -⟩ := Module.functionIndex?_some hx hi
    refine logCall_orderly hg fun entry he fr s' hs' hd => ?_
    have h := logFrom_orderly hv hm steps fr (List.mem_of_getElem? hg) (List.mem_of_head? he) hs' hd
    exact ⟨h.finds, h.once, h.height, h.blocks.nodup⟩

/-- With enough steps every run ends in the same way, with a value or with an error of the program.
-/
theorem run_ends (hx : m.Indexed) (hv : m.Verified) (hm : ∀ f ∈ m.functions, f.Forward)
    (name : String) (args : List Scalar) (s : Machine) :
    ∃ r, (∀ steps, m.acyclicSteps ≤ steps → m.run steps name args s = r) ∧
      Ends r (fun _ s' => s'.depth = s.depth) (fun e _ => ∃ err : EvalError, e = .error err) := by
  have hsettles := run_settles hm m.acyclicSteps name args s
  have hfinds : Finds s.depth (m.run m.acyclicSteps name args s) := by
    rw [← erase_logged]
    exact (logged_orderly hx hv hm m.acyclicSteps name args s).finds
  refine ⟨m.run m.acyclicSteps name args s, fun steps hsteps => ?_, ?_⟩
  · rcases run_extended m hsteps name args s with e | ⟨s', hcut⟩
    · exact e.symm
    · exact absurd rfl ((hsettles.of_error hcut).2 (Nat.le_refl _))
  · cases hr : m.run m.acyclicSteps name args s with
    | ok v s' => exact hsettles.of_ok hr
    | error e s' =>
      cases e with
      | error err => exact ⟨err, rfl⟩
      | missing what => exact absurd rfl (hfinds.of_error hr what)
      | exhausted => exact absurd rfl ((hsettles.of_error hr).2 (Nat.le_refl _))

end forward

/-! ## Generated modules -/

open Syntax (Node)
open Lowering

/-- Every run of generated code ends, from any state of the machine and with any arguments: from a
number of steps on, more steps change nothing, and the run has returned or failed with an error of
the program. On the way no call enters a block twice, and calls nest at most as deep as the machine
allows. -/
theorem generated_run_ends {name : String} {root : Node} {m : Module}
    (hm : generate name root = .ok m) (function : String) (args : List Scalar) (s : Machine) :
    (∃ r, (∀ steps, m.acyclicSteps ≤ steps → m.run steps function args s = r) ∧
      Ends r (fun _ s' => s'.depth = s.depth) (fun e _ => ∃ err : EvalError, e = .error err)) ∧
    ∀ steps, (m.logged steps function args s).1 = m.run steps function args s ∧
      EntersOnceIn (m.logged steps function args s).2 ∧
      heightOf (m.logged steps function args s).2 ≤ maxCallDepth - s.depth := by
  obtain ⟨file, rfl, -, hi⟩ := generate_ok hm
  refine ⟨run_ends hi.sane.indexed hi.verified hi.forward function args s, fun steps => ⟨?_, ?_⟩⟩
  · rw [← erase_logged]
    rfl
  · have h := logged_orderly hi.sane.indexed hi.verified hi.forward steps function args s
    refine ⟨entersOnceIn_iff.2 h.once, heightOf_le.2 fun e he => ?_⟩
    have := h.height e he
    omega

/-- Two functions that call each other forever, unless the argument is zero. -/
def volleyTree : Node :=
  let int := branchNode .declarationSpecifiers [leaf .typeSpecifier "int"]
  let params := branchNode .parameterList [
    branchNode .parameterDeclaration [int, leaf .identifier "n"]]
  let args := branchNode .argumentExpressionList [leaf .identifier "n"]
  branchNode .translationUnit [
    branchNode .declaration [int, branchNode .functionDeclarator [leaf .identifier "pong", params]],
    branchNode .functionDefinition [int,
      branchNode .functionDeclarator [leaf .identifier "ping", params],
      branchNode .compoundStatement [
        branchNode .ifElseStatement [leaf .identifier "n",
          branchNode .compoundStatement [
            branchNode .returnExpr [branchNode .functionCall [leaf .identifier "pong", args]]]],
        branchNode .returnExpr [leaf .identifier "n"]]],
    branchNode .functionDefinition [int,
      branchNode .functionDeclarator [leaf .identifier "pong", params],
      branchNode .compoundStatement [
        branchNode .returnExpr [branchNode .functionCall [leaf .identifier "ping", args]]]]]

@[irreducible] def volley : Module :=
  match generate "volley" volleyTree with
  | .ok m => m
  | .error failure => failure.module

/-- The calls of a run that starts 250 calls deep nest six levels deep, and not deeper. -/
theorem volley_run_ends :
    (∃ r, (∀ steps, volley.acyclicSteps ≤ steps →
        volley.run steps "ping" [.int 1] { globals := [], depth := 250 } = r) ∧
      Ends r (fun _ s' => s'.depth = 250) (fun e _ => ∃ err : EvalError, e = .error err)) ∧
    (∀ steps, EntersOnceIn (volley.logged steps "ping" [.int 1] { globals := [], depth := 250 }).2 ∧
      heightOf (volley.logged steps "ping" [.int 1] { globals := [], depth := 250 }).2 ≤ 6) ∧
    heightOf (volley.logged volley.acyclicSteps "ping" [.int 1]
      { globals := [], depth := 250 }).2 = 6 := by
  have hm : generate "volley" volleyTree = .ok volley := by decide +kernel
  obtain ⟨hends, hlog⟩ := generated_run_ends hm "ping" [.int 1] { globals := [], depth := 250 }
  exact ⟨hends, fun steps => (hlog steps).2, by decide +kernel⟩

end SlotIR
