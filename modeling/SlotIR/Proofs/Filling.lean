import Mathlib.Data.Set.Basic
import SlotIR.Proofs.Running
import SlotIR.Proofs.Verifier

/-!
# Slots that are filled when they are read

Which slots are filled is followed along the control flow: each block states slots that are filled
whenever it is entered, an instruction that stores to a slot fills it, and a block goes only where
no more is stated than what is filled at its end (`Function.Flow`). Then the only slots that a run
can find empty are those that the flow leaves out, whatever the arguments and the state of the
machine are (`run_early`).
-/

namespace SlotIR

open RunM Machine

/-! ## Flow -/

/-- The slot that an instruction reads. -/
def Inst.reads? (i : Inst) : Option Nat :=
  match i.action with
  | .load (.slot k) => some k
  | _ => none

/-- The slot that an instruction stores to. -/
def Inst.fills? (i : Inst) : Option Nat :=
  match i.action with
  | .store (.slot k) _ => some k
  | _ => none

/-- The slots that instructions store to. -/
def fillsOf (insts : List Inst) : Set Nat := {k | ∃ i ∈ insts, i.fills? = some k}

/-- Only slots that are filled, or are in `bare`, are read. The slots in `filled` are filled at
first. -/
def ReadsFilled (bare : Set Nat) : Set Nat → List Inst → Prop
  | _, [] => True
  | filled, i :: is =>
    (∀ k, i.reads? = some k → k ∈ filled ∪ bare) ∧ ReadsFilled bare (filled ∪ fillsOf [i]) is

/-- The slots in `inflow i` are filled when block `i` is entered, and no block reads a slot that may
be empty, unless the slot is in `bare`. -/
structure Function.Flow (f : Function) (bare : Set Nat) (inflow : Nat → Set Nat) : Prop where
  reads : ∀ (i : Nat) (b : Block), f.blocks[i]? = some b → ReadsFilled bare (inflow i) b.insts
  passes : ∀ (i : Nat) (b : Block), f.blocks[i]? = some b → ∀ j, goesTo b j = true →
    inflow j ⊆ inflow i ∪ fillsOf b.insts

theorem Inst.reads?_eq_some {i : Inst} {k : Nat} :
    i.reads? = some k ↔ i.action = .load (.slot k) := by
  unfold Inst.reads?
  split
  · next j h => simp [h]
  · next h => simpa using h k

theorem Inst.fills?_eq_some {i : Inst} {k : Nat} :
    i.fills? = some k ↔ ∃ v, i.action = .store (.slot k) v := by
  unfold Inst.fills?
  split
  · next j v h => simp [h]
  · next h => simpa using h k

@[simp] theorem fillsOf_nil : fillsOf [] = ∅ := by
  simp [fillsOf]

theorem fillsOf_append (is js : List Inst) : fillsOf (is ++ js) = fillsOf is ∪ fillsOf js := by
  ext k
  simp [fillsOf, or_and_right, exists_or]

theorem fillsOf_cons (i : Inst) (is : List Inst) : fillsOf (i :: is) = fillsOf [i] ∪ fillsOf is :=
  fillsOf_append [i] is

theorem mem_fillsOf_singleton {i : Inst} {k : Nat} :
    k ∈ fillsOf [i] ↔ ∃ v, i.action = .store (.slot k) v := by
  simp [fillsOf, Inst.fills?_eq_some]

theorem readsFilled_concat {bare : Set Nat} {is : List Inst} {i : Inst} :
    ∀ {filled : Set Nat}, ReadsFilled bare filled (is ++ [i]) ↔
      ReadsFilled bare filled is ∧ ∀ k, i.reads? = some k → k ∈ filled ∪ fillsOf is ∪ bare := by
  induction is with
  | nil =>
    intro filled
    simp [ReadsFilled]
  | cons j is ih =>
    intro filled
    rw [List.cons_append, ReadsFilled, ReadsFilled, ih, and_assoc, fillsOf_cons j is,
      ← Set.union_assoc]

/-! ## Runs -/

/-- An empty slot was read only if `allowed` says so. -/
def Early (allowed : String → Nat → Prop) (e : Fault EvalError) : Prop :=
  ∀ name k, e = .error (.uninitializedRead name k) → allowed name k

/-- All of the given slots have contents. -/
def Frame.Filled (fr : Frame) (filled : Set Nat) : Prop :=
  ∀ k ∈ filled, ∃ v, fr.slots[k]? = some (some v)

section runs

variable {α : Type} {f : Function} {fr : Frame} {s : Machine} {filled bare : Set Nat}
  {allowed : String → Nat → Prop}

theorem Frame.Filled.bind (h : fr.Filled filled) (result : Option Nat) (value : Option Scalar) :
    (fr.bind result value).Filled filled := by
  unfold Frame.bind
  split
  · exact h
  · exact h

theorem Frame.Filled.store (h : fr.Filled filled) {i : Nat} (hi : i < fr.slots.length)
    (v : Scalar) :
    ({ fr with slots := fr.slots.set i (some v) } : Frame).Filled (filled ∪ {i}) := by
  rintro k hk
  by_cases hik : i = k
  · subst hik
    exact ⟨v, by simp [hi]⟩
  · obtain ⟨w, hw⟩ := h k (hk.resolve_right (Ne.symm hik))
    exact ⟨w, by simp [hik, hw]⟩

theorem fail_early {e : EvalError} {P : α → Machine → Prop}
    (he : ∀ name k, e ≠ .uninitializedRead name k) :
    Ends (fail e s) P (fun e _ => Early allowed e) := by
  rintro name k ⟨⟩
  exact absurd rfl (he name k)

theorem orTrap_early (x : Except Trap α) :
    Ends (orTrap f x s) (fun _ _ => True) (fun e _ => Early allowed e) := by
  cases x with
  | ok a => trivial
  | error t => exact fail_early nofun

/-- A slot that is found empty was not stated as filled. -/
theorem load_early (hfr : fr.Filled filled) (hallowed : ∀ k ∈ bare, allowed f.name k)
    {address : Operand}
    (ha : ∀ k, address = .slot k → k ∈ filled ∪ bare) :
    Ends (load f fr address s) (fun _ _ => True) (fun e _ => Early allowed e) := by
  cases address with
  | slot k =>
    by_cases hv : ∃ v, fr.slots[k]? = some (some v)
    · obtain ⟨v, hv⟩ := hv
      rw [load_slot hv]
      trivial
    · rw [load_slot_empty fun v h => hv ⟨v, h⟩]
      rintro name k' ⟨⟩
      refine hallowed k ((ha k rfl).resolve_left fun hk => hv (hfr k hk))
  | global i =>
    unfold load
    dsimp only
    rw [bind_of_ok (get_run s)]
    cases s.globals[i]? with
    | some v => trivial
    | none => exact fail_early nofun
  | _ => exact fail_early nofun

theorem store_early (hfr : fr.Filled filled) (address : Operand) (v : Scalar) :
    Ends (store f fr address v s) (fun fr' _ => fr'.Filled (filled ∪ {k | address = .slot k}))
      (fun e _ => Early allowed e) := by
  have hkeep : ∀ o : Operand, (∀ k, o ≠ .slot k) → fr.Filled (filled ∪ {k | o = .slot k}) := by
    rintro o ho k (hk | hk)
    · exact hfr k hk
    · exact absurd hk (ho k)
  cases address with
  | slot i =>
    unfold store
    dsimp only
    split
    · next hi =>
      have h := hfr.store hi v
      rintro k (hk | hk)
      · exact h k (.inl hk)
      · cases hk
        exact h i (.inr rfl)
    · exact fail_early nofun
  | global i =>
    unfold store
    dsimp only
    rw [bind_of_ok (get_run s)]
    split
    · exact hkeep _ nofun
    · exact fail_early nofun
  | _ => exact fail_early nofun

variable {call : Nat → List Scalar → RunM (Option Scalar)}

theorem runInst_early
    (hcall : ∀ i args s, Ends (call i args s) (fun _ _ => True) fun e _ => Early allowed e)
    (hallowed : ∀ k ∈ bare, allowed f.name k) (hfr : fr.Filled filled) {i : Inst}
    (hi : ∀ k, i.reads? = some k → k ∈ filled ∪ bare) :
    Ends (runInst call f fr i s) (fun fr' _ => fr'.Filled (filled ∪ fillsOf [i]))
      (fun e _ => Early allowed e) := by
  have hkeep : (∀ k v, i.action ≠ .store k v) → filled ∪ fillsOf [i] = filled := by
    intro h
    rw [Set.union_eq_left]
    intro k hk
    obtain ⟨v, hv⟩ := mem_fillsOf_singleton.1 hk
    exact absurd hv (h _ v)
  unfold runInst
  cases ha : i.action with
  | load address =>
    rw [hkeep (by simp [ha])]
    refine (load_early hfr hallowed fun k e => hi k ?_).bind fun v _ _ => hfr.bind i.result (some v)
    rw [Inst.reads?_eq_some, ha, e]
  | store address value =>
    refine (orTrap_early _).bind fun v s' _ => (store_early hfr address v).mono ?_ fun _ _ h => h
    rintro fr' _ h k (hk | hk)
    · exact h k (.inl hk)
    · obtain ⟨w, hw⟩ := mem_fillsOf_singleton.1 hk
      cases ha.symm.trans hw
      exact h k (.inr rfl)
  | cast op value =>
    rw [hkeep (by simp [ha])]
    refine (orTrap_early _).bind fun _ _ _ => ?_
    exact (orTrap_early _).bind fun v _ _ => hfr.bind i.result (some v)
  | compare lhs rhs =>
    rw [hkeep (by simp [ha])]
    refine (orTrap_early _).bind fun _ _ _ => (orTrap_early _).bind fun _ _ _ => ?_
    exact (orTrap_early _).bind fun v _ _ => hfr.bind i.result (some v)
  | call callee args =>
    rw [hkeep (by simp [ha])]
    refine (orTrap_early _).bind fun vs s' _ => ?_
    exact (hcall callee vs s').bind fun v _ _ => hfr.bind i.result v

theorem runInsts_early
    (hcall : ∀ i args s, Ends (call i args s) (fun _ _ => True) fun e _ => Early allowed e)
    (hallowed : ∀ k ∈ bare, allowed f.name k) (is : List Inst) :
    ∀ {filled : Set Nat} {fr : Frame} {s : Machine}, fr.Filled filled → ReadsFilled bare filled is →
      Ends (runInsts call f is fr s) (fun fr' _ => fr'.Filled (filled ∪ fillsOf is))
        (fun e _ => Early allowed e) := by
  induction is with
  | nil =>
    intro filled fr s hfr _
    rw [fillsOf_nil, Set.union_empty]
    exact hfr
  | cons i is ih =>
    intro filled fr s hfr h
    rw [fillsOf_cons, ← Set.union_assoc]
    exact (runInst_early hcall hallowed hfr h.1).bind fun fr' s' hfr' => ih hfr' h.2

end runs

/-- Every body has a flow that starts with nothing. -/
def Module.Flows (m : Module) (bare : Function → Set Nat) : Prop :=
  ∀ f ∈ m.functions, ∀ entry, f.entry? = some entry →
    ∃ inflow, f.Flow (bare f) inflow ∧ inflow entry = ∅

section flows

variable {m : Module} {bare : Function → Set Nat} {allowed : String → Nat → Prop}

theorem callWith_early {enter : Function → Frame → Nat → RunM (Option Scalar)}
    (henter : ∀ f ∈ m.functions, ∀ entry, f.entry? = some entry → ∀ fr s,
      Ends (enter f fr entry s) (fun _ _ => True) fun e _ => Early allowed e)
    (index : Nat) (args : List Scalar) (s : Machine) :
    Ends (callWith enter m index args s) (fun _ _ => True) fun e _ => Early allowed e := by
  cases hg : m.functions[index]? with
  | none =>
    rw [callWith, hg]
    rintro name k ⟨⟩
  | some g =>
  cases hl : g.layout with
  | nil =>
    rw [callWith_noBody hg hl]
    exact fail_early (by rintro _ _ ⟨⟩)
  | cons entry rest =>
  have he : g.entry? = some entry := by rw [ Function.entry?, hl]; rfl
  by_cases ha : args.length = g.signature.params.length
  · by_cases hd : s.depth < maxCallDepth
    · have h := henter g (List.mem_of_getElem? hg) entry he (.start g args)
        { s with depth := s.depth + 1 }
      rw [callWith_enter hg hl ha hd]
      cases hr : enter g (.start g args) entry { s with depth := s.depth + 1 } with
      | ok v s' =>
        rw [deeper_ok hr]
        trivial
      | error e s' =>
        rw [deeper_error hr]
        exact h.of_error hr
    · rw [callWith_callDepth hg hl ha (Nat.not_lt.1 hd)]
      exact fail_early (by rintro _ _ ⟨⟩)
  · rw [callWith_argumentCount hg hl ha]
    exact fail_early (by rintro _ _ ⟨⟩)

theorem runFrom_early (hm : m.Flows bare)
    (hallowed : ∀ f ∈ m.functions, ∀ k ∈ bare f, allowed f.name k) :
    ∀ (steps : Nat) {f : Function} {inflow : Nat → Set Nat} {fr : Frame} {i : Nat} {s : Machine},
      f ∈ m.functions → f.Flow (bare f) inflow → fr.Filled (inflow i) →
      Ends (runFrom m steps f fr i s) (fun _ _ => True) fun e _ => Early allowed e := by
  intro steps
  induction steps with
  | zero =>
    rintro f inflow fr i s _ _ _ name k ⟨⟩
  | succ steps ih =>
    intro f inflow fr i s hf hflow hfr
    cases hb : f.blocks[i]? with
    | none =>
      rw [runFrom, hb]
      rintro name k ⟨⟩
    | some b =>
    rw [runFrom_succ m steps f fr hb]
    have hcall : ∀ index args s, Ends (callWith (runFrom m steps) m index args s) (fun _ _ => True)
        fun e _ => Early allowed e := by
      refine callWith_early fun g hg entry he fr s => ?_
      obtain ⟨inflow, hg', hnone⟩ := hm g hg entry he
      refine ih hg hg' ?_
      rw [hnone]
      exact fun k hk => hk.elim
    have hinsts := runInsts_early hcall (hallowed f hf) b.insts hfr (hflow.reads i b hb) (s := s)
    refine hinsts.bind fun fr' s' hfr' => ?_
    have hnext : ∀ (j : Nat) (s' : Machine), Function.goesTo b j = true →
        Ends (runFrom m steps f fr' j s') (fun _ _ => True) fun e _ => Early allowed e := by
      intro j s' hj
      exact ih hf hflow fun k hk => hfr' k (hflow.passes i b hb j hj hk)
    cases ht : b.terminator with
    | none => exact fail_early (by rintro _ _ ⟨⟩)
    | some t =>
    have hsucc : ∀ j ∈ t.successors, Function.goesTo b j = true := fun j hj =>
      (Function.goesTo_iff ht).2 hj
    cases t with
    | jump target => exact hnext target s' (hsucc target (by simp [Terminator.successors]))
    | branch cond onTrue onFalse =>
      refine (orTrap_early _).bind fun v s'' _ => ?_
      rcases v with (_ | _) | c | n | x
      · exact hnext onFalse s'' (hsucc onFalse (by simp [Terminator.successors]))
      · exact hnext onTrue s'' (hsucc onTrue (by simp [Terminator.successors]))
      · exact fail_early (by rintro _ _ ⟨⟩)
      · exact fail_early (by rintro _ _ ⟨⟩)
      · exact fail_early (by rintro _ _ ⟨⟩)
    | ret value =>
      cases value with
      | none => trivial
      | some o => exact (orTrap_early _).bind fun _ _ _ => trivial
    | unreachable => exact fail_early (by rintro _ _ ⟨⟩)

/-- A run that reads an empty slot reads one that the flow of its function leaves out. -/
theorem run_early (hm : m.Flows bare) (steps : Nat) (name : String) (args : List Scalar)
    (s : Machine)
    {function : String} {k : Nat} {s' : Machine}
    (h : m.run steps name args s = .error (.error (.uninitializedRead function k)) s') :
    ∃ f ∈ m.functions, f.name = function ∧ k ∈ bare f := by
  have hearly : Ends (m.run steps name args s) (fun _ _ => True)
      fun e _ => Early (fun function k => ∃ f ∈ m.functions, f.name = function ∧ k ∈ bare f) e := by
    unfold Module.run
    cases m.functionIndex? name with
    | none => exact fail_early (by rintro _ _ ⟨⟩)
    | some index =>
      refine callWith_early (fun f hf entry he fr s => ?_) index args s
      obtain ⟨inflow, hflow, hnone⟩ := hm f hf entry he
      refine runFrom_early hm (fun f hf k hk => ⟨f, hf, rfl, hk⟩) steps hf hflow ?_
      rw [hnone]
      exact fun k hk => hk.elim
  exact hearly.of_error h function k rfl

end flows

end SlotIR
