import SlotIR.Proofs.Correspondence
import SlotIR.Proofs.Emission
import SlotIR.Proofs.Resumption

/-!
# Code does what its tree says

A node of a body is evaluated on the tree, and the code that was emitted for it runs on the machine.
From states that match, both go to states that match, or both end the call in the same way
(`Runs`). Where the tree goes on, the run of the code has come from the place of the draft before the
node to the place of the draft after it: every result that the rest of the call leads to from there,
it leads to from here (`Arrives.back`). No number of steps is counted on the way.
-/

namespace SlotIR

open Syntax (Node)
open RunM Machine Lowering

/-! ## Outcomes -/

/-- What an error of a run is to the tree. Slots and limits have no meaning there. -/
def EvalError.failure? : EvalError → Option Source.Failure
  | .unknownFunction name => some (.unknownFunction name)
  | .noBody name => some (.noBody name)
  | .argumentCount name found needs => some (.argumentCount name found needs)
  | .uninitializedRead function _ => some (.uninitialized function)
  | .callDepth _ => some .callDepth
  | .unreachable _ | .missingTerminator .. | .trap .. => none

/-- A call ends like the evaluation of a body. -/
inductive Ended (m : Module) (depth : Nat) : Source.Stop → Source.State → CallResult → Prop
  | returned {v : Option Scalar} {σ : Source.State} {s : Machine} (globals : Stored m σ.globals s)
    (level : s.depth = depth) : Ended m depth (.returned v) σ (.ok v s)
  | failed {e : Source.Failure} {err : EvalError} {σ : Source.State} {s : Machine}
    (same : err.failure? = some e) (globals : Stored m σ.globals s) (level : s.depth = depth) :
    Ended m depth (.failed e) σ (.error (.error err) s)

/-! ## Frames -/

/-- What the code after the place of a draft keeps of a frame. -/
structure Keeps (d : Draft) (fr fr' : Frame) : Prop where
  args : fr'.args = fr.args
  temps : ∀ id < d.function.nextValue, fr'.temps.lookup id = fr.temps.lookup id

/-- The value `v` of the code is `x` at the place of a draft. -/
structure ValueAt (d : Draft) (fr : Frame) (v : Value) (x : Scalar) : Prop where
  operand : fr.operand v.operand = .ok x
  type : x.ty = v.ty
  defined : ∀ id, v.operand = .temp id → id < d.function.nextValue

section frames

variable {d d' : Draft} {fr fr' fr'' : Frame} {v : Value} {x : Scalar} {ty : Ty} {a : Action}

theorem Keeps.refl (d : Draft) (fr : Frame) : Keeps d fr fr := ⟨rfl, fun _ _ => rfl⟩

theorem Keeps.trans (h : Keeps d fr fr') (h' : Keeps d' fr' fr'')
    (hle : d.function.nextValue ≤ d'.function.nextValue) : Keeps d fr fr'' := by
  refine ⟨h'.args.trans h.args, fun id hid => ?_⟩
  rw [h'.temps id (by omega), h.temps id hid]

theorem ValueAt.later (h : ValueAt d fr v x) (hk : Keeps d fr fr')
    (hle : d.function.nextValue ≤ d'.function.nextValue) : ValueAt d' fr' v x := by
  obtain ⟨ho, hty, hdef⟩ := h
  refine ⟨?_, hty, fun id hid => Nat.lt_of_lt_of_le (hdef id hid) hle⟩
  rw [← ho]
  cases hop : v.operand with
  | const c => rfl
  | arg i => rw [Frame.operand, Frame.operand, hk.args]
  | temp id => rw [Frame.operand, Frame.operand, hk.temps id (hdef id hop)]
  | slot i | global i => rfl

theorem nextValue_emit (ht : ty ≠ .void) :
    (d.emit ty a).function.nextValue = d.function.nextValue + 1 := by
  show (d.reopen.function.emit d.reopen.block ty a).nextValue = _
  simp [Function.emit, ht]

/-- Naming the result of the next instruction keeps all results so far. -/
theorem Keeps.bind (d : Draft) (fr : Frame) (ty : Ty) (a : Action) (w : Option Scalar) :
    Keeps d fr (fr.bind (d.function.nextInst ty a).result w) := by
  unfold Frame.bind
  split
  · rename_i id y hid
    refine ⟨rfl, fun j hj => ?_⟩
    have hne : j ≠ id := by
      have e : id = d.function.nextValue := by
        simp only [Function.nextInst] at hid
        split at hid
        · cases hid
        · exact (Option.some.inj hid).symm
      omega
    rw [List.lookup_cons, beq_false_of_ne hne]
  · exact .refl d fr

theorem ValueAt.bind (d : Draft) (fr : Frame) (a : Action) (ht : ty ≠ .void) (hx : x.ty = ty) :
    ValueAt (d.emit ty a) (fr.bind (d.function.nextInst ty a).result (some x))
      ⟨.temp d.function.nextValue, ty⟩ x := by
  have hr : (d.function.nextInst ty a).result = some d.function.nextValue := by
    simp [Function.nextInst, ht]
  refine ⟨?_, hx, fun id hid => ?_⟩
  · rw [hr, Frame.bind, Frame.operand, List.lookup_cons_self]
  · cases hid
    rw [nextValue_emit ht]
    exact Nat.lt_succ_self _

end frames

/-! ## Runs from place to place -/

section runs

variable (m : Module) (f : Function) (depth : Nat)

/-- The run of the code has come from the place of `d` to the place of `d'`. -/
structure Arrives (d : Draft) (fr : Frame) (s : Machine) (d' : Draft)
    (locals : List (String × Value)) (σ' : Source.State) (fr' : Frame) (s' : Machine) : Prop where
  state : Match m f depth d' locals σ' fr' s'
  live : d'.function.closedAt d'.block = false
  keeps : Keeps d fr fr'
  back : ∀ r, d'.LeadsTo m f fr' s' r → d.LeadsTo m f fr s r

/-- From the place of `d` the call ends like the evaluation of the tree. -/
def Breaks (d : Draft) (fr : Frame) (s : Machine) (e : Source.Stop) (σ' : Source.State) : Prop :=
  ∃ r, Ended m depth e σ' r ∧ d.LeadsTo m f fr s r

/-- The tree goes on where the code arrives at `d'`, and otherwise both end the call. -/
def Runs {α : Type} (d : Draft) (fr : Frame) (s : Machine) (d' : Draft)
    (locals : List (String × Value)) (x : EStateM.Result Source.Stop Source.State α)
    (Q : α → Frame → Prop) : Prop :=
  Ends x (fun a σ' => ∃ fr' s', Arrives m f depth d fr s d' locals σ' fr' s' ∧ Q a fr')
    (Breaks m f depth d fr s)

variable {m f depth} {α β : Type} {d d₁ d' : Draft} {fr fr₁ : Frame} {s s₁ : Machine}
  {locals locals₁ : List (String × Value)} {σ σ₁ : Source.State}

theorem Arrives.refl (h : Match m f depth d locals σ fr s)
    (hl : d.function.closedAt d.block = false) : Arrives m f depth d fr s d locals σ fr s :=
  ⟨h, hl, .refl d fr, fun _ h => h⟩

theorem Arrives.trans {σ' : Source.State} {fr' : Frame} {s' : Machine}
    (h : Arrives m f depth d fr s d₁ locals₁ σ₁ fr₁ s₁)
    (h' : Arrives m f depth d₁ fr₁ s₁ d' locals σ' fr' s')
    (hle : d.function.nextValue ≤ d₁.function.nextValue) :
    Arrives m f depth d fr s d' locals σ' fr' s' :=
  ⟨h'.state, h'.live, h.keeps.trans h'.keeps hle, fun r hr => h.back r (h'.back r hr)⟩

variable {Q : α → Frame → Prop} {R : β → Frame → Prop}

theorem Runs.after {x : EStateM.Result Source.Stop Source.State α}
    (h : Arrives m f depth d fr s d₁ locals₁ σ₁ fr₁ s₁)
    (hle : d.function.nextValue ≤ d₁.function.nextValue)
    (hr : Runs m f depth d₁ fr₁ s₁ d' locals x Q) : Runs m f depth d fr s d' locals x Q := by
  refine Ends.mono hr ?_ ?_
  · rintro a σ' ⟨fr', s', ha, hq⟩
    exact ⟨fr', s', h.trans ha hle, hq⟩
  · rintro e σ' ⟨r, he, hlead⟩
    exact ⟨r, he, h.back r hlead⟩

theorem Runs.bind {x : Source.EvalM α} {g : α → Source.EvalM β}
    (hx : Runs m f depth d fr s d₁ locals₁ (x σ) Q)
    (hle : d.function.nextValue ≤ d₁.function.nextValue)
    (hg : ∀ a σ₁ fr₁ s₁, Match m f depth d₁ locals₁ σ₁ fr₁ s₁ →
      d₁.function.closedAt d₁.block = false → Q a fr₁ →
      Runs m f depth d₁ fr₁ s₁ d' locals (g a σ₁) R) :
    Runs m f depth d fr s d' locals ((x >>= g) σ) R := by
  refine Ends.bind hx ?_
  rintro a σ₁ ⟨fr₁, s₁, ha, hq⟩
  exact Runs.after ha hle (hg a σ₁ fr₁ s₁ ha.state ha.live hq)

theorem Runs.map {x : Source.EvalM α} {g : α → β} (hx : Runs m f depth d fr s d' locals (x σ) Q)
    (hg : ∀ a fr', Keeps d fr fr' → Q a fr' → R (g a) fr') :
    Runs m f depth d fr s d' locals ((x >>= fun a => pure (g a)) σ) R := by
  refine Ends.bind hx ?_
  rintro a σ₁ ⟨fr₁, s₁, ha, hq⟩
  exact ⟨fr₁, s₁, ha, hg a fr₁ ha.keeps hq⟩

theorem Runs.mono {Q' : α → Frame → Prop} {x : EStateM.Result Source.Stop Source.State α}
    (h : Runs m f depth d fr s d' locals x Q) (hq : ∀ a fr', Q a fr' → Q' a fr') :
    Runs m f depth d fr s d' locals x Q' := by
  refine Ends.mono h ?_ fun _ _ h => h
  rintro a σ' ⟨fr', s', ha, hqa⟩
  exact ⟨fr', s', ha, hq a fr' hqa⟩

/-- An instruction at the place of a draft. -/
theorem Arrives.emit {k : Nat} {pend : List Nat} {ty : Ty} {a : Action} (hi : d.Inv k pend)
    (ho : d.function.closedAt d.block = false) (he : (d.emit ty a).function.Extends f)
    {σ' : Source.State} {fr' : Frame} {s' : Machine}
    (hrun : Eventually (fun steps =>
      runInst (callWith (runFrom m steps) m) f fr (d.function.nextInst ty a) s) (.ok fr' s'))
    (hm : Match m f depth d locals σ' fr' s') (hk : Keeps d fr fr') :
    Arrives m f depth d fr s (d.emit ty a) locals σ' fr' s' := by
  refine ⟨hm.at_later ?_, Draft.emit_open, hk, fun r => Draft.leadsTo_emit hi ho he hrun⟩
  rw [Draft.emit_slots]

/-! ### Conversions -/

theorem convert_of_conversion {x : Scalar} {ty : Ty} {op : CastOp}
    (h : conversion? x.ty ty = some op) :
    ∃ y, op.apply x ty = .ok y ∧ Source.convert x ty = some y ∧ y.ty = ty := by
  cases x <;> cases ty <;> cases h <;> exact ⟨_, rfl, rfl, rfl⟩

theorem convert_of_type {x : Scalar} {ty : Ty} (h : x.ty = ty) : Source.convert x ty = some x := by
  subst h
  cases x <;> rfl

/-- The test of a condition is whether it is a number other than zero. -/
theorem lessOrGreater_zero (x : Binary32) :
    x.lessOrGreater (.zero false) = (!x.isNaN && x.magnitude.val != 0) := by
  have hz : (Binary32.zero false).isNaN = false := by decide
  by_cases h : x.magnitude.val = 0
  · simp [Binary32.lessOrGreater, Binary32.zero, h]
  · have hne : x ≠ .zero false := by
      rintro rfl
      exact h rfl
    have hb : (x != .zero false) = true := bne_iff_ne.2 hne
    have hm : (x.magnitude.val == 0) = false := beq_false_of_ne h
    rw [Binary32.lessOrGreater, hz, hb, hm, bne, hm]
    simp

theorem convertIn_arrives {k : Nat} {pend : List Nat} {v w : Value} {ty : Ty} {x : Scalar}
    (hi : d.Inv k pend) (ho : d.function.closedAt d.block = false) (he : d'.function.Extends f)
    (hm : Match m f depth d locals σ fr s) (hv : ValueAt d fr v x)
    (h : convertIn d v ty = some (w, d')) :
    ∃ y fr', Source.convert x ty = some y ∧ Arrives m f depth d fr s d' locals σ fr' s ∧
      ValueAt d' fr' w y ∧ y.ty = ty := by
  unfold convertIn at h
  split at h
  · rename_i e
    cases h
    have hx := hv.type.trans e
    exact ⟨x, fr, convert_of_type hx, .refl hm ho, hv, hx⟩
  · obtain ⟨op, hop, e⟩ := Option.map_eq_some_iff.1 h
    cases e
    rw [← hv.type] at hop
    obtain ⟨y, happly, hconv, hy⟩ := convert_of_conversion hop
    have hne := (conversion?_allows hop).2
    have hrun : ∀ steps, runInst (callWith (runFrom m steps) m) f fr
        (d.function.nextInst ty (.cast op v.operand)) s =
        .ok (fr.bind (d.function.nextInst ty (.cast op v.operand)).result (some y)) s :=
      fun _ => runInst_cast rfl hv.operand happly
    refine ⟨y, _, hconv, .emit hi ho he (.of_eq hrun) (hm.bind_result _ _) (.bind d fr ty _ _), ?_, hy⟩
    exact .bind d fr _ hne hy

theorem conditionIn_arrives {k : Nat} {pend : List Nat} {v : Value} {cond : Operand} {x : Scalar}
    (hi : d.Inv k pend) (ho : d.function.closedAt d.block = false) (he : d'.function.Extends f)
    (hm : Match m f depth d locals σ fr s) (hv : ValueAt d fr v x)
    (hu : d.module.Uses d.function d.defined v.operand v.ty)
    (h : conditionIn d v = some (cond, d')) :
    ∃ c fr', Source.truth x = some c ∧ Arrives m f depth d fr s d' locals σ fr' s ∧
      fr'.operand cond = .ok (.bool c) := by
  obtain ⟨⟨w, d₁⟩, hc, e⟩ := Option.map_eq_some_iff.1 h
  cases e
  obtain ⟨hi₁, hext, -, -, -, -⟩ := convertIn_uses hi hu hc
  have he₁ := Draft.Extends.emit.function.trans he
  obtain ⟨y, fr₁, hconv, ha, hw, hy⟩ := convertIn_arrives hi ho he₁ hm hv hc
  cases y with
  | float z =>
    have hrun : ∀ steps, runInst (callWith (runFrom m steps) m) f fr₁ (d₁.function.nextInst .bool
        (.compare w.operand (.const (.float (.zero false))))) s =
        .ok (fr₁.bind (d₁.function.nextInst .bool (.compare w.operand
          (.const (.float (.zero false))))).result (some (.bool (z.lessOrGreater (.zero false))))) s :=
      fun _ => runInst_compare rfl hw.operand rfl
    refine ⟨z.lessOrGreater (.zero false), _, ?_, ha.trans (.emit hi₁ ha.live he (.of_eq hrun)
      (ha.state.bind_result _ _) (.bind d₁ fr₁ .bool _ _)) hext.function.nextValue, ?_⟩
    · rw [Source.truth, hconv, lessOrGreater_zero]
    · have hne : Ty.bool ≠ .void := by simp
      exact (ValueAt.bind d₁ fr₁ _ hne rfl).operand
  | bool _ | char _ | int _ => cases hy

end runs

end SlotIR
