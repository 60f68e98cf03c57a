import SlotIR.Proofs.Running
import SlotIR.Proofs.Verifier

/-!
# Verified modules run safely

The verifier and the machine are separate code; here they meet. A frame and a machine are *typed*
when slots, arguments and globals hold values of the types that the module states, and a frame
*holds* the temporaries that are defined at a place. Every instruction that obeys its rule keeps
this and never traps (`runInst_sound`), so does every block, and by induction on the number of
steps so does every run (`runFrom_sound`). The induction also records which blocks control can be
in: the entry and the targets of blocks of the body.
-/

namespace SlotIR

open RunM Machine

/-! ## Typed states -/

/-- What a function with a return type returns: a value of this type, or nothing. -/
def Returns (ret : Ty) : Option Scalar → Prop
  | none => ret = .void
  | some v => v.ty = ret

/-- Every argument has the type of the parameter at its place. -/
def Fits (args : List Scalar) (params : List Ty) : Prop :=
  ∀ p ∈ args.zip params, p.1.ty = p.2

instance (args : List Scalar) (params : List Ty) : Decidable (Fits args params) :=
  inferInstanceAs (Decidable (∀ p ∈ _, _))

theorem Fits.map_ty {args : List Scalar} :
    ∀ {params : List Ty}, Fits args params → args.length = params.length →
      args.map Scalar.ty = params := by
  induction args with
  | nil =>
    intro params _ hl
    exact (List.eq_nil_of_length_eq_zero hl.symm).symm
  | cons v vs ih =>
    intro params h hl
    cases params with
    | nil => cases hl
    | cons t ts =>
      rw [Fits, List.zip_cons_cons, List.forall_mem_cons] at h
      rw [List.map_cons, h.1, ih h.2 (Nat.succ.inj hl)]

theorem fits_of_map_ty {args : List Scalar} :
    ∀ {params : List Ty}, args.map Scalar.ty = params → Fits args params := by
  induction args with
  | nil =>
    rintro params rfl
    exact nofun
  | cons v vs ih =>
    rintro params rfl
    rw [Fits, List.map_cons, List.zip_cons_cons, List.forall_mem_cons]
    exact ⟨rfl, ih rfl⟩

/-- Every global holds a value of its type. -/
def Machine.Typed (m : Module) (s : Machine) : Prop :=
  s.globals.map Scalar.ty = m.globals.map (·.ty)

/-- Arguments and slots hold values of the types that the function states. -/
structure Frame.Typed (f : Function) (fr : Frame) : Prop where
  args : fr.args.map Scalar.ty = f.signature.params
  slots : fr.slots.length = f.slots.length
  contents : ∀ {i : Nat} {s : Slot} {v : Scalar}, f.slots[i]? = some s →
    fr.slots[i]? = some (some v) → v.ty = s.ty

theorem Machine.Typed.length {m : Module} {s : Machine} (h : s.Typed m) :
    s.globals.length = m.globals.length := by
  have e := congrArg List.length h
  rwa [List.length_map, List.length_map] at e

theorem Machine.Typed.write {m : Module} {s : Machine} (h : s.Typed m) {i : Nat} {g : Global}
    {v : Scalar} (hg : m.globals[i]? = some g) (hv : v.ty = g.ty) :
    { s with globals := s.globals.set i v }.Typed m := by
  rw [Machine.Typed, List.map_set, h, hv]
  apply List.ext_getElem?
  intro j
  rw [List.getElem?_set]
  split
  · next e =>
    subst e
    rw [List.length_map, if_pos (List.getElem?_eq_some_iff.1 hg).1, List.getElem?_map, hg]
    rfl
  · rfl

theorem Frame.Typed.write {f : Function} {fr : Frame} (h : fr.Typed f) {i : Nat} {sl : Slot}
    {v : Scalar} (hsl : f.slots[i]? = some sl) (hv : v.ty = sl.ty) :
    { fr with slots := fr.slots.set i (some v) }.Typed f := by
  refine ⟨h.args, ?_, ?_⟩
  · rw [List.length_set]
    exact h.slots
  · intro j sl' w hj hw
    rw [List.getElem?_set] at hw
    split at hw
    · next e =>
      subst e
      have hlt : i < fr.slots.length := by
        rw [h.slots]
        exact (List.getElem?_eq_some_iff.1 hsl).1
      rw [if_pos hlt] at hw
      cases hw
      cases hsl.symm.trans hj
      exact hv
    · exact h.contents hj hw

/-- The temporaries that are defined at a place have values of their types. -/
def Frame.Holds (f : Function) (defined : List Nat) (fr : Frame) : Prop :=
  ∀ id ∈ defined, ∃ v, fr.temps.lookup id = some v ∧ f.resultType? id = some v.ty

/-- How the run of a verified module may stop. A slot that is read too early exists, and code that
is marked as unreachable is only reached where control can get to. -/
def Allowed (m : Module) : Fault EvalError → Prop
  | .exhausted => True
  | .missing _ => False
  | .error e =>
    match e with
    | .trap .. | .missingTerminator .. => False
    | .uninitializedRead name slot => ∃ f ∈ m.functions, f.name = name ∧ slot < f.slots.length
    | .unreachable name => ∃ f ∈ m.functions, f.name = name ∧ ∃ i ∈ f.layout, f.Entered i ∧
        ∃ b, f.blocks[i]? = some b ∧ b.terminator = some .unreachable
    | .unknownFunction _ | .noBody _ | .argumentCount .. | .callDepth _ => True

/-- A computation stops in an allowed way, in a typed state. -/
def Stops (m : Module) (e : Fault EvalError) (s : Machine) : Prop :=
  Allowed m e ∧ s.Typed m

/-- Calls with arguments that fit return what the callee states. -/
def CallSound (m : Module) (call : Nat → List Scalar → RunM (Option Scalar)) : Prop :=
  ∀ {index : Nat} {g : Function} {args : List Scalar} {s : Machine},
    m.functions[index]? = some g → Fits args g.signature.params → s.Typed m →
      Ends (call index args s) (fun v s' => Returns g.signature.ret v ∧ s'.Typed m) (Stops m)

/-! ## Operands -/

section operands

variable {m : Module} {f : Function} {fr : Frame} {defined : List Nat} {o : Operand} {t : Ty}

/-- An operand of a scalar type has a value of this type. -/
theorem operand_of_uses (h : m.Uses f defined o t) (hfr : fr.Typed f) (hh : fr.Holds f defined)
    (ht : t.isScalar = true) : ∃ v, fr.operand o = .ok v ∧ v.ty = t := by
  obtain ⟨h, hd⟩ := h
  cases o with
  | const v => exact ⟨v, rfl, Option.some.inj h⟩
  | arg i =>
    rw [Module.operandType?, ← hfr.args, List.getElem?_map] at h
    obtain ⟨v, hv, hvt⟩ := Option.map_eq_some_iff.1 h
    exact ⟨v, by rw [Frame.operand, hv], hvt⟩
  | temp id =>
    obtain ⟨v, hv, hvt⟩ := hh id (hd id rfl)
    exact ⟨v, by rw [Frame.operand, hv], Option.some.inj (hvt.symm.trans h)⟩
  | slot i =>
    obtain ⟨s, -, rfl⟩ := Option.map_eq_some_iff.1 h
    cases ht
  | global i =>
    obtain ⟨g, -, rfl⟩ := Option.map_eq_some_iff.1 h
    cases ht

/-- Only slots and globals are addresses. -/
theorem address_of_uses (h : m.Uses f defined o (.ptr t)) (hp : f.signature.Plain)
    (hh : fr.Holds f defined) :
    (∃ i s, o = .slot i ∧ f.slots[i]? = some s ∧ s.ty = t) ∨
      ∃ i g, o = .global i ∧ m.globals[i]? = some g ∧ g.ty = t := by
  obtain ⟨h, hd⟩ := h
  cases o with
  | const v =>
    have hv := v.isScalar_ty
    rw [Option.some.inj h] at hv
    cases hv
  | arg i => cases hp.1 _ (List.mem_of_getElem? h)
  | temp id =>
    obtain ⟨v, -, hvt⟩ := hh id (hd id rfl)
    have hv := v.isScalar_ty
    rw [Option.some.inj (hvt.symm.trans h)] at hv
    cases hv
  | slot i =>
    obtain ⟨s, hs, e⟩ := Option.map_eq_some_iff.1 h
    exact .inl ⟨i, s, rfl, hs, Ty.ptr.inj e⟩
  | global i =>
    obtain ⟨g, hg, e⟩ := Option.map_eq_some_iff.1 h
    exact .inr ⟨i, g, rfl, hg, Ty.ptr.inj e⟩

end operands

/-! ## Instructions -/

/-- A conversion between types that it allows has a result of the target type. -/
theorem apply_of_allows {op : CastOp} {v : Scalar} {target : Ty}
    (h : op.allows v.ty target = true) : ∃ w, op.apply v target = .ok w ∧ w.ty = target := by
  cases op <;> cases v <;> cases target <;>
    first
    | exact ⟨_, rfl, rfl⟩
    | cases h

section sound

variable {m : Module} {f : Function} {fr : Frame} {defined : List Nat} {s : Machine}

theorem load_sound {address : Operand} {t : Ty} (hf : f ∈ m.functions) (hp : f.signature.Plain)
    (h : m.Uses f defined address (.ptr t)) (hfr : fr.Typed f) (hh : fr.Holds f defined)
    (hs : s.Typed m) :
    Ends (load f fr address s) (fun v s' => v.ty = t ∧ s' = s) (Stops m) := by
  rcases address_of_uses h hp hh with ⟨i, sl, rfl, hsl, rfl⟩ | ⟨i, g, rfl, hg, rfl⟩
  · by_cases hv : ∃ v, fr.slots[i]? = some (some v)
    · obtain ⟨v, hv⟩ := hv
      rw [load_slot hv]
      exact ⟨hfr.contents hsl hv, rfl⟩
    · rw [load_slot_empty (not_exists.1 hv)]
      exact ⟨⟨f, hf, rfl, (List.getElem?_eq_some_iff.1 hsl).1⟩, hs⟩
  · have ht : (s.globals.map Scalar.ty)[i]? = some g.ty := by
      rw [hs, List.getElem?_map, hg]
      rfl
    rw [List.getElem?_map] at ht
    obtain ⟨v, hv, hvt⟩ := Option.map_eq_some_iff.1 ht
    rw [load_global hv]
    exact ⟨hvt, rfl⟩

theorem store_sound {address : Operand} {v : Scalar} (hp : f.signature.Plain)
    (h : m.Uses f defined address (.ptr v.ty)) (hfr : fr.Typed f) (hh : fr.Holds f defined)
    (hs : s.Typed m) :
    Ends (store f fr address v s)
      (fun fr' s' => fr'.Typed f ∧ fr'.Holds f defined ∧ s'.Typed m) (Stops m) := by
  rcases address_of_uses h hp hh with ⟨i, sl, rfl, hsl, hst⟩ | ⟨i, g, rfl, hg, hgt⟩
  · have hi : i < fr.slots.length := by
      rw [hfr.slots]
      exact (List.getElem?_eq_some_iff.1 hsl).1
    rw [store_slot hi]
    exact ⟨hfr.write hsl hst.symm, hh, hs⟩
  · have hi : i < s.globals.length := by
      rw [hs.length]
      exact (List.getElem?_eq_some_iff.1 hg).1
    rw [store_global hi]
    exact ⟨hfr, hh, hs.write hg hgt.symm⟩

/-- Naming a result of the type that the function states for it. -/
theorem holds_bind {result : Option Nat} {v : Option Scalar} {t : Ty}
    (hh : fr.Holds f defined) (hv : result ≠ none → ∃ w, v = some w ∧ w.ty = t)
    (hr : ∀ id, result = some id → f.resultType? id = some t) :
    (fr.bind result v).Holds f (result.toList ++ defined) := by
  cases result with
  | none => exact hh
  | some id =>
    obtain ⟨w, rfl, hw⟩ := hv (by simp)
    intro id' hid
    rw [Frame.bind, List.lookup_cons]
    by_cases e : id' = id
    · subst e
      exact ⟨w, by simp, by rw [hr id' rfl, hw]⟩
    · have hid' : id' ∈ defined := by simpa [e] using hid
      have hb : (id' == id) = false := by simpa using e
      rw [hb]
      exact hh id' hid'

theorem typed_bind (hfr : fr.Typed f) (result : Option Nat) (v : Option Scalar) :
    (fr.bind result v).Typed f := by
  unfold Frame.bind
  split
  · exact ⟨hfr.args, hfr.slots, hfr.contents⟩
  · exact hfr

theorem operands_sound {os : List Operand} {ts : List Ty}
    (h : List.Forall₂ (m.Uses f defined) os ts) (hfr : fr.Typed f) (hh : fr.Holds f defined)
    (ht : ∀ t ∈ ts, t.isScalar = true) :
    ∃ vs, fr.operands os = .ok vs ∧ Fits vs ts := by
  induction h with
  | nil => exact ⟨[], rfl, nofun⟩
  | cons ho _ ih =>
    obtain ⟨ht₁, ht⟩ := List.forall_mem_cons.1 ht
    obtain ⟨v, hv, hvt⟩ := operand_of_uses ho hfr hh ht₁
    obtain ⟨vs, hvs, hfit⟩ := ih ht
    refine ⟨v :: vs, by rw [Frame.operands, hv, hvs], ?_⟩
    rw [Fits, List.zip_cons_cons, List.forall_mem_cons]
    exact ⟨hvt, hfit⟩

/-- The types between which conversions go are those of scalars. -/
theorem isScalar_of_allows {op : CastOp} {source target : Ty}
    (h : op.allows source target = true) : source.isScalar = true := by
  cases op <;> cases source <;> first | rfl | cases h

/-- An instruction that obeys its rule keeps the state typed and names its result. -/
theorem runInst_sound {call : Nat → List Scalar → RunM (Option Scalar)} {i : Inst}
    (hcall : CallSound m call) (hplain : ∀ g ∈ m.functions, g.signature.Plain)
    (hslots : ∀ sl ∈ f.slots, sl.ty.isScalar = true) (hglobals : ∀ g ∈ m.globals, g.ty.isScalar = true)
    (hf : f ∈ m.functions) (hi : i.Typed m (m.Uses f defined))
    (hr : ∀ id, i.result = some id → f.resultType? id = some i.ty) (hfr : fr.Typed f)
    (hh : fr.Holds f defined) (hs : s.Typed m) :
    Ends (runInst call f fr i s) (fun fr' s' => fr'.Typed f ∧
      fr'.Holds f (i.result.toList ++ defined) ∧ s'.Typed m) (Stops m) := by
  obtain ⟨hres, hi⟩ := hi
  cases ha : i.action with
  | load address =>
    simp only [ha] at hi
    rw [runInst_load ha]
    refine Ends.bind (load_sound hf (hplain f hf) hi hfr hh hs) ?_
    rintro v _ ⟨hv, rfl⟩
    exact ⟨typed_bind hfr _ _, holds_bind hh (fun _ => ⟨v, rfl, hv⟩) hr, hs⟩
  | store address value =>
    simp only [ha] at hi
    obtain ⟨⟨t, haddr, hval⟩, hnone⟩ := hi
    have ht : t.isScalar = true := by
      rcases address_of_uses haddr (hplain f hf) hh with ⟨j, sl, -, hsl, rfl⟩ | ⟨j, g, -, hg, rfl⟩
      · exact hslots sl (List.mem_of_getElem? hsl)
      · exact hglobals g (List.mem_of_getElem? hg)
    obtain ⟨v, hv, rfl⟩ := operand_of_uses hval hfr hh ht
    rw [runInst_store ha hv, hnone]
    exact store_sound (hplain f hf) haddr hfr hh hs
  | cast op value =>
    simp only [ha] at hi
    obtain ⟨source, hval, hallow⟩ := hi
    obtain ⟨v, hv, rfl⟩ := operand_of_uses hval hfr hh (isScalar_of_allows hallow)
    obtain ⟨w, hw, hwt⟩ := apply_of_allows hallow
    rw [runInst_cast ha hv hw]
    exact ⟨typed_bind hfr _ _, holds_bind hh (fun _ => ⟨w, rfl, hwt⟩) hr, hs⟩
  | compare lhs rhs =>
    simp only [ha] at hi
    obtain ⟨hl, hr', hty⟩ := hi
    obtain ⟨l, hlv, hlt⟩ := operand_of_uses hl hfr hh rfl
    obtain ⟨r, hrv, hrt⟩ := operand_of_uses hr' hfr hh rfl
    cases l with
    | float x =>
      cases r with
      | float y =>
        rw [runInst_compare ha hlv hrv]
        refine ⟨typed_bind hfr _ _, holds_bind hh (fun _ => ⟨_, rfl, ?_⟩) hr, hs⟩
        rw [hty]
        rfl
      | bool _ | char _ | int _ => cases hrt
    | bool _ | char _ | int _ => cases hlt
  | call callee args =>
    simp only [ha] at hi
    obtain ⟨g, hg, hargs, hret, hvoid⟩ := hi
    have hg' := hplain g (List.mem_of_getElem? hg)
    obtain ⟨vs, hvs, hfit⟩ := operands_sound hargs hfr hh hg'.1
    rw [runInst_call ha hvs]
    refine Ends.bind (hcall hg hfit hs) ?_
    rintro v s' ⟨hv, hs'⟩
    refine ⟨typed_bind hfr _ _, holds_bind hh (fun hne => ?_) hr, hs'⟩
    cases v with
    | none => exact absurd (hvoid (hret.symm.trans hv)) hne
    | some w => exact ⟨w, rfl, hv.trans hret⟩

theorem runInsts_sound {call : Nat → List Scalar → RunM (Option Scalar)} {insts : List Inst}
    (hcall : CallSound m call) (hplain : ∀ g ∈ m.functions, g.signature.Plain)
    (hslots : ∀ sl ∈ f.slots, sl.ty.isScalar = true) (hglobals : ∀ g ∈ m.globals, g.ty.isScalar = true)
    (hf : f ∈ m.functions)
    (hr : ∀ i ∈ insts, ∀ id, i.result = some id → f.resultType? id = some i.ty) :
    ∀ {defined : List Nat} {fr : Frame} {s : Machine}, InstsTyped m f defined insts →
      fr.Typed f → fr.Holds f defined → s.Typed m →
      Ends (runInsts call f insts fr s) (fun fr' s' => fr'.Typed f ∧
        fr'.Holds f ((resultIds insts).reverse ++ defined) ∧ s'.Typed m) (Stops m) := by
  induction insts with
  | nil =>
    intro defined fr s _ hfr hh hs
    exact ⟨hfr, hh, hs⟩
  | cons i is ih =>
    intro defined fr s hi hfr hh hs
    obtain ⟨hr₁, hr⟩ := List.forall_mem_cons.1 hr
    have first := runInst_sound hcall hplain hslots hglobals hf hi.1 hr₁ hfr hh hs
    refine Ends.bind first ?_
    rintro fr' s' ⟨hfr', hh', hs'⟩
    refine (ih hr hi.2 hfr' hh' hs').mono ?_ (fun _ _ h => h)
    rintro fr'' s'' ⟨hfr'', hh'', hs''⟩
    refine ⟨hfr'', fun id hid => hh'' id ?_, hs''⟩
    rw [resultIds_cons] at hid
    simp only [List.reverse_append, List.mem_append, List.mem_reverse] at hid ⊢
    tauto

end sound

/-! ## Runs -/

/-- What verification, plain signatures and results apart give for the run of a module. -/
structure Module.Verified (m : Module) : Prop where
  globals : ∀ g ∈ m.globals, g.ty.isScalar = true
  plain : ∀ f ∈ m.functions, f.signature.Plain
  bodies : ∀ f ∈ m.functions, f.layout ≠ [] → m.BodyOk f
  results : ∀ f ∈ m.functions, ∀ i ∈ f.layout, ∀ b, f.blocks[i]? = some b → ∀ inst ∈ b.insts,
    ∀ id, inst.result = some id → f.resultType? id = some inst.ty

section run

variable {m : Module}

theorem start_typed (f : Function) {args : List Scalar} (h : args.map Scalar.ty = f.signature.params) :
    (Frame.start f args).Typed f := by
  refine ⟨h, by simp [Frame.start], ?_⟩
  intro i s v _ hv
  rw [Frame.start, List.getElem?_map] at hv
  obtain ⟨_, -, e⟩ := Option.map_eq_some_iff.1 hv
  cases e

/-- A call is sound if entering bodies is. -/
theorem callWith_sound {enter : Function → Frame → Nat → RunM (Option Scalar)}
    (henter : ∀ f ∈ m.functions, ∀ entry, f.entry? = some entry → ∀ fr s, fr.Typed f → s.Typed m →
      Ends (enter f fr entry s) (fun v s' => Returns f.signature.ret v ∧ s'.Typed m) (Stops m)) :
    CallSound m (callWith enter m) := by
  intro index g args s hg hfit hs
  cases hl : g.layout with
  | nil =>
    rw [callWith_noBody hg hl]
    exact ⟨trivial, hs⟩
  | cons entry rest =>
    by_cases ha : args.length = g.signature.params.length
    · by_cases hd : s.depth < maxCallDepth
      · rw [callWith_enter hg hl ha hd]
        have he : g.entry? = some entry := by rw [ Function.entry?, hl]; rfl
        have h := henter g (List.mem_of_getElem? hg) entry he (.start g args)
          { s with depth := s.depth + 1 } (start_typed g (hfit.map_ty ha)) hs
        unfold deeper
        cases hr : enter g (.start g args) entry { s with depth := s.depth + 1 } with
        | ok v s' =>
          rw [hr] at h
          exact h
        | error e s' =>
          rw [hr] at h
          exact h
      · rw [callWith_callDepth hg hl ha (Nat.not_lt.1 hd)]
        exact ⟨trivial, hs⟩
    · rw [callWith_argumentCount hg hl ha]
      exact ⟨trivial, hs⟩

/-- The run of a verified module from a block that control can get to. -/
theorem runFrom_sound (hm : m.Verified) :
    ∀ (steps : Nat) {f : Function} {fr : Frame} {index : Nat} {s : Machine}, f ∈ m.functions →
      index ∈ f.layout → f.Entered index → fr.Typed f → s.Typed m →
      Ends (runFrom m steps f fr index s)
        (fun v s' => Returns f.signature.ret v ∧ s'.Typed m) (Stops m) := by
  intro steps
  induction steps with
  | zero =>
    intro f fr index s _ _ _ _ hs
    exact ⟨trivial, hs⟩
  | succ steps ih =>
    intro f fr index s hf hidx hent hfr hs
    have hbody := hm.bodies f hf (List.ne_nil_of_mem hidx)
    obtain ⟨b, hb, hok⟩ := hbody.blocks index hidx
    have hcall : CallSound m (callWith (runFrom m steps) m) := by
      refine callWith_sound fun g hg entry he fr' s' hfr' hs' => ?_
      exact ih hg (List.mem_of_head? he) (.inl he) hfr' hs'
    have hslots : ∀ sl ∈ f.slots, sl.ty.isScalar = true := fun sl hsl =>
      Ty.isScalar_of_isArithmetic (hbody.slots sl hsl)
    rw [runFrom_succ m steps f fr hb]
    refine Ends.bind (runInsts_sound hcall hm.plain hslots hm.globals hf
      (hm.results f hf index hidx b hb) hok.typed.insts hfr nofun hs) ?_
    rintro fr' s' ⟨hfr', hh', hs'⟩
    obtain ⟨t, ht⟩ := Option.ne_none_iff_exists'.1 hok.closed
    have htyped := (hok.typed.terminator t ht).weaken fun id hid =>
      List.mem_append_left [] (List.mem_reverse.2 hid)
    have htargets := hok.targets t ht
    -- control goes on to a target of this block, which lies in the body
    have hnext : ∀ target ∈ t.successors, Ends (runFrom m steps f fr' target s')
        (fun v s' => Returns f.signature.ret v ∧ s'.Typed m) (Stops m) := by
      intro target hmem
      have hgoes := (Function.goesTo_iff ht).2 hmem
      exact ih hf (htargets target hmem) (.inr ⟨index, hidx, b, hb, hgoes⟩) hfr' hs'
    rw [ht]
    match t, htyped, hnext with
    | .jump target, _, hnext => exact hnext target List.mem_cons_self
    | .branch cond onTrue onFalse, htyped, hnext =>
      obtain ⟨v, hv, hvt⟩ := operand_of_uses htyped hfr' hh' rfl
      cases v with
      | bool c =>
        rw [finish_of_branch hv]
        cases c with
        | true => exact hnext onTrue (by simp [Terminator.successors])
        | false => exact hnext onFalse (by simp [Terminator.successors])
      | char _ | int _ | float _ => cases hvt
    | .ret (some o), htyped, _ =>
      have hret : f.signature.ret.isScalar = true :=
        (hm.plain f hf).2.resolve_left htyped.2
      obtain ⟨v, hv, hvt⟩ := operand_of_uses htyped.1 hfr' hh' hret
      rw [finish_of_ret hv]
      exact ⟨hvt, hs'⟩
    | .ret none, htyped, _ => exact ⟨htyped, hs'⟩
    | .unreachable, _, _ => exact ⟨⟨f, hf, rfl, index, hidx, hent, b, hb, ht⟩, hs'⟩

theorem callWith_runFrom_sound (hm : m.Verified) (steps : Nat) :
    CallSound m (callWith (runFrom m steps) m) := by
  refine callWith_sound fun f hf entry he fr s hfr hs => ?_
  exact runFrom_sound hm steps hf (List.mem_of_head? he) (.inl he) hfr hs

end run

/-! ## Histories of runs -/

/-- The arguments of a run have the types of the parameters of the function that is run. A name that is
not in the table may come with any arguments. One that the table leads to no function has no
parameters, and no arguments fit it. -/
def Module.RunFits (m : Module) (name : String) (args : List Scalar) : Prop :=
  ∀ index, m.functionIndex? name = some index →
    ∃ g, m.functions[index]? = some g ∧ Fits args g.signature.params

instance (m : Module) (name : String) (args : List Scalar) : Decidable (m.RunFits name args) :=
  inferInstanceAs (Decidable (∀ index ∈ m.functionIndex? name,
    ∃ g ∈ m.functions[index]?, Fits args g.signature.params))

/-- A state that runs with arguments that fit lead to, whether they come to an end or not. -/
inductive Reached (m : Module) : Machine → Prop
  | start : Reached m (.start m)
  | run {s : Machine} (steps : Nat) (name : String) (args : List Scalar) (h : Reached m s)
      (hfit : m.RunFits name args) : Reached m (finalState (m.run steps name args s))

/-- What the function that a name stands for returns. -/
def Module.RunReturns (m : Module) (name : String) (v : Option Scalar) : Prop :=
  ∃ index g, m.functionIndex? name = some index ∧ m.functions[index]? = some g ∧
    Returns g.signature.ret v

section history

variable {m : Module}

theorem start_machine_typed (h : ∀ g ∈ m.globals, g.init.ty = g.ty) : (Machine.start m).Typed m := by
  rw [Machine.Typed, Machine.start, List.map_map]
  exact List.map_congr_left h

/-- One run, from any typed state. -/
theorem run_sound (hm : m.Verified) {s : Machine} (hs : s.Typed m) (steps : Nat) {name : String}
    {args : List Scalar} (hfit : m.RunFits name args) :
    Ends (m.run steps name args s) (fun v s' => m.RunReturns name v ∧ s'.Typed m) (Stops m) := by
  unfold Module.run
  cases hi : m.functionIndex? name with
  | none => exact ⟨trivial, hs⟩
  | some index =>
    obtain ⟨g, hg, hargs⟩ := hfit index hi
    refine (callWith_runFrom_sound hm steps hg hargs hs).mono ?_ (fun _ _ h => h)
    rintro v s' ⟨hv, hs'⟩
    exact ⟨⟨index, g, hi, hg, hv⟩, hs'⟩

theorem reached_typed (hm : m.Verified) (hg : ∀ g ∈ m.globals, g.init.ty = g.ty) {s : Machine}
    (h : Reached m s) : s.Typed m := by
  induction h with
  | start => exact start_machine_typed hg
  | @run s steps name args _ hfit ih =>
    have h := run_sound hm ih steps hfit
    cases hr : m.run steps name args s with
    | ok v s' => exact (h.of_ok hr).2
    | error e s' => exact (h.of_error hr).2

end history

/-- A module with a loop in its only body, with a block outside of it, and with names for this function
and for one that does not exist. -/
def waiting : Module where
  name := "waiting"
  functionTable := [("ghost", 1), ("pause", 0), ("wait", 0)]
  globals := [{ name := "answer", ty := .int, init := .int 3 }]
  functions := [{
    name := "wait"
    signature := { params := [.int], ret := .int }
    paramNames := ["n"]
    slots := [{ name := some "n", ty := .int, origin := .argument 0 }]
    blocks := [
      { name := "entry"
        insts := [{ result := none, ty := .void, action := .store (.slot 0) (.arg 0) }]
        terminator := some (.jump 1) },
      { name := "loop"
        insts := [
          { result := some 0, ty := .int, action := .load (.slot 0) },
          { result := some 1, ty := .float, action := .cast .signedToFloat (.temp 0) },
          { result := some 2, ty := .bool
            action := .compare (.temp 1) (.const (.float (.zero false))) }]
        terminator := some (.branch (.temp 2) 1 2) },
      { name := "done"
        insts := [{ result := some 3, ty := .int, action := .load (.global 0) }]
        terminator := some (.ret (some (.temp 3))) },
      { name := "spare"
        insts := [{ result := some 4, ty := .int, action := .load (.global 0) }] }]
    layout := [0, 1, 2]
    nextValue := 5 }]

end SlotIR
