import Mathlib.Data.List.Forall2
import SlotIR.Module.Verifier

/-!
# Typing rules

The rules that the code of a function obeys, stated apart from the scan that checks them. The rule
of an instruction is relative to a relation between operands and types; `Module.Uses` is the relation
at a place of a function where certain temporaries are defined. The rules survive every growth of
the module and of the function that keeps the types of operands (`Inst.Typed.mono`).
-/

namespace SlotIR

/-- Whether values at run time can have a type. -/
def Ty.isScalar : Ty → Bool
  | .bool | .char | .int | .float => true
  | .void | .ptr _ | .fn .. => false

theorem Scalar.isScalar_ty (v : Scalar) : v.ty.isScalar = true := by
  cases v <;> rfl

theorem Ty.isScalar_of_isArithmetic {t : Ty} (h : t.isArithmetic = true) : t.isScalar = true := by
  cases t <;> first | rfl | cases h

/-- Parameters are scalars, and so is what is returned, if anything. -/
def Signature.Plain (s : Signature) : Prop :=
  (∀ t ∈ s.params, t.isScalar = true) ∧ (s.ret = .void ∨ s.ret.isScalar = true)

instance (s : Signature) : Decidable s.Plain :=
  inferInstanceAs (Decidable (_ ∧ _))

/-- The results of instructions, in order. -/
def resultIds (insts : List Inst) : List Nat :=
  insts.filterMap (·.result)

@[simp] theorem resultIds_nil : resultIds [] = [] := rfl

@[simp] theorem resultIds_append (is js : List Inst) :
    resultIds (is ++ js) = resultIds is ++ resultIds js :=
  List.filterMap_append

theorem resultIds_cons (i : Inst) (is : List Inst) :
    resultIds (i :: is) = i.result.toList ++ resultIds is := by
  rw [resultIds, List.filterMap_cons]
  cases i.result <;> rfl

/-! ## Result types -/

namespace Function

variable {f : Function} {id : Nat} {t : Ty}

theorem mem_results : (id, t) ∈ f.results ↔ ∃ (i : Nat) (b : Block), f.blocks[i]? = some b ∧
    ∃ inst ∈ b.insts, inst.result = some id ∧ inst.ty = t := by
  unfold results
  simp only [List.mem_filterMap, List.mem_flatMap, Option.map_eq_some_iff, Prod.mk.injEq]
  constructor
  · rintro ⟨inst, ⟨b, hb, hinst⟩, id', hr, rfl, ht⟩
    obtain ⟨i, hi⟩ := List.getElem?_of_mem hb
    exact ⟨i, b, hi, inst, hinst, hr, ht⟩
  · rintro ⟨i, b, hi, inst, hinst, hr, ht⟩
    exact ⟨inst, ⟨b, List.mem_of_getElem? hi, hinst⟩, id, hr, rfl, ht⟩

theorem mem_results_of_resultType? (h : f.resultType? id = some t) : (id, t) ∈ f.results := by
  obtain ⟨_, _, e, -⟩ := List.lookup_eq_some_iff.1 h
  have : (id, t) ∈ f.results.reverse := by simp [e]
  exact List.mem_reverse.1 this

/-- A result of which only one type is stated has that type. -/
theorem resultType?_of_unique (h : (id, t) ∈ f.results)
    (hu : ∀ t', (id, t') ∈ f.results → t' = t) : f.resultType? id = some t := by
  cases hl : f.resultType? id with
  | none =>
    have := List.lookup_eq_none_iff.1 hl (id, t) (List.mem_reverse.2 h)
    simp at this
  | some t' => rw [hu t' (mem_results_of_resultType? hl)]

end Function

/-! ## Instructions -/

/-- The rule of an instruction in the module `m`, where `has` relates operands to their types. -/
def Inst.Typed (m : Module) (has : Operand → Ty → Prop) (i : Inst) : Prop :=
  (i.ty ≠ .void → i.result ≠ none) ∧
  match i.action with
  | .load address => has address (.ptr i.ty)
  | .store address value => (∃ t, has address (.ptr t) ∧ has value t) ∧ i.result = none
  | .cast op value => ∃ source, has value source ∧ op.allows source i.ty = true
  | .compare lhs rhs => has lhs .float ∧ has rhs .float ∧ i.ty = .bool
  | .call callee args =>
    ∃ g, m.functions[callee]? = some g ∧ List.Forall₂ has args g.signature.params ∧
      g.signature.ret = i.ty ∧ (i.ty = .void → i.result = none)

/-- A module that goes on growing: globals and functions keep their places, and functions their names
and signatures. -/
structure Module.Grows (m m' : Module) : Prop where
  globals : ∀ {i : Nat} {g : Global}, m.globals[i]? = some g → m'.globals[i]? = some g
  functions : ∀ {i : Nat} {f : Function}, m.functions[i]? = some f →
    ∃ f', m'.functions[i]? = some f' ∧ f'.name = f.name ∧ f'.signature = f.signature

namespace Module.Grows

theorem refl (m : Module) : m.Grows m :=
  ⟨fun h => h, fun h => ⟨_, h, rfl, rfl⟩⟩

theorem trans {m₁ m₂ m₃ : Module} (h : m₁.Grows m₂) (h' : m₂.Grows m₃) : m₁.Grows m₃ := by
  refine ⟨fun hg => h'.globals (h.globals hg), fun hf => ?_⟩
  obtain ⟨f₂, h₂, n₂, e₂⟩ := h.functions hf
  obtain ⟨f₃, h₃, n₃, e₃⟩ := h'.functions h₂
  exact ⟨f₃, h₃, n₃.trans n₂, e₃.trans e₂⟩

end Module.Grows

theorem Inst.Typed.mono {m m' : Module} {has has' : Operand → Ty → Prop} {i : Inst}
    (hm : m.Grows m') (hh : ∀ o t, has o t → has' o t) (h : i.Typed m has) :
    i.Typed m' has' := by
  obtain ⟨hr, h⟩ := h
  refine ⟨hr, ?_⟩
  cases ha : i.action with
  | load address =>
    simp only [ha] at h
    exact hh _ _ h
  | store address value =>
    simp only [ha] at h
    obtain ⟨⟨t, h₁, h₂⟩, h₃⟩ := h
    exact ⟨⟨t, hh _ _ h₁, hh _ _ h₂⟩, h₃⟩
  | cast op value =>
    simp only [ha] at h
    obtain ⟨source, h₁, h₂⟩ := h
    exact ⟨source, hh _ _ h₁, h₂⟩
  | compare lhs rhs =>
    simp only [ha] at h
    exact ⟨hh _ _ h.1, hh _ _ h.2.1, h.2.2⟩
  | call callee args =>
    simp only [ha] at h
    obtain ⟨g, hg, hargs, hret, hres⟩ := h
    obtain ⟨g', hg', -, hs⟩ := hm.functions hg
    refine ⟨g', hg', ?_, ?_, hres⟩
    · rw [hs]
      exact hargs.imp hh
    · rw [hs]
      exact hret

/-! ## Operands -/

/-- An operand of the function `f` has a type where the temporaries in `defined` can be used. -/
def Module.Uses (m : Module) (f : Function) (defined : List Nat) (o : Operand) (t : Ty) : Prop :=
  m.operandType? f o = some t ∧ ∀ id, o = .temp id → id ∈ defined

namespace Module.Uses

variable {m : Module} {f : Function} {defined : List Nat}

theorem const (v : Scalar) : m.Uses f defined (.const v) v.ty :=
  ⟨rfl, nofun⟩

theorem arg {i : Nat} {t : Ty} (h : f.signature.params[i]? = some t) :
    m.Uses f defined (.arg i) t :=
  ⟨h, nofun⟩

theorem slot {i : Nat} {s : Slot} (h : f.slots[i]? = some s) :
    m.Uses f defined (.slot i) (.ptr s.ty) := by
  refine ⟨?_, nofun⟩
  rw [Module.operandType?, h]
  rfl

theorem global {i : Nat} {g : Global} (h : m.globals[i]? = some g) :
    m.Uses f defined (.global i) (.ptr g.ty) := by
  refine ⟨?_, nofun⟩
  rw [Module.operandType?, h]
  rfl

theorem temp {id : Nat} {t : Ty} (h : f.resultType? id = some t) (hd : id ∈ defined) :
    m.Uses f defined (.temp id) t :=
  ⟨h, fun _ e => Operand.temp.inj e ▸ hd⟩

theorem weaken {defined' : List Nat} {o : Operand} {t : Ty} (h : m.Uses f defined o t)
    (hd : ∀ id ∈ defined, id ∈ defined') : m.Uses f defined' o t :=
  ⟨h.1, fun id e => hd id (h.2 id e)⟩

end Module.Uses

/-- A function of which more was built: parameters, slots and results keep their types. -/
structure Function.KeepsTypes (f f' : Function) : Prop where
  params : f'.signature.params = f.signature.params
  slots : ∀ {i : Nat} {s : Slot}, f.slots[i]? = some s → f'.slots[i]? = some s
  results : ∀ {id : Nat} {t : Ty}, f.resultType? id = some t → f'.resultType? id = some t

theorem Module.Uses.mono {m m' : Module} {f f' : Function} {defined : List Nat} {o : Operand}
    {t : Ty} (hm : m.Grows m') (hf : f.KeepsTypes f') (h : m.Uses f defined o t) :
    m'.Uses f' defined o t := by
  refine ⟨?_, h.2⟩
  obtain ⟨h, -⟩ := h
  cases o with
  | const v => exact h
  | arg i =>
    rw [Module.operandType?] at h ⊢
    rw [hf.params]
    exact h
  | temp id => exact hf.results h
  | slot i =>
    rw [Module.operandType?] at h ⊢
    obtain ⟨s, hs, ht⟩ := Option.map_eq_some_iff.1 h
    rw [hf.slots hs, Option.map_some, ht]
  | global i =>
    rw [Module.operandType?] at h ⊢
    obtain ⟨g, hg, ht⟩ := Option.map_eq_some_iff.1 h
    rw [hm.globals hg, Option.map_some, ht]

/-! ## Blocks -/

/-- Every instruction is typed where the results of the earlier ones are defined. -/
def InstsTyped (m : Module) (f : Function) : List Nat → List Inst → Prop
  | _, [] => True
  | defined, i :: is => i.Typed m (m.Uses f defined) ∧ InstsTyped m f (i.result.toList ++ defined) is

/-- The rule of the end of a block. -/
def Terminator.Typed (m : Module) (f : Function) (defined : List Nat) : Terminator → Prop
  | .branch cond _ _ => m.Uses f defined cond .bool
  | .ret (some v) => m.Uses f defined v f.signature.ret ∧ f.signature.ret ≠ .void
  | .ret none => f.signature.ret = .void
  | .jump _ | .unreachable => True

/-- The rules of a block: those of its instructions and, if it has an end, that of its end. -/
structure Block.Typed (m : Module) (f : Function) (b : Block) : Prop where
  insts : InstsTyped m f [] b.insts
  terminator : ∀ t, b.terminator = some t → t.Typed m f (resultIds b.insts)

theorem instsTyped_append {m : Module} {f : Function} {is js : List Inst} :
    ∀ {defined : List Nat}, InstsTyped m f defined (is ++ js) ↔
      InstsTyped m f defined is ∧ InstsTyped m f ((resultIds is).reverse ++ defined) js := by
  induction is with
  | nil =>
    intro defined
    simp [InstsTyped]
  | cons i is ih =>
    intro defined
    rw [List.cons_append, InstsTyped, InstsTyped, ih, and_assoc, resultIds_cons]
    have e : (i.result.toList ++ resultIds is).reverse ++ defined =
        (resultIds is).reverse ++ (i.result.toList ++ defined) := by
      cases i.result <;> simp
    rw [e]

theorem instsTyped_mono {m m' : Module} {f f' : Function} (hm : m.Grows m')
    (hf : f.KeepsTypes f') {insts : List Inst} :
    ∀ {defined : List Nat}, InstsTyped m f defined insts → InstsTyped m' f' defined insts := by
  induction insts with
  | nil =>
    intro _ _
    trivial
  | cons i is ih =>
    intro defined h
    exact ⟨h.1.mono hm fun o t ho => ho.mono hm hf, ih h.2⟩

theorem Terminator.Typed.mono {m m' : Module} {f f' : Function} {defined : List Nat}
    {t : Terminator} (hm : m.Grows m') (hf : f.KeepsTypes f')
    (hr : f'.signature.ret = f.signature.ret) (h : t.Typed m f defined) :
    t.Typed m' f' defined := by
  match t, h with
  | .branch _ _ _, h => exact Module.Uses.mono hm hf h
  | .ret (some _), h =>
    rw [Terminator.Typed, hr]
    exact ⟨h.1.mono hm hf, h.2⟩
  | .ret none, h =>
    rw [Terminator.Typed, hr]
    exact h
  | .jump _, _ => trivial
  | .unreachable, _ => trivial

theorem Terminator.Typed.weaken {m : Module} {f : Function} {defined defined' : List Nat}
    {t : Terminator} (h : t.Typed m f defined) (hd : ∀ id ∈ defined, id ∈ defined') :
    t.Typed m f defined' := by
  match t, h with
  | .branch _ _ _, h => exact Module.Uses.weaken h hd
  | .ret (some _), h => exact ⟨h.1.weaken hd, h.2⟩
  | .ret none, h => exact h
  | .jump _, _ => trivial
  | .unreachable, _ => trivial

theorem Block.Typed.mono {m m' : Module} {f f' : Function} {b : Block} (hm : m.Grows m')
    (hf : f.KeepsTypes f') (hr : f'.signature.ret = f.signature.ret) (h : b.Typed m f) :
    b.Typed m' f' :=
  ⟨instsTyped_mono hm hf h.insts, fun t ht => (h.terminator t ht).mono hm hf hr⟩

/-! ## Uses -/

/-- What an instruction refers to. -/
def Action.operands : Action → List Operand
  | load address => [address]
  | store address value => [address, value]
  | cast _ value => [value]
  | compare lhs rhs => [lhs, rhs]
  | call _ args => args

/-- What the end of a block refers to. -/
def Terminator.operands : Terminator → List Operand
  | branch cond _ _ => [cond]
  | ret value => value.toList
  | jump _ | unreachable => []

/-- A block uses a result only behind its own instruction that defines it. -/
structure Block.UsesOwn (b : Block) : Prop where
  insts : ∀ before inst after, b.insts = before ++ inst :: after →
    ∀ id, .temp id ∈ inst.action.operands → id ∈ resultIds before
  terminator : ∀ t, b.terminator = some t → ∀ id, .temp id ∈ t.operands → id ∈ resultIds b.insts

theorem Inst.Typed.has_operand {m : Module} {has : Operand → Ty → Prop} {i : Inst}
    (h : i.Typed m has) : ∀ o ∈ i.action.operands, ∃ t, has o t := by
  obtain ⟨-, h⟩ := h
  intro o ho
  cases ha : i.action with
  | load address =>
    simp only [ha] at h ho
    cases List.mem_singleton.1 ho
    exact ⟨_, h⟩
  | store address value =>
    simp only [ha] at h ho
    obtain ⟨⟨t, haddress, hvalue⟩, -⟩ := h
    rcases List.mem_pair.1 ho with rfl | rfl
    · exact ⟨_, haddress⟩
    · exact ⟨_, hvalue⟩
  | cast op value =>
    simp only [ha] at h ho
    obtain ⟨source, hvalue, -⟩ := h
    cases List.mem_singleton.1 ho
    exact ⟨_, hvalue⟩
  | compare lhs rhs =>
    simp only [ha] at h ho
    rcases List.mem_pair.1 ho with rfl | rfl
    · exact ⟨_, h.1⟩
    · exact ⟨_, h.2.1⟩
  | call callee args =>
    simp only [ha] at h ho
    obtain ⟨g, -, hargs, -⟩ := h
    obtain ⟨k, hk, rfl⟩ := List.getElem_of_mem ho
    exact ⟨_, hargs.get hk (hargs.length_eq ▸ hk)⟩

theorem Terminator.Typed.has_operand {m : Module} {f : Function} {defined : List Nat}
    {t : Terminator} (h : t.Typed m f defined) : ∀ o ∈ t.operands, ∃ ty, m.Uses f defined o ty := by
  intro o ho
  match t, h with
  | .branch _ _ _, h =>
    cases List.mem_singleton.1 ho
    exact ⟨_, h⟩
  | .ret (some _), h =>
    cases List.mem_singleton.1 ho
    exact ⟨_, h.1⟩

theorem Block.Typed.usesOwn {m : Module} {f : Function} {b : Block} (h : b.Typed m f) :
    b.UsesOwn := by
  refine ⟨fun before inst after e id hid => ?_, fun t ht id hid => ?_⟩
  · have hinsts := h.insts
    rw [e] at hinsts
    obtain ⟨-, hinst, -⟩ := instsTyped_append.1 hinsts
    obtain ⟨ty, hty⟩ := hinst.has_operand _ hid
    simpa using hty.2 id rfl
  · obtain ⟨ty, hty⟩ := (h.terminator t ht).has_operand _ hid
    exact hty.2 id rfl

end SlotIR
