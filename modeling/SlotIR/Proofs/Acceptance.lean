import SlotIR.Proofs.Verifier

/-!
# What verification accepts

The verifier goes through a body once, in the order of the layout, and stops at the first violation.
Here its rules stand side by side and without an order (`Function.Lawful`): what is true of the slots,
of the entry, of the results of the whole body, and of each instruction and each end of a block by
itself. Types of operands are a relation (`Module.HasType`); where a temporary may be used is a rule of
its own, apart from its type.

Verification accepts exactly the lawful bodies, and it refuses every other body with an error that
names the function (`verifyFunction_decides`).
-/

namespace SlotIR

/-! ## The types of operands -/

/-- The type that a function states for a result: that of the last instruction that names it, in the
order in which the blocks were created. Blocks outside of the body count too. -/
def Function.States (f : Function) (id : Nat) (t : Ty) : Prop :=
  ∃ before i after, f.blocks.flatMap (·.insts) = before ++ i :: after ∧ i.result = some id ∧
    i.ty = t ∧ id ∉ resultIds after

/-- An operand that stands in the function `f` has a type. -/
inductive Module.HasType (m : Module) (f : Function) : Operand → Ty → Prop
  | const (v : Scalar) : HasType m f (.const v) v.ty
  | arg {i : Nat} {t : Ty} (h : f.signature.params[i]? = some t) : HasType m f (.arg i) t
  | temp {id : Nat} {t : Ty} (h : f.States id t) : HasType m f (.temp id) t
  | slot {i : Nat} {s : Slot} (h : f.slots[i]? = some s) : HasType m f (.slot i) (.ptr s.ty)
  | global {i : Nat} {g : Global} (h : m.globals[i]? = some g) : HasType m f (.global i) (.ptr g.ty)

/-- An argument, a slot or a global exists. -/
def Operand.Exists (m : Module) (f : Function) : Operand → Prop
  | .const _ | .temp _ => True
  | .arg i => i < f.signature.params.length
  | .slot i => i < f.slots.length
  | .global i => i < m.globals.length

/-! ## Lawful bodies -/

/-- The types that a conversion goes between: integers and floats, or integers of which one is
wider. -/
def CastOp.Converts (source target : Ty) : CastOp → Prop
  | .signedToFloat | .unsignedToFloat => (∃ w, source.intWidth? = some w) ∧ target = .float
  | .floatToSigned | .floatToUnsigned => source = .float ∧ ∃ w, target.intWidth? = some w
  | .zeroExtend => ∃ w w', source.intWidth? = some w ∧ target.intWidth? = some w' ∧ w < w'
  | .truncate => ∃ w w', source.intWidth? = some w ∧ target.intWidth? = some w' ∧ w' < w

/-- The typing rule of what an instruction of type `t` does. -/
def Action.Rule (m : Module) (f : Function) (t : Ty) : Action → Prop
  | .load address => m.HasType f address (.ptr t)
  | .store address value => ∃ u, m.HasType f address (.ptr u) ∧ m.HasType f value u
  | .cast op value => ∃ source, m.HasType f value source ∧ op.Converts source t
  | .compare lhs rhs => m.HasType f lhs .float ∧ m.HasType f rhs .float ∧ t = .bool
  | .call callee args => ∃ g, m.functions[callee]? = some g ∧
      List.Forall₂ (m.HasType f) args g.signature.params ∧ g.signature.ret = t

/-- What is required of an instruction wherever it stands. -/
structure Inst.Lawful (m : Module) (f : Function) (i : Inst) : Prop where
  exist : ∀ o ∈ i.action.operands, o.Exists m f
  rule : i.action.Rule m f i.ty
  named : i.ty ≠ .void → i.result ≠ none
  store : ∀ address value, i.action = .store address value → i.ty = .void ∧ i.result = none
  call : ∀ callee args, i.action = .call callee args → i.ty = .void → i.result = none

/-- The typing rule of the end of a block. -/
def Terminator.Rule (m : Module) (f : Function) : Terminator → Prop
  | .branch cond _ _ => m.HasType f cond .bool
  | .ret (some v) => m.HasType f v f.signature.ret ∧ f.signature.ret ≠ .void
  | .ret none => f.signature.ret = .void
  | .jump _ | .unreachable => True

/-- What is required of the end of a block: it only goes to blocks of the body. -/
structure Terminator.Lawful (m : Module) (f : Function) (t : Terminator) : Prop where
  exist : ∀ o ∈ t.operands, o.Exists m f
  rule : t.Rule m f
  targets : ∀ j ∈ t.successors, j ∈ f.layout

/-- What is required of a block: it has an end, and uses only results of its own earlier
instructions. -/
structure Block.Lawful (m : Module) (f : Function) (b : Block) : Prop where
  uses : b.UsesOwn
  insts : ∀ i ∈ b.insts, i.Lawful m f
  terminator : ∃ t, b.terminator = some t ∧ t.Lawful m f

/-- What is required of a body. -/
structure Function.Lawful (m : Module) (f : Function) : Prop where
  slots : ∀ s ∈ f.slots, s.ty = .char ∨ s.ty = .int ∨ s.ty = .float
  entry : ∀ e, f.entry? = some e → ∀ i ∈ f.layout, ∀ b, f.blocks[i]? = some b →
    ∀ t, b.terminator = some t → e ∉ t.successors
  /-- No result is named twice in the body. -/
  ids : (f.layout.flatMap f.idsAt).Nodup
  blocks : ∀ i ∈ f.layout, ∀ b, f.blocks[i]? = some b → b.Lawful m f

/-! ## Types as they are looked up -/

section types

variable {m : Module} {f : Function} {o : Operand} {t : Ty}

/-- The types of the results of instructions, in order. -/
def resultTypes (insts : List Inst) : List (Nat × Ty) :=
  insts.filterMap fun i => i.result.map (·, i.ty)

theorem resultTypes_append (is js : List Inst) :
    resultTypes (is ++ js) = resultTypes is ++ resultTypes js :=
  List.filterMap_append

theorem lookup_resultTypes_cons (i : Inst) (is : List Inst) (id : Nat) :
    (resultTypes (i :: is)).reverse.lookup id =
      ((resultTypes is).reverse.lookup id).or (if i.result = some id then some i.ty else none) := by
  unfold resultTypes
  cases hr : i.result with
  | none => simp [hr]
  | some id' =>
    by_cases h : id' = id
    · subst h
      simp [hr, List.lookup_append]
    · have hne : (id == id') = false := by simpa using Ne.symm h
      simp [hr, List.lookup_append, List.lookup_cons, hne, h]

theorem lookup_resultTypes_none {is : List Inst} {id : Nat} :
    (resultTypes is).reverse.lookup id = none ↔ id ∉ resultIds is := by
  induction is with
  | nil => simp [resultTypes]
  | cons i is ih =>
    rw [lookup_resultTypes_cons, Option.or_eq_none_iff, ih, resultIds_cons, List.mem_append, not_or,
      and_comm]
    refine and_congr ?_ Iff.rfl
    by_cases h : i.result = some id
    · simp [h]
    · simp [h]

/-- The last of several instructions with one result decides its type. -/
theorem lookup_resultTypes_iff {is : List Inst} {id : Nat} :
    (resultTypes is).reverse.lookup id = some t ↔
      ∃ before i after, is = before ++ i :: after ∧ i.result = some id ∧ i.ty = t ∧
        id ∉ resultIds after := by
  induction is with
  | nil => simp [resultTypes]
  | cons j js ih =>
    rw [lookup_resultTypes_cons]
    constructor
    · intro h
      rcases Option.or_eq_some_iff.1 h with h | ⟨hnone, h⟩
      · obtain ⟨before, i, after, rfl, hi⟩ := ih.1 h
        exact ⟨j :: before, i, after, rfl, hi⟩
      · split at h
        · next hj => exact ⟨[], j, js, rfl, hj, Option.some.inj h, lookup_resultTypes_none.1 hnone⟩
        · cases h
    · rintro ⟨before, i, after, e, hi, ht, hlast⟩
      cases before with
      | nil =>
        cases e
        rw [lookup_resultTypes_none.2 hlast, if_pos hi, ht]
        rfl
      | cons k before =>
        cases e
        rw [ih.2 ⟨before, i, after, rfl, hi, ht, hlast⟩]
        rfl

theorem states_iff {id : Nat} : f.States id t ↔ f.resultType? id = some t :=
  lookup_resultTypes_iff.symm

theorem hasType_iff : m.HasType f o t ↔ m.operandType? f o = some t := by
  constructor
  · intro h
    cases h with
    | const v => rfl
    | arg h => exact h
    | temp h => exact states_iff.1 h
    | slot h => rw [Module.operandType?, h, Option.map_some]
    | global h => rw [Module.operandType?, h, Option.map_some]
  · intro h
    cases o with
    | const v =>
      cases h
      exact .const v
    | arg i => exact .arg h
    | temp id => exact .temp (states_iff.2 h)
    | slot i =>
      obtain ⟨s, hs, rfl⟩ := Option.map_eq_some_iff.1 h
      exact .slot hs
    | global i =>
      obtain ⟨g, hg, rfl⟩ := Option.map_eq_some_iff.1 h
      exact .global hg

/-- Only what exists has a type. -/
theorem exists_of_hasType (h : m.HasType f o t) : o.Exists m f := by
  cases h with
  | const | temp => trivial
  | arg h | slot h | global h => exact (List.getElem?_eq_some_iff.1 h).1

theorem uses_iff {defined : List Nat} :
    m.Uses f defined o t ↔ m.HasType f o t ∧ ∀ id, o = .temp id → id ∈ defined := by
  rw [Module.Uses, hasType_iff]

theorem forall₂_uses {os : List Operand} {ts : List Ty} {defined : List Nat}
    (h : List.Forall₂ (m.HasType f) os ts) (hd : ∀ id, .temp id ∈ os → id ∈ defined) :
    List.Forall₂ (m.Uses f defined) os ts := by
  induction h with
  | nil => exact .nil
  | cons ho _ ih =>
    refine .cons (uses_iff.2 ⟨ho, ?_⟩) (ih fun id hm => hd id (List.mem_cons_of_mem _ hm))
    rintro id rfl
    exact hd id List.mem_cons_self

theorem isFloat_iff : t.isFloat = true ↔ t = .float := by
  cases t <;> simp [Ty.isFloat]

theorem isArithmetic_iff : t.isArithmetic = true ↔ t = .char ∨ t = .int ∨ t = .float := by
  cases t <;> simp [Ty.isArithmetic]

theorem allows_iff {op : CastOp} {source target : Ty} :
    op.allows source target = true ↔ op.Converts source target := by
  cases op with
  | signedToFloat | unsignedToFloat | floatToSigned | floatToUnsigned =>
    simp [CastOp.allows, CastOp.Converts, isFloat_iff, Option.isSome_iff_exists]
  | zeroExtend | truncate =>
    unfold CastOp.allows CastOp.Converts
    cases source.intWidth? <;> cases target.intWidth? <;> simp

end types

/-! ## Rules with and without an order -/

section rules

variable {m : Module} {f : Function} {defined : List Nat}

theorem lawful_of_typed {i : Inst} (h : i.Typed m (m.Uses f defined)) : i.Lawful m f := by
  have hexist : ∀ o ∈ i.action.operands, o.Exists m f := by
    intro o ho
    obtain ⟨t, ht⟩ := h.has_operand o ho
    exact exists_of_hasType (uses_iff.1 ht).1
  obtain ⟨hnamed, h⟩ := h
  cases ha : i.action with
  | load address =>
    simp only [ha] at h
    exact ⟨hexist, by rw [ha]; exact (uses_iff.1 h).1, hnamed, by simp [ha], by simp [ha]⟩
  | store address value =>
    simp only [ha] at h
    obtain ⟨⟨t, haddress, hvalue⟩, hnone⟩ := h
    refine ⟨hexist, ?_, hnamed, fun _ _ _ => ⟨?_, hnone⟩, by simp [ha]⟩
    · rw [ha]
      exact ⟨t, (uses_iff.1 haddress).1, (uses_iff.1 hvalue).1⟩
    · by_contra hty
      exact hnamed hty hnone
  | cast op value =>
    simp only [ha] at h
    obtain ⟨source, hvalue, hallows⟩ := h
    refine ⟨hexist, ?_, hnamed, by simp [ha], by simp [ha]⟩
    rw [ha]
    exact ⟨source, (uses_iff.1 hvalue).1, allows_iff.1 hallows⟩
  | compare lhs rhs =>
    simp only [ha] at h
    obtain ⟨hl, hr, hty⟩ := h
    refine ⟨hexist, ?_, hnamed, by simp [ha], by simp [ha]⟩
    rw [ha]
    exact ⟨(uses_iff.1 hl).1, (uses_iff.1 hr).1, hty⟩
  | call callee args =>
    simp only [ha] at h
    obtain ⟨g, hg, hargs, hret, hvoid⟩ := h
    refine ⟨hexist, ?_, hnamed, by simp [ha], fun _ _ _ => hvoid⟩
    rw [ha]
    exact ⟨g, hg, hargs.imp fun _ _ ho => (uses_iff.1 ho).1, hret⟩

theorem typed_of_lawful {i : Inst} (h : i.Lawful m f)
    (hd : ∀ id, .temp id ∈ i.action.operands → id ∈ defined) : i.Typed m (m.Uses f defined) := by
  have huse : ∀ o ∈ i.action.operands, ∀ t, m.HasType f o t → m.Uses f defined o t := by
    intro o ho t ht
    refine uses_iff.2 ⟨ht, ?_⟩
    rintro id rfl
    exact hd id ho
  have hrule := h.rule
  refine ⟨h.named, ?_⟩
  cases ha : i.action with
  | load address =>
    rw [ha] at hrule huse
    exact huse address (by simp [Action.operands]) _ hrule
  | store address value =>
    rw [ha] at hrule huse
    obtain ⟨t, haddress, hvalue⟩ := hrule
    refine ⟨⟨t, huse address ?_ _ haddress, huse value ?_ _ hvalue⟩, (h.store _ _ ha).2⟩
    · simp [Action.operands]
    · simp [Action.operands]
  | cast op value =>
    rw [ha] at hrule huse
    obtain ⟨source, hvalue, hconverts⟩ := hrule
    exact ⟨source, huse value (by simp [Action.operands]) _ hvalue, allows_iff.2 hconverts⟩
  | compare lhs rhs =>
    rw [ha] at hrule huse
    obtain ⟨hl, hr, hty⟩ := hrule
    refine ⟨huse lhs ?_ _ hl, huse rhs ?_ _ hr, hty⟩
    · simp [Action.operands]
    · simp [Action.operands]
  | call callee args =>
    rw [ha] at hrule hd
    obtain ⟨g, hg, hargs, hret⟩ := hrule
    exact ⟨g, hg, forall₂_uses hargs hd, hret, h.call _ _ ha⟩

/-- Going through instructions in order, with the results so far, requires the same as looking at each
of them alone and at where its temporaries come from. -/
theorem instsTyped_iff {insts : List Inst} :
    ∀ {defined : List Nat}, InstsTyped m f defined insts ↔
      (∀ i ∈ insts, i.Lawful m f) ∧ ∀ before i after, insts = before ++ i :: after →
        ∀ id, .temp id ∈ i.action.operands → id ∈ resultIds before ∨ id ∈ defined := by
  induction insts with
  | nil => simp [InstsTyped]
  | cons j js ih =>
    intro defined
    rw [InstsTyped, ih, List.forall_mem_cons]
    constructor
    · rintro ⟨hj, hjs, huses⟩
      refine ⟨⟨lawful_of_typed hj, hjs⟩, ?_⟩
      intro before i after e id hid
      cases before with
      | nil =>
        cases e
        obtain ⟨t, ht⟩ := hj.has_operand _ hid
        exact .inr (ht.2 id rfl)
      | cons k before =>
        cases e
        rw [resultIds_cons, List.mem_append]
        rcases huses before i after rfl id hid with h | h
        · exact .inl (.inr h)
        · rcases List.mem_append.1 h with h | h
          · exact .inl (.inl h)
          · exact .inr h
    · rintro ⟨⟨hj, hjs⟩, huses⟩
      refine ⟨typed_of_lawful hj fun id hid => ?_, hjs, ?_⟩
      · exact (huses [] j js rfl id hid).resolve_left List.not_mem_nil
      · intro before i after e id hid
        have h := huses (j :: before) i after (by rw [e]; rfl) id hid
        rw [resultIds_cons, List.mem_append] at h
        rw [List.mem_append]
        tauto

theorem terminator_typed_iff {t : Terminator} : t.Typed m f defined ↔
    (∀ o ∈ t.operands, o.Exists m f) ∧ t.Rule m f ∧ ∀ id, .temp id ∈ t.operands → id ∈ defined := by
  constructor
  · intro h
    refine ⟨fun o ho => ?_, ?_, fun id hid => ?_⟩
    · obtain ⟨ty, hty⟩ := h.has_operand o ho
      exact exists_of_hasType (uses_iff.1 hty).1
    · match t, h with
      | .branch _ _ _, h => exact (uses_iff.1 h).1
      | .ret (some _), h => exact ⟨(uses_iff.1 h.1).1, h.2⟩
      | .ret none, h => exact h
      | .jump _, _ => trivial
      | .unreachable, _ => trivial
    · obtain ⟨ty, hty⟩ := h.has_operand _ hid
      exact hty.2 id rfl
  · rintro ⟨-, h, hd⟩
    match t, h, hd with
    | .branch cond _ _, h, hd =>
      refine uses_iff.2 ⟨h, ?_⟩
      rintro id rfl
      exact hd id List.mem_cons_self
    | .ret (some v), h, hd =>
      refine ⟨uses_iff.2 ⟨h.1, ?_⟩, h.2⟩
      rintro id rfl
      exact hd id List.mem_cons_self
    | .ret none, h, _ => exact h
    | .jump _, _, _ => trivial
    | .unreachable, _, _ => trivial

theorem blockOk_iff {b : Block} : m.BlockOk f b ↔ b.Lawful m f := by
  constructor
  · intro h
    obtain ⟨t, ht⟩ := Option.ne_none_iff_exists'.1 h.closed
    obtain ⟨hexist, hrule, -⟩ := terminator_typed_iff.1 (h.typed.terminator t ht)
    exact ⟨h.typed.usesOwn, (instsTyped_iff.1 h.typed.insts).1, t, ht, hexist, hrule, h.targets t ht⟩
  · rintro ⟨huses, hinsts, t, ht, hlawful⟩
    refine ⟨⟨instsTyped_iff.2 ⟨hinsts, ?_⟩, ?_⟩, by simp [ht], ?_⟩
    · intro before i after e id hid
      exact .inl (huses.insts before i after e id hid)
    · intro t' ht'
      cases ht.symm.trans ht'
      exact terminator_typed_iff.2 ⟨hlawful.exist, hlawful.rule, huses.terminator t ht⟩
    · intro t' ht'
      cases ht.symm.trans ht'
      exact hlawful.targets

theorem bodyOk_iff (hl : ∀ i ∈ f.layout, i < f.blocks.length) : m.BodyOk f ↔ f.Lawful m := by
  constructor
  · intro h
    refine ⟨fun s hs => isArithmetic_iff.1 (h.slots s hs), ?_, h.ids, ?_⟩
    · intro e he i hi b hb t ht hmem
      have hgoes := h.entry e he i hi b hb
      rw [(Function.goesTo_iff ht).2 hmem] at hgoes
      cases hgoes
    · intro i hi b hb
      obtain ⟨b', hb', hok⟩ := h.blocks i hi
      cases hb.symm.trans hb'
      exact blockOk_iff.1 hok
  · intro h
    refine ⟨fun s hs => isArithmetic_iff.2 (h.slots s hs), ?_, ?_, h.ids⟩
    · intro e he i hi b hb
      obtain ⟨t, ht, -⟩ := (h.blocks i hi b hb).terminator
      have hnot := h.entry e he i hi b hb t ht
      rwa [← Function.goesTo_iff ht, Bool.not_eq_true] at hnot
    · intro i hi
      have hb := List.getElem?_eq_getElem (hl i hi)
      exact ⟨_, hb, blockOk_iff.2 (h.blocks i hi _ hb)⟩

end rules

/-! ## Answers -/

namespace Checked

/-- A check passes, or finds a violation in the function `f`. -/
def Answers {α : Type} (f : Function) (x : Checked α) : Prop :=
  (∃ a, x = .ok a) ∨ ∃ e, x = violation e ∧ e.function? = some f.name

variable {α β : Type} {f : Function}

theorem Answers.bind {x : Checked α} {g : α → Checked β} (hx : Answers f x)
    (hg : ∀ a, Answers f (g a)) : Answers f (x >>= g) := by
  rcases hx with ⟨a, rfl⟩ | ⟨e, rfl, he⟩
  · exact hg a
  · exact .inr ⟨e, rfl, he⟩

theorem ok_answers (a : α) : Answers f (.ok a) := .inl ⟨a, rfl⟩

theorem violation_answers {e : VerifyError} (he : e.function? = some f.name) :
    Answers f (violation e : Checked α) := .inr ⟨e, rfl, he⟩

theorem guard_answers {p : Prop} [Decidable p] {e : VerifyError} {x : Checked α}
    (he : e.function? = some f.name) (hx : Answers f x) :
    Answers f (if p then violation e else x) := by
  split
  · exact violation_answers he
  · exact hx

end Checked

namespace Module

open Checked SlotIR.Function

section answers

variable {m : Module} {f : Function} {b : Block} {defined : List Nat}

theorem checkOperand_answers (o : Operand) : Answers f (m.checkOperand f b defined o) := by
  unfold checkOperand
  cases ho : m.operandType? f o with
  | none =>
    cases o with
    | temp id =>
      dsimp only
      split
      · exact violation_answers rfl
      · exact violation_answers rfl
    | const _ | arg _ | slot _ | global _ => exact violation_answers rfl
  | some t =>
    cases o with
    | temp id =>
      dsimp only
      split
      · exact ok_answers t
      · exact violation_answers rfl
    | const _ | arg _ | slot _ | global _ => exact ok_answers t

theorem checkAddress_answers (o : Operand) : Answers f (m.checkAddress f b defined o) := by
  refine (checkOperand_answers o).bind fun t => ?_
  cases t with
  | ptr p => exact ok_answers p
  | void | bool | char | int | float | fn _ _ => exact violation_answers rfl

theorem checkNoResult_answers (i : Inst) : Answers f (checkNoResult f b i) := by
  unfold checkNoResult
  cases i.result with
  | none => exact ok_answers ()
  | some id => exact violation_answers rfl

theorem checkArgs_answers (callee : String) (args : List Operand) :
    ∀ (index : Nat) (params : List Ty), Answers f (m.checkArgs f b defined callee index args params) := by
  induction args with
  | nil =>
    intro index params
    exact ok_answers ()
  | cons a as ih =>
    intro index params
    cases params with
    | nil => exact ok_answers ()
    | cons p ps => exact (checkOperand_answers a).bind fun t => guard_answers rfl (ih (index + 1) ps)

theorem checkAction_answers (i : Inst) : Answers f (m.checkAction f b defined i) := by
  unfold checkAction
  cases i.action with
  | load address =>
    exact (checkAddress_answers address).bind fun p => guard_answers rfl (ok_answers ())
  | store address value =>
    refine (checkAddress_answers address).bind fun p => (checkOperand_answers value).bind fun t => ?_
    exact guard_answers rfl (checkNoResult_answers i)
  | cast op value =>
    refine (checkOperand_answers value).bind fun source => ?_
    split
    · exact ok_answers ()
    · exact violation_answers rfl
  | compare lhs rhs =>
    refine (checkOperand_answers lhs).bind fun l => (checkOperand_answers rhs).bind fun r => ?_
    exact guard_answers rfl (ok_answers ())
  | call callee args =>
    dsimp only
    cases m.functions[callee]? with
    | none => exact violation_answers rfl
    | some g =>
      refine guard_answers rfl ((checkArgs_answers g.name args 0 _).bind fun _ => ?_)
      refine guard_answers rfl ?_
      split
      · exact checkNoResult_answers i
      · exact ok_answers ()

theorem checkInsts_answers (insts : List Inst) :
    ∀ seen defined : List Nat, Answers f (m.checkInsts f b insts seen defined) := by
  induction insts with
  | nil =>
    intro seen defined
    exact ok_answers _
  | cons i is ih =>
    intro seen defined
    have hi : Answers f (m.checkInst f b defined i) :=
      (checkAction_answers i).bind fun _ => guard_answers rfl (ok_answers ())
    refine hi.bind fun _ => ?_
    cases i.result with
    | none => exact ih seen defined
    | some id => exact guard_answers rfl (ih _ _)

theorem checkTargets_answers (targets : List Nat) : Answers f (checkTargets f b targets) := by
  induction targets with
  | nil => exact ok_answers ()
  | cons target targets ih =>
    rw [checkTargets]
    split
    · exact ih
    · exact violation_answers rfl

theorem checkTerminator_answers (t : Terminator) : Answers f (m.checkTerminator f b defined t) := by
  rcases t with target | ⟨cond, onTrue, onFalse⟩ | ⟨_ | v⟩ | _
  · exact ok_answers ()
  · exact (checkOperand_answers cond).bind fun t => guard_answers rfl (ok_answers ())
  · exact guard_answers rfl (ok_answers ())
  · exact (checkOperand_answers v).bind fun t => guard_answers rfl (ok_answers ())
  · exact ok_answers ()

theorem checkBlock_answers (b : Block) (seen : List Nat) : Answers f (m.checkBlock f b seen) := by
  refine (checkInsts_answers b.insts seen []).bind fun sets => ?_
  obtain ⟨seen, defined⟩ := sets
  cases b.terminator with
  | none => exact violation_answers rfl
  | some t =>
    refine (checkTargets_answers t.successors).bind fun _ => ?_
    exact (checkTerminator_answers t).bind fun _ => ok_answers _

theorem checkBlocks_answers {is : List Nat} :
    ∀ seen : List Nat, (∀ i ∈ is, i < f.blocks.length) → Answers f (m.checkBlocks f is seen) := by
  induction is with
  | nil =>
    intro seen _
    exact ok_answers ()
  | cons i is ih =>
    intro seen hl
    obtain ⟨hi, hl⟩ := List.forall_mem_cons.1 hl
    rw [checkBlocks, present_ok.2 (block_ok.2 (List.getElem?_eq_getElem hi))]
    exact (checkBlock_answers _ seen).bind fun seen => ih seen hl

theorem checkSlots_answers (slots : List Slot) : ∀ index, Answers f (checkSlots f index slots) := by
  induction slots with
  | nil =>
    intro index
    exact ok_answers ()
  | cons s ss ih =>
    intro index
    rw [checkSlots]
    split
    · exact ih (index + 1)
    · exact violation_answers rfl

/-- A body that names only blocks that exist is never a reason to stop without an answer. -/
theorem verifyBody_answers (hl : ∀ i ∈ f.layout, i < f.blocks.length) :
    Answers f (m.verifyBody f) := by
  unfold verifyBody
  cases hlayout : f.layout with
  | nil => exact ok_answers ()
  | cons entry rest =>
    refine (checkSlots_answers f.slots 0).bind fun _ => ?_
    obtain ⟨ps, hps⟩ := predecessors_of_exists
      (fun i hi => ⟨_, List.getElem?_eq_getElem (hl i hi)⟩) entry
    have hentry : Answers f (checkEntry f entry) := by
      unfold checkEntry
      rw [hps]
      refine (ok_answers ps).bind fun ps => ?_
      split
      · exact ok_answers ()
      · exact violation_answers rfl
    refine hentry.bind fun _ => checkBlocks_answers [] ?_
    rw [← hlayout]
    exact hl

theorem verifyFunction_of_some {index : Nat} (hf : m.functions[index]? = some f) :
    m.verifyFunction index = m.verifyBody f := by
  unfold verifyFunction function
  rw [hf]
  rfl

/-- Verification decides whether a function is lawful, for every module and every function whose
layout names only blocks that exist: it accepts exactly the functions without a body and those whose
body is lawful, and it refuses every other function with an error that names it. Where no block
outside of the body names a result of the body, the type of a temporary that the rules refer to is
that of the instruction in the body that defines it. -/
theorem verifyFunction_decides {index : Nat} (hf : m.functions[index]? = some f)
    (hl : ∀ i ∈ f.layout, i < f.blocks.length) :
    (m.verifyFunction index = .ok () ↔ f.hasBody = false ∨ f.Lawful m) ∧
    (m.verifyFunction index = .ok () ∨
      ∃ e, m.verifyFunction index = violation e ∧ e.function? = some f.name) ∧
    (f.DetachedApart → f.Lawful m → ∀ i ∈ f.layout, ∀ b, f.blocks[i]? = some b →
      ∀ inst ∈ b.insts, ∀ id, inst.result = some id → ∀ t, m.HasType f (.temp id) t ↔ t = inst.ty) := by
  rw [verifyFunction_of_some hf]
  refine ⟨?_, ?_, ?_⟩
  · rw [verifyBody_ok, bodyOk_iff hl, hasBody, Bool.not_eq_false', List.isEmpty_iff]
    exact Decidable.or_iff_not_imp_left.symm
  · rcases verifyBody_answers hl with ⟨⟨⟩, h⟩ | h
    · exact .inl h
    · exact .inr h
  · intro hapart hlawful i hi b hb inst hinst id hid t
    rw [hasType_iff, operandType?, resultType?_of_attached hlawful.ids hapart hi hb hinst hid,
      Option.some.injEq, eq_comm]

end answers

/-- Stores its argument, goes on to another block, and returns a temporary there. -/
def carry (insts : List Inst) (id : Nat) : Function where
  name := "carry"
  signature := { params := [.int], ret := .int }
  slots := [{ name := some "x", ty := .int, origin := .argument 0 }]
  blocks := [
    { name := "entry"
      insts := [
        { result := none, ty := .void, action := .store (.slot 0) (.arg 0) },
        { result := some 0, ty := .int, action := .load (.slot 0) }]
      terminator := some (.jump 1) },
    { name := "last", insts, terminator := some (.ret (some (.temp id))) }]
  layout := [0, 1]

/-- The slot is read again. -/
def reload : Inst := { result := some 1, ty := .int, action := .load (.slot 0) }

def couriers : Module where
  name := "couriers"
  functions := [carry [reload] 1, carry [] 0]

/-- Reading the slot again is lawful; a temporary that is used in another block is not. -/
theorem couriers_decided :
    couriers.verifyFunction 0 = .ok () ∧ (carry [reload] 1).Lawful couriers ∧
      ¬ (carry [] 0).Lawful couriers := by
  have haccept : couriers.verifyFunction 0 = .ok () := by decide
  have hrefuse : couriers.verifyFunction 1 ≠ .ok () := by decide
  obtain ⟨hfirst, -⟩ := @verifyFunction_decides couriers (carry [reload] 1) 0 rfl (by decide)
  obtain ⟨hsecond, -⟩ := @verifyFunction_decides couriers (carry [] 0) 1 rfl (by decide)
  refine ⟨haccept, (hfirst.1 haccept).resolve_left (by decide), fun h => ?_⟩
  exact hrefuse (hsecond.2 (.inr h))

end Module

end SlotIR
