import SlotIR.Machine
import SlotIR.Proofs.Acceptance
import SlotIR.Proofs.Ending

/-!
# Blocks outside of the body

Verification looks at the blocks that the layout names, with one exception: the type of a temporary
is looked up among the results of every block that was created, and the last one with its number
wins. A block that no layout names can so decide whether a body is accepted
(`detached_block_masks_mismatch`).

That is all such blocks can do. Two functions with the same body are verified with the same outcome
if they give the results of the body the same types, and so if no block outside of either body names
a result of the body (`verifyFunction_detached`).
-/

namespace SlotIR

/-! ## Functions with the same body -/

namespace Function

/-- A function without its blocks. -/
def bare (f : Function) : Function := { f with blocks := [] }

/-- Functions that differ at most in the instructions and the ends of blocks outside of the body. -/
structure SameBody (f f' : Function) : Prop where
  bare : f'.bare = f.bare
  names : f'.blocks.map (·.name) = f.blocks.map (·.name)
  blocks : ∀ i ∈ f.layout, f'.blocks[i]? = f.blocks[i]?

namespace SameBody

variable {f f' : Function} (h : f.SameBody f')

include h

theorem name : f'.name = f.name := (congrArg Function.name h.bare :)

theorem signature : f'.signature = f.signature := (congrArg Function.signature h.bare :)

theorem slots : f'.slots = f.slots := (congrArg Function.slots h.bare :)

theorem layout : f'.layout = f.layout := (congrArg Function.layout h.bare :)

theorem length : f'.blocks.length = f.blocks.length := by
  simpa using congrArg List.length h.names

theorem block {i : Nat} (hi : i ∈ f.layout) : f'.block i = f.block i := by
  rw [Function.block, Function.block, h.blocks i hi]

theorem idsAt {i : Nat} (hi : i ∈ f.layout) : f'.idsAt i = f.idsAt i := by
  rw [Function.idsAt, Function.idsAt, h.blocks i hi]

theorem blocksAt {is : List Nat} (his : ∀ i ∈ is, i ∈ f.layout) : f'.blocksAt is = f.blocksAt is := by
  induction is with
  | nil => rfl
  | cons i is ih =>
    obtain ⟨hi, his⟩ := List.forall_mem_cons.1 his
    rw [Function.blocksAt, Function.blocksAt, h.block hi, ih his]

theorem predecessors (target : Nat) : f'.predecessors target = f.predecessors target := by
  rw [Function.predecessors, Function.predecessors, h.layout, h.blocksAt fun _ hi => hi]

end SameBody

end Function

/-! ## Types of the results of a body -/

section types

/-- Blocks without a result can be exchanged when its type is looked up. -/
theorem lookup_resultTypes_congr {id : Nat} {bs bs' : List Block}
    (h : List.Forall₂ (fun b b' => b' = b ∨ id ∉ resultIds b.insts ∧ id ∉ resultIds b'.insts) bs bs') :
    (resultTypes (bs'.flatMap (·.insts))).reverse.lookup id =
      (resultTypes (bs.flatMap (·.insts))).reverse.lookup id := by
  induction h with
  | nil => rfl
  | @cons b b' bs bs' hb _ ih =>
    have hhead : (resultTypes b'.insts).reverse.lookup id = (resultTypes b.insts).reverse.lookup id := by
      rcases hb with rfl | ⟨hn, hn'⟩
      · rfl
      · rw [lookup_resultTypes_none.2 hn, lookup_resultTypes_none.2 hn']
    simp only [List.flatMap_cons, resultTypes_append, List.reverse_append, List.lookup_append, ih, hhead]

variable {f f' : Function}

/-- Blocks that stay apart from the body do not change the types of its results. -/
theorem Function.SameBody.resultType? (h : f.SameBody f') (ha : f.DetachedApart)
    (ha' : f'.DetachedApart) {j : Nat} (hj : j ∈ f.layout) {id : Nat} (hid : id ∈ f.idsAt j) :
    f'.resultType? id = f.resultType? id := by
  refine lookup_resultTypes_congr (List.forall₂_iff_get.2 ⟨h.length.symm, fun i hi hi' => ?_⟩)
  have hb : f.blocks[i]? = some (f.blocks.get ⟨i, hi⟩) := List.getElem?_eq_getElem hi
  have hb' : f'.blocks[i]? = some (f'.blocks.get ⟨i, hi'⟩) := List.getElem?_eq_getElem hi'
  by_cases hl : i ∈ f.layout
  · have e := h.blocks i hl
    rw [hb, hb'] at e
    exact .inl (Option.some.inj e)
  · rw [← idsAt_of_some hb, ← idsAt_of_some hb']
    refine .inr ⟨fun hm => ha i hi hl j hj id hm hid, fun hm => ?_⟩
    rw [← h.layout] at hl
    rw [← h.idsAt hj] at hid
    exact ha' i hi' hl j (h.layout ▸ hj) id hm hid

end types

/-! ## Checks that read the same -/

namespace Module

open Checked SlotIR.Function

/-- Modules that differ at most in blocks outside of the body of the function with an index. -/
def SameBodyAt (m m' : Module) (index : Nat) : Prop :=
  ∃ f f', m.functions[index]? = some f ∧ f.SameBody f' ∧
    m' = { m with functions := m.functions.set index f' }

/-- What checks of the functions `f` and `f'` find alike, apart from the types of temporaries. -/
structure ReadsAlike (m m' : Module) (f f' : Function) : Prop where
  body : f.SameBody f'
  globals : m'.globals = m.globals
  callees : ∀ i : Nat, m'.functions[i]?.map bare = m.functions[i]?.map bare

theorem readsAlike_set {m : Module} {index : Nat} {f f' : Function}
    (hf : m.functions[index]? = some f) (h : f.SameBody f') :
    m.ReadsAlike { m with functions := m.functions.set index f' } f f' := by
  refine ⟨h, rfl, fun i => ?_⟩
  by_cases hi : index = i
  · subst hi
    have hlt := (List.getElem?_eq_some_iff.1 hf).1
    rw [hf, List.getElem?_set_self hlt, Option.map_some, Option.map_some, h.bare]
  · rw [List.getElem?_set_ne hi]

section congr

variable {m m' : Module} {f f' : Function} {b : Block} {defined : List Nat}
  (h : m.ReadsAlike m' f f')

include h

theorem invalid_congr {α : Type} (flaw : OperandFlaw) :
    (invalid f' b flaw : Checked α) = invalid f b flaw := by
  rw [invalid, invalid, h.body.name]

theorem mismatch_congr {α : Type} (flaw : TypeFlaw) :
    (mismatch f' b flaw : Checked α) = mismatch f b flaw := by
  rw [mismatch, mismatch, h.body.name]

theorem checkNoResult_congr (i : Inst) : checkNoResult f' b i = checkNoResult f b i := by
  simp only [checkNoResult, invalid_congr h]

theorem operandType?_congr {o : Operand}
    (ho : ∀ id, o = .temp id → f'.resultType? id = f.resultType? id) :
    m'.operandType? f' o = m.operandType? f o := by
  cases o with
  | const v => rfl
  | arg i => rw [operandType?, operandType?, h.body.signature]
  | temp id => exact ho id rfl
  | slot i => rw [operandType?, operandType?, h.body.slots]
  | global i => rw [operandType?, operandType?, h.globals]

section operands

variable (hd : ∀ id ∈ defined, f'.resultType? id = f.resultType? id)

include hd

/-- A temporary is refused before its type is looked up, unless the block defines it. -/
theorem checkOperand_congr (o : Operand) :
    m'.checkOperand f' b defined o = m.checkOperand f b defined o := by
  unfold checkOperand
  simp only [invalid_congr h]
  cases o with
  | temp id =>
    by_cases hid : id ∈ defined
    · rw [operandType?_congr h]
      rintro _ ⟨⟩
      exact hd id hid
    · simp [hid]
  | const _ | arg _ | slot _ | global _ =>
    rw [operandType?_congr h]
    simp

theorem checkAddress_congr (o : Operand) :
    m'.checkAddress f' b defined o = m.checkAddress f b defined o := by
  simp only [checkAddress, checkOperand_congr h hd, mismatch_congr h]

theorem checkArgs_congr (callee : String) (args : List Operand) :
    ∀ (index : Nat) (params : List Ty),
      m'.checkArgs f' b defined callee index args params =
        m.checkArgs f b defined callee index args params := by
  induction args with
  | nil =>
    intro index params
    rfl
  | cons a as ih =>
    intro index params
    cases params with
    | nil => rfl
    | cons p ps => simp only [checkArgs, checkOperand_congr h hd, mismatch_congr h, ih]

theorem checkAction_congr (i : Inst) : m'.checkAction f' b defined i = m.checkAction f b defined i := by
  unfold checkAction
  cases i.action with
  | load _ | store _ _ | cast _ _ | compare _ _ =>
    simp only [checkAddress_congr h hd, checkOperand_congr h hd, mismatch_congr h, checkNoResult_congr h]
  | call callee args =>
    -- The callee may be the function itself: only its name and its signature are read.
    have hcallee := h.callees callee
    dsimp only
    cases hg : m.functions[callee]? with
    | none =>
      rw [hg, Option.map_none, Option.map_eq_none_iff] at hcallee
      rw [hcallee]
      exact invalid_congr h _
    | some g =>
      rw [hg, Option.map_some, Option.map_eq_some_iff] at hcallee
      obtain ⟨g', hg', hbare⟩ := hcallee
      have hname : g'.name = g.name := (congrArg Function.name hbare :)
      have hsignature : g'.signature = g.signature := (congrArg Function.signature hbare :)
      simp only [hg', hname, hsignature, h.body.name, checkArgs_congr h hd, mismatch_congr h,
        checkNoResult_congr h]

theorem checkInst_congr (i : Inst) : m'.checkInst f' b defined i = m.checkInst f b defined i := by
  simp only [checkInst, checkAction_congr h hd, invalid_congr h]

theorem checkTerminator_congr (t : Terminator) :
    m'.checkTerminator f' b defined t = m.checkTerminator f b defined t := by
  rcases t with target | ⟨cond, onTrue, onFalse⟩ | ⟨_ | v⟩ | _
  · rfl
  · simp only [checkTerminator, checkOperand_congr h hd, mismatch_congr h]
  · simp only [checkTerminator, h.body.signature, mismatch_congr h]
  · simp only [checkTerminator, h.body.signature, checkOperand_congr h hd, mismatch_congr h]
  · rfl

end operands

theorem checkInsts_congr (insts : List Inst) :
    ∀ seen defined : List Nat,
      (∀ id ∈ resultIds insts ++ defined, f'.resultType? id = f.resultType? id) →
      m'.checkInsts f' b insts seen defined = m.checkInsts f b insts seen defined := by
  induction insts with
  | nil =>
    intro seen defined _
    rfl
  | cons i is ih =>
    intro seen defined hd
    rw [resultIds_cons] at hd
    have hi := checkInst_congr (b := b) h
      (fun id hid => hd id (List.mem_append_right _ hid)) i
    cases hr : i.result with
    | none =>
      rw [hr, Option.toList_none, List.nil_append] at hd
      simp only [checkInsts, hi, hr, ih seen defined hd]
    | some id =>
      have his : ∀ id' ∈ resultIds is ++ id :: defined, f'.resultType? id' = f.resultType? id' := by
        intro id' hid'
        refine hd id' ?_
        rw [hr]
        simp only [List.mem_append, List.mem_cons, Option.toList_some, List.not_mem_nil] at hid' ⊢
        tauto
      simp only [checkInsts, hi, hr, ih _ _ his, invalid_congr h]

theorem checkTargets_congr (targets : List Nat) :
    checkTargets f' b targets = checkTargets f b targets := by
  induction targets with
  | nil => rfl
  | cons target targets ih =>
    rw [checkTargets, checkTargets, isAttached, isAttached, h.body.layout, h.body.name, ih]

end congr

/-- What can be used behind instructions was there before or is one of their results. -/
theorem defined_of_checkInsts {m : Module} {f : Function} {b : Block} (insts : List Inst) :
    ∀ {seen defined seen' defined' : List Nat},
      m.checkInsts f b insts seen defined = .ok (seen', defined') →
      ∀ id ∈ defined', id ∈ resultIds insts ++ defined := by
  induction insts with
  | nil =>
    intro seen defined seen' defined' hok id hid
    cases hok
    exact hid
  | cons i is ih =>
    intro seen defined seen' defined' hok id hid
    rw [checkInsts] at hok
    obtain ⟨_, -, hok⟩ := bind_ok.1 hok
    rw [resultIds_cons]
    cases hr : i.result with
    | none =>
      rw [hr] at hok
      exact ih hok id hid
    | some id' =>
      rw [hr] at hok
      have hm := ih (guard_ok.1 hok).2 id hid
      simp only [List.mem_append, List.mem_cons, Option.toList_some, List.not_mem_nil] at hm ⊢
      tauto

section congr

variable {m m' : Module} {f f' : Function} (h : m.ReadsAlike m' f f')

include h

theorem checkBlock_congr {b : Block}
    (hd : ∀ id ∈ resultIds b.insts, f'.resultType? id = f.resultType? id) (seen : List Nat) :
    m'.checkBlock f' b seen = m.checkBlock f b seen := by
  have hd' : ∀ id ∈ resultIds b.insts ++ [], f'.resultType? id = f.resultType? id := by
    rwa [List.append_nil]
  unfold checkBlock
  rw [checkInsts_congr h b.insts seen [] hd']
  cases hinsts : m.checkInsts f b b.insts seen [] with
  | error e => rfl
  | ok sets =>
    obtain ⟨seen', defined⟩ := sets
    have hdefined : ∀ id ∈ defined, f'.resultType? id = f.resultType? id := fun id hid =>
      hd' id (defined_of_checkInsts b.insts hinsts id hid)
    simp only [bind, Except.bind, checkTargets_congr h, checkTerminator_congr h hdefined, h.body.name]

variable (ht : ∀ i ∈ f.layout, ∀ id ∈ f.idsAt i, f'.resultType? id = f.resultType? id)

include ht

theorem checkBlocks_congr {is : List Nat} :
    ∀ seen : List Nat, (∀ i ∈ is, i ∈ f.layout) →
      m'.checkBlocks f' is seen = m.checkBlocks f is seen := by
  induction is with
  | nil =>
    intro seen _
    rfl
  | cons i is ih =>
    intro seen his
    obtain ⟨hi, his⟩ := List.forall_mem_cons.1 his
    rw [checkBlocks, checkBlocks, h.body.block hi]
    cases hb : f.block i with
    | error e => rfl
    | ok b =>
      have hd := ht i hi
      rw [idsAt_of_some (block_ok.1 hb)] at hd
      show (m'.checkBlock f' b seen >>= _) = (m.checkBlock f b seen >>= _)
      rw [checkBlock_congr h hd]
      exact bind_congr fun seen' => ih seen' his

/-- The checks of a body come to the same outcome, if the results of the body have the same types. -/
theorem verifyBody_congr : m'.verifyBody f' = m.verifyBody f := by
  have hslots : ∀ slots index, checkSlots f' index slots = checkSlots f index slots := by
    intro slots
    induction slots with
    | nil => exact fun _ => rfl
    | cons s ss ih =>
      intro index
      rw [checkSlots, checkSlots, ih, h.body.name]
  have hentry : ∀ entry, checkEntry f' entry = checkEntry f entry := by
    intro entry
    rw [checkEntry, checkEntry, h.body.predecessors, h.body.name]
  have hblocks := checkBlocks_congr h ht [] fun _ hi => hi
  simp only [verifyBody, h.body.layout, h.body.slots, hslots, hentry, hblocks]

end congr

/-! ## The outcome of verification -/

/-- Blocks outside of the body influence the verification of a function only through the types of
results. If the results of the body have the same types in two modules that differ in such blocks, the
function is accepted in both, or refused in both with the same error. That is so in particular if
no block outside of either body names a result of the body. -/
theorem verifyFunction_detached {m m' : Module} {index : Nat} (h : m.SameBodyAt m' index)
    {f f' : Function} (hf : m.functions[index]? = some f) (hf' : m'.functions[index]? = some f') :
    ((∀ i ∈ f.layout, ∀ id ∈ f.idsAt i, f'.resultType? id = f.resultType? id) →
      m'.verifyFunction index = m.verifyFunction index) ∧
    (f.DetachedApart → f'.DetachedApart → m'.verifyFunction index = m.verifyFunction index) := by
  obtain ⟨g, g', hg, hbody, rfl⟩ := h
  cases hf.symm.trans hg
  have hset := List.getElem?_set_self (a := g') (List.getElem?_eq_some_iff.1 hf).1
  cases hset.symm.trans hf'
  have halike := readsAlike_set hf hbody
  rw [verifyFunction_of_some hf, verifyFunction_of_some hf']
  refine ⟨fun ht => verifyBody_congr halike ht, fun ha ha' => verifyBody_congr halike ?_⟩
  exact fun i hi id hid => hbody.resultType? ha ha' hi hid

/-- Returns a float where an integer is promised. The block `spare` is not part of the body. -/
def mistyped (spare : List Inst) : Function where
  name := "f"
  signature := { params := [], ret := .int }
  blocks := [
    { name := "entry"
      insts := [{ result := some 0, ty := .float, action := .cast .signedToFloat (.const (.int 1)) }]
      terminator := some (.ret (some (.temp 0))) },
    { name := "spare", insts := spare }]
  layout := [0]

def mistypedModule (spare : List Inst) : Module where
  name := "mistyped"
  functions := [mistyped spare]

/-- An integer with the number `id`. -/
def widen (id : Nat) : Inst :=
  { result := some id, ty := .int, action := .cast .zeroExtend (.const (.char 7)) }

theorem mistyped_sameBody (spare spare' : List Inst) :
    (mistyped spare).SameBody (mistyped spare') := by
  refine ⟨rfl, rfl, fun i hi => ?_⟩
  cases List.mem_singleton.1 hi
  rfl

theorem mistypedModule_sameBodyAt (spare spare' : List Inst) :
    (mistypedModule spare).SameBodyAt (mistypedModule spare') 0 :=
  ⟨_, _, rfl, mistyped_sameBody spare spare', rfl⟩

/-- With a number of its own, the result of the block outside of the body changes nothing. -/
theorem widen_apart :
    (mistypedModule [widen 1]).verifyFunction 0 =
      violation (.typeMismatch "f" "entry" (.ret .float .int)) := by
  have h := (@verifyFunction_detached (mistypedModule []) (mistypedModule [widen 1]) 0
    (mistypedModule_sameBodyAt _ _) (mistyped []) (mistyped [widen 1]) rfl rfl).2
    (by decide) (by decide)
  rw [h]
  decide

/-- A block outside of the body can hide a violation: with the number of the returned temporary, its
integer passes for that temporary, and the function returns a float when it runs. -/
theorem detached_block_masks_mismatch :
    (mistypedModule []).SameBodyAt (mistypedModule [widen 0]) 0 ∧
    (mistypedModule []).verifyFunction 0 =
      violation (.typeMismatch "f" "entry" (.ret .float .int)) ∧
    (mistypedModule [widen 0]).verifyFunction 0 = .ok () ∧
    (mistypedModule [widen 0]).run 2 "f" [] (.start (mistypedModule [widen 0])) =
      .ok (some (.float (.ofBits 0x3f800000))) (.start (mistypedModule [widen 0])) := by
  refine ⟨mistypedModule_sameBodyAt _ _, by decide, by decide, ?_⟩
  decide +kernel

end Module

end SlotIR
