import Mathlib.Data.List.Nodup
import Mathlib.Data.List.Pairwise
import SlotIR.Proofs.Names
import SlotIR.Proofs.Typing

/-!
# What verification decides

Each check of the verifier succeeds exactly when the rule it stands for holds: `checkInst_ok` for an
instruction, `checkBlock_ok` for a block, `verifyBody_ok` for a function. A body in which only the
last block is open fails at that block and nowhere else (`verifyBody_open`).
-/

namespace SlotIR

namespace Checked

variable {ε α β : Type}

theorem bind_ok {x : Except ε α} {f : α → Except ε β} {c : β} :
    (x >>= f) = .ok c ↔ ∃ a, x = .ok a ∧ f a = .ok c := by
  cases x with
  | ok a => simp [bind, Except.bind]
  | error e => simp [bind, Except.bind]

theorem pure_ok {a c : α} : (pure a : Checked α) = .ok c ↔ a = c := by
  simp [pure, Except.pure]

@[simp] theorem violation_ok {e : VerifyError} {a : α} : (violation e : Checked α) = .ok a ↔ False :=
  ⟨nofun, False.elim⟩

/-- A check that is followed by another passes if its condition does not hold. -/
theorem guard_ok {p : Prop} [Decidable p] {e : VerifyError} {x : Checked α} {a : α} :
    (if p then violation e else x) = .ok a ↔ ¬p ∧ x = .ok a := by
  split
  · next h => simp [h]
  · next h => simp [h]

theorem present_ok {x : Except Missing α} {a : α} : present x = .ok a ↔ x = .ok a := by
  cases x with
  | ok b => simp [present]
  | error e => simp [present]

end Checked

namespace Module

open Checked

section block

variable {m : Module} {f : Function} {b : Block} {defined : List Nat}

/-! ## Operands -/

theorem checkOperand_ok {o : Operand} {t : Ty} :
    m.checkOperand f b defined o = .ok t ↔ m.Uses f defined o t := by
  unfold checkOperand Uses
  cases ho : m.operandType? f o with
  | none =>
    cases o with
    | temp id => by_cases hd : id ∈ defined <;> simp [hd, invalid]
    | const v | arg i | slot i | global i => simp [invalid]
  | some t' =>
    cases o with
    | temp id => by_cases hd : id ∈ defined <;> simp [hd, invalid]
    | const v | arg i | slot i | global i => simp

theorem checkAddress_ok {o : Operand} {t : Ty} :
    m.checkAddress f b defined o = .ok t ↔ m.Uses f defined o (.ptr t) := by
  unfold checkAddress
  rw [bind_ok]
  constructor
  · rintro ⟨t', h', h⟩
    rw [checkOperand_ok] at h'
    cases t' with
    | ptr p =>
      rw [pure_ok] at h
      exact h ▸ h'
    | void | bool | char | int | float | fn _ _ => cases h
  · intro h
    exact ⟨.ptr t, checkOperand_ok.2 h, rfl⟩

theorem checkNoResult_ok {i : Inst} {u : Unit} : checkNoResult f b i = .ok u ↔ i.result = none := by
  unfold checkNoResult
  cases i.result <;> simp [invalid]

theorem checkArgs_ok {callee : String} {args : List Operand} {u : Unit} :
    ∀ {params : List Ty} {index : Nat}, args.length = params.length →
      (m.checkArgs f b defined callee index args params = .ok u ↔
        List.Forall₂ (m.Uses f defined) args params) := by
  induction args with
  | nil =>
    intro params index hl
    cases params with
    | nil => simp [checkArgs]
    | cons p ps => cases hl
  | cons a as ih =>
    intro params index hl
    cases params with
    | nil => cases hl
    | cons p ps =>
      have hl' : as.length = ps.length := Nat.succ.inj hl
      rw [checkArgs, bind_ok, List.forall₂_cons]
      simp only [mismatch, guard_ok, checkOperand_ok, not_not, ih hl']
      constructor
      · rintro ⟨t, ht, rfl, h⟩
        exact ⟨ht, h⟩
      · rintro ⟨ha, has⟩
        exact ⟨p, ha, rfl, has⟩

/-! ## Instructions -/

theorem checkAction_ok {i : Inst} {u : Unit} :
    m.checkAction f b defined i = .ok u ∧ (i.ty ≠ .void → i.result ≠ none) ↔
      i.Typed m (m.Uses f defined) := by
  unfold Inst.Typed checkAction
  rw [and_comm]
  refine and_congr Iff.rfl ?_
  cases i.action with
  | load address =>
    simp only [mismatch, bind_ok, checkAddress_ok, guard_ok, not_not, pure_ok, and_true]
    constructor
    · rintro ⟨p, hp, rfl⟩
      exact hp
    · intro h
      exact ⟨i.ty, h, rfl⟩
  | store address value =>
    simp only [mismatch, bind_ok, checkAddress_ok, checkOperand_ok, guard_ok, not_not,
      checkNoResult_ok]
    constructor
    · rintro ⟨p, hp, t, ht, rfl, hr⟩
      exact ⟨⟨p, hp, ht⟩, hr⟩
    · rintro ⟨⟨t, hp, ht⟩, hr⟩
      exact ⟨t, hp, t, ht, rfl, hr⟩
  | cast op value =>
    simp only [bind_ok, checkOperand_ok]
    refine exists_congr fun source => and_congr Iff.rfl ?_
    by_cases h : op.allows source i.ty = true <;> simp [h, mismatch, pure_ok]
  | compare lhs rhs =>
    simp only [mismatch, bind_ok, checkOperand_ok, guard_ok, not_or, not_not, pure_ok, and_true]
    constructor
    · rintro ⟨l, hl, r, hr, rfl, rfl, ht⟩
      exact ⟨hl, hr, ht⟩
    · rintro ⟨hl, hr, ht⟩
      exact ⟨_, hl, _, hr, rfl, rfl, ht⟩
  | call callee args =>
    dsimp only
    cases hg : m.functions[callee]? with
    | none => simp [invalid]
    | some g =>
      simp only [guard_ok, not_not, mismatch, Option.some.injEq, exists_eq_left']
      constructor
      · rintro ⟨hl, h⟩
        obtain ⟨_, ha, h⟩ := bind_ok.1 h
        obtain ⟨hr, h⟩ := guard_ok.1 h
        refine ⟨(checkArgs_ok hl).1 ha, not_not.1 hr, fun hv => ?_⟩
        rw [if_pos hv] at h
        exact checkNoResult_ok.1 h
      · rintro ⟨ha, hr, hv⟩
        refine ⟨ha.length_eq, bind_ok.2 ⟨(), (checkArgs_ok ha.length_eq).2 ha, ?_⟩⟩
        refine guard_ok.2 ⟨not_not.2 hr, ?_⟩
        split
        · next h => exact checkNoResult_ok.2 (hv h)
        · rfl

/-- Checking an instruction decides its rule. -/
theorem checkInst_ok {i : Inst} {u : Unit} :
    m.checkInst f b defined i = .ok u ↔ i.Typed m (m.Uses f defined) := by
  rw [← checkAction_ok]
  unfold checkInst
  simp only [bind_ok, invalid, guard_ok, pure_ok, and_true, not_and]
  exact ⟨fun ⟨_, h⟩ => h, fun h => ⟨(), h⟩⟩

/-- Checking instructions in order decides the rule of each, and that no result is named twice. -/
theorem checkInsts_ok {insts : List Inst} :
    ∀ {seen defined seen' defined' : List Nat}, seen.Nodup →
      (m.checkInsts f b insts seen defined = .ok (seen', defined') ↔
        InstsTyped m f defined insts ∧ ((resultIds insts).reverse ++ seen).Nodup ∧
          seen' = (resultIds insts).reverse ++ seen ∧
          defined' = (resultIds insts).reverse ++ defined) := by
  induction insts with
  | nil =>
    intro seen defined seen' defined' hs
    simp [checkInsts, InstsTyped, hs, eq_comm]
  | cons i is ih =>
    intro seen defined seen' defined' hs
    rw [checkInsts, bind_ok, InstsTyped, resultIds_cons]
    simp only [checkInst_ok, exists_const]
    cases hr : i.result with
    | none => simp [ih hs, and_assoc]
    | some id =>
      simp only [invalid, guard_ok, List.contains_eq_mem, decide_eq_true_eq, Option.toList_some,
        List.cons_append, List.nil_append, List.reverse_cons, List.append_assoc]
      constructor
      · rintro ⟨hi, hn, h⟩
        obtain ⟨his, hnd, rfl, rfl⟩ := (ih (List.nodup_cons.2 ⟨hn, hs⟩)).1 h
        exact ⟨⟨hi, his⟩, hnd, rfl, rfl⟩
      · rintro ⟨⟨hi, his⟩, hnd, rfl, rfl⟩
        have hn : id ∉ seen := (List.nodup_cons.1 (List.nodup_append.1 hnd).2.1).1
        exact ⟨hi, hn, (ih (List.nodup_cons.2 ⟨hn, hs⟩)).2 ⟨his, hnd, rfl, rfl⟩⟩

/-! ## Blocks -/

theorem checkTargets_ok {targets : List Nat} {u : Unit} :
    checkTargets f b targets = .ok u ↔ ∀ target ∈ targets, target ∈ f.layout := by
  induction targets with
  | nil => simp [checkTargets]
  | cons target targets ih =>
    rw [checkTargets, List.forall_mem_cons, ← ih]
    by_cases h : target ∈ f.layout <;> simp [Function.isAttached, h]

theorem checkTerminator_ok {t : Terminator} {u : Unit} :
    m.checkTerminator f b defined t = .ok u ↔ t.Typed m f defined := by
  match t with
  | .branch cond onTrue onFalse =>
    simp only [checkTerminator, Terminator.Typed, bind_ok, checkOperand_ok, mismatch, guard_ok,
      not_not, pure_ok, and_true]
    constructor
    · rintro ⟨t, ht, rfl⟩
      exact ht
    · intro h
      exact ⟨.bool, h, rfl⟩
  | .ret (some v) =>
    simp only [checkTerminator, Terminator.Typed, bind_ok, checkOperand_ok, mismatch, guard_ok,
      not_or, not_not, pure_ok, and_true]
    constructor
    · rintro ⟨t, ht, rfl, hv⟩
      exact ⟨ht, hv⟩
    · rintro ⟨h, hv⟩
      exact ⟨_, h, rfl, hv⟩
  | .ret none =>
    simp only [checkTerminator, Terminator.Typed, mismatch, guard_ok, not_not, and_true]
  | .jump _ => simp [checkTerminator, Terminator.Typed]
  | .unreachable => simp [checkTerminator, Terminator.Typed]

end block

/-- A block of a body passes: it has an end, control stays in the body, and its rules hold. -/
structure BlockOk (m : Module) (f : Function) (b : Block) : Prop where
  typed : b.Typed m f
  closed : b.terminator ≠ none
  targets : ∀ t, b.terminator = some t → ∀ target ∈ t.successors, target ∈ f.layout

theorem checkBlock_ok {m : Module} {f : Function} {b : Block} {seen seen' : List Nat}
    (hs : seen.Nodup) :
    m.checkBlock f b seen = .ok seen' ↔
      BlockOk m f b ∧ ((resultIds b.insts).reverse ++ seen).Nodup ∧
        seen' = (resultIds b.insts).reverse ++ seen := by
  unfold checkBlock
  rw [bind_ok]
  constructor
  · rintro ⟨⟨s, d⟩, hc, h⟩
    obtain ⟨hi, hn, rfl, rfl⟩ := (checkInsts_ok hs).1 hc
    cases ht : b.terminator with
    | none =>
      simp only [ht] at h
      cases h
    | some t =>
      simp only [ht, bind_ok, checkTargets_ok, checkTerminator_ok, pure_ok, exists_const] at h
      obtain ⟨htargets, htyped, rfl⟩ := h
      refine ⟨⟨⟨hi, ?_⟩, by simp [ht], ?_⟩, hn, rfl⟩
      · intro t' h
        cases ht.symm.trans h
        exact htyped.weaken (by simp)
      · intro t' h
        cases ht.symm.trans h
        exact htargets
  · rintro ⟨hb, hn, rfl⟩
    obtain ⟨t, ht⟩ := Option.ne_none_iff_exists'.1 hb.closed
    refine ⟨_, (checkInsts_ok hs).2 ⟨hb.typed.insts, hn, rfl, rfl⟩, ?_⟩
    simp only [ht, bind_ok, checkTargets_ok, checkTerminator_ok, pure_ok, exists_const]
    exact ⟨hb.targets t ht, (hb.typed.terminator t ht).weaken (by simp), trivial⟩

end Module

/-! ## Functions -/

/-- Instructions with different results, and one result, are the same. -/
theorem eq_of_result_eq {insts : List Inst} (hn : (resultIds insts).Nodup) {i j : Inst}
    (hi : i ∈ insts) (hj : j ∈ insts) (h : i.result = j.result) (hs : i.result ≠ none) : i = j := by
  induction insts with
  | nil => cases hi
  | cons k ks ih =>
    rw [resultIds_cons] at hn
    obtain ⟨-, hks, hdisj⟩ := List.nodup_append.1 hn
    obtain ⟨id, hid⟩ := Option.ne_none_iff_exists'.1 hs
    have mem : ∀ l ∈ ks, l.result = some id → id ∈ resultIds ks := fun l hl he =>
      List.mem_filterMap.2 ⟨l, hl, he⟩
    rcases List.mem_cons.1 hi with rfl | hik <;> rcases List.mem_cons.1 hj with rfl | hjk
    · rfl
    · exact absurd rfl (hdisj id (by simp [hid]) id (mem j hjk (h.symm.trans hid)))
    · exact absurd rfl (hdisj id (by simp [← h, hid]) id (mem i hik hid))
    · exact ih hks hik hjk

namespace Function

variable {f : Function}

/-- The results of the instructions of a block. -/
def idsAt (f : Function) (i : Nat) : List Nat :=
  match f.blocks[i]? with
  | some b => resultIds b.insts
  | none => []

theorem idsAt_of_some {i : Nat} {b : Block} (h : f.blocks[i]? = some b) :
    f.idsAt i = resultIds b.insts := by
  rw [idsAt, h]

/-- No block outside of the body defines a result that a block of the body defines too. -/
def DetachedApart (f : Function) : Prop :=
  ∀ i < f.blocks.length, i ∉ f.layout → ∀ j ∈ f.layout, ∀ id ∈ f.idsAt i, id ∉ f.idsAt j

instance (f : Function) : Decidable f.DetachedApart :=
  inferInstanceAs (Decidable (∀ i < _, _))

/-- A result of the body has the type of the one instruction that defines it. -/
theorem resultType?_of_attached (hids : (f.layout.flatMap f.idsAt).Nodup)
    (ha : f.DetachedApart) {i : Nat} {b : Block} {inst : Inst} {id : Nat} (hi : i ∈ f.layout)
    (hb : f.blocks[i]? = some b) (hinst : inst ∈ b.insts) (hr : inst.result = some id) :
    f.resultType? id = some inst.ty := by
  obtain ⟨hnd, hdisj⟩ := List.nodup_flatMap.1 hids
  have mem : ∀ {j : Nat} {c : Block} {k : Inst}, f.blocks[j]? = some c → k ∈ c.insts →
      k.result = some id → id ∈ f.idsAt j := by
    intro j c k hc hk hid
    rw [idsAt_of_some hc]
    exact List.mem_filterMap.2 ⟨k, hk, hid⟩
  refine resultType?_of_unique (mem_results.2 ⟨i, b, hb, inst, hinst, hr, rfl⟩) ?_
  intro t' ht'
  obtain ⟨j, c, hc, k, hk, hid, rfl⟩ := mem_results.1 ht'
  by_cases hj : j ∈ f.layout
  · by_cases hij : i = j
    · subst hij
      cases hb.symm.trans hc
      have h := hnd i hi
      rw [idsAt_of_some hb] at h
      rw [eq_of_result_eq h hinst hk (hr.trans hid.symm) (by simp [hr])]
    · have : Std.Symm fun x y => List.Disjoint (f.idsAt x) (f.idsAt y) := ⟨fun _ _ h _ h₁ h₂ => h h₂ h₁⟩
      exact (hdisj.forall hi hj hij (mem hb hinst hr) (mem hc hk hid)).elim
  · exact absurd (mem hb hinst hr)
      (ha j (List.getElem?_eq_some_iff.1 hc).1 hj i hi id (mem hc hk hid))

theorem goesTo_iff {b : Block} {t : Terminator} {i : Nat} (h : b.terminator = some t) :
    goesTo b i = true ↔ i ∈ t.successors := by
  simp [goesTo, h]

/-- Control can get to the start of a block. -/
def Entered (f : Function) (i : Nat) : Prop :=
  f.entry? = some i ∨ ∃ j ∈ f.layout, ∃ b, f.blocks[j]? = some b ∧ goesTo b i = true

theorem block_ok {i : Nat} {b : Block} : f.block i = .ok b ↔ f.blocks[i]? = some b := by
  unfold block
  cases f.blocks[i]? <;> simp

theorem blocksAt_of_exists {is : List Nat} (h : ∀ i ∈ is, ∃ b, f.blocks[i]? = some b) :
    ∃ bs, f.blocksAt is = .ok bs := by
  induction is with
  | nil => exact ⟨[], rfl⟩
  | cons i is ih =>
    obtain ⟨⟨b, hb⟩, h⟩ := List.forall_mem_cons.1 h
    obtain ⟨bs, hbs⟩ := ih h
    refine ⟨(i, b) :: bs, ?_⟩
    rw [blocksAt, block_ok.2 hb, hbs]

/-- The blocks found for a layout are those that it names. -/
theorem mem_blocksAt {is : List Nat} :
    ∀ {bs : List (Nat × Block)}, f.blocksAt is = .ok bs → ∀ {i : Nat} {b : Block},
      (i, b) ∈ bs ↔ i ∈ is ∧ f.blocks[i]? = some b := by
  induction is with
  | nil =>
    intro bs h i b
    cases h
    simp
  | cons j js ih =>
    intro bs h i b
    rw [blocksAt] at h
    cases hc : f.block j with
    | error e =>
      rw [hc] at h
      cases h
    | ok c =>
      cases hr : f.blocksAt js with
      | error e =>
        rw [hc, hr] at h
        cases h
      | ok cs =>
        rw [hc, hr] at h
        cases h
        rw [block_ok] at hc
        rw [List.mem_cons, Prod.mk.injEq, ih hr, List.mem_cons]
        constructor
        · rintro (⟨rfl, rfl⟩ | ⟨hi, hb⟩)
          · exact ⟨.inl rfl, hc⟩
          · exact ⟨.inr hi, hb⟩
        · rintro ⟨rfl | hi, hb⟩
          · exact .inl ⟨rfl, Option.some.inj (hb.symm.trans hc)⟩
          · exact .inr ⟨hi, hb⟩

theorem predecessors_of_exists (h : ∀ i ∈ f.layout, ∃ b, f.blocks[i]? = some b) (target : Nat) :
    ∃ ps, f.predecessors target = .ok ps := by
  obtain ⟨bs, hbs⟩ := blocksAt_of_exists h
  exact ⟨_, by rw [predecessors, hbs]⟩

/-- The predecessors of a block are the blocks of the body that go to it. -/
theorem mem_predecessors {target : Nat} {ps : List Nat} (h : f.predecessors target = .ok ps)
    {i : Nat} :
    i ∈ ps ↔ i ∈ f.layout ∧ ∃ b, f.blocks[i]? = some b ∧ goesTo b target = true := by
  rw [predecessors] at h
  cases hbs : f.blocksAt f.layout with
  | error e =>
    rw [hbs] at h
    cases h
  | ok bs =>
    rw [hbs] at h
    cases h
    simp only [List.mem_map, List.mem_filter, Prod.exists]
    constructor
    · rintro ⟨j, b, ⟨hm, hg⟩, rfl⟩
      obtain ⟨hi, hb⟩ := (mem_blocksAt hbs).1 hm
      exact ⟨hi, b, hb, hg⟩
    · rintro ⟨hi, b, hb, hg⟩
      exact ⟨i, b, ⟨(mem_blocksAt hbs).2 ⟨hi, hb⟩, hg⟩, rfl⟩

end Function

namespace Module

open Checked SlotIR.Function

variable {m : Module} {f : Function}

theorem checkSlots_ok {slots : List Slot} {u : Unit} :
    ∀ {index : Nat}, checkSlots f index slots = .ok u ↔ ∀ s ∈ slots, s.ty.isArithmetic = true := by
  induction slots with
  | nil => simp [checkSlots]
  | cons s ss ih =>
    intro index
    rw [checkSlots, List.forall_mem_cons]
    by_cases h : s.ty.isArithmetic = true <;> simp [h, ih]

/-- Checking the blocks of a layout goes on behind those that pass. -/
theorem checkBlocks_append {is js : List Nat} :
    ∀ {seen : List Nat}, (∀ i ∈ is, ∃ b, f.blocks[i]? = some b ∧ BlockOk m f b) →
      ((is.flatMap f.idsAt).reverse ++ seen).Nodup →
      m.checkBlocks f (is ++ js) seen = m.checkBlocks f js ((is.flatMap f.idsAt).reverse ++ seen) := by
  induction is with
  | nil => simp
  | cons i is ih =>
    intro seen h hn
    obtain ⟨⟨b, hb, hok⟩, h⟩ := List.forall_mem_cons.1 h
    rw [List.flatMap_cons, List.reverse_append, List.append_assoc, idsAt_of_some hb] at hn ⊢
    have hs : ((resultIds b.insts).reverse ++ seen).Nodup := (List.nodup_append.1 hn).2.1
    have hc := (checkBlock_ok (List.nodup_append.1 hs).2.1).2 ⟨hok, hs, rfl⟩
    rw [List.cons_append, checkBlocks, present_ok.2 (block_ok.2 hb)]
    show (m.checkBlock f b seen >>= _) = _
    rw [hc]
    exact ih h hn

theorem checkBlocks_ok {is : List Nat} {u : Unit} :
    ∀ {seen : List Nat}, seen.Nodup → (m.checkBlocks f is seen = .ok u ↔
      (∀ i ∈ is, ∃ b, f.blocks[i]? = some b ∧ BlockOk m f b) ∧
        ((is.flatMap f.idsAt).reverse ++ seen).Nodup) := by
  induction is with
  | nil =>
    intro seen hs
    simp [checkBlocks, hs]
  | cons i is ih =>
    intro seen hs
    constructor
    · intro h
      rw [checkBlocks, bind_ok] at h
      obtain ⟨b, hb, h⟩ := h
      obtain ⟨seen', hc, h⟩ := bind_ok.1 h
      rw [present_ok, block_ok] at hb
      obtain ⟨hok, hn, rfl⟩ := (checkBlock_ok hs).1 hc
      obtain ⟨hrest, hn'⟩ := (ih hn).1 h
      refine ⟨List.forall_mem_cons.2 ⟨⟨b, hb, hok⟩, hrest⟩, ?_⟩
      rw [List.flatMap_cons, List.reverse_append, List.append_assoc, idsAt_of_some hb]
      exact hn'
    · rintro ⟨h, hn⟩
      have e := @checkBlocks_append m f (i :: is) [] seen h hn
      rw [List.append_nil] at e
      rw [e]
      rfl

/-- The rules of a body. -/
structure BodyOk (m : Module) (f : Function) : Prop where
  slots : ∀ s ∈ f.slots, s.ty.isArithmetic = true
  entry : ∀ e, f.entry? = some e → ∀ i ∈ f.layout, ∀ b, f.blocks[i]? = some b →
    goesTo b e = false
  blocks : ∀ i ∈ f.layout, ∃ b, f.blocks[i]? = some b ∧ BlockOk m f b
  ids : (f.layout.flatMap f.idsAt).Nodup

theorem checkEntry_ok {entry : Nat} {u : Unit}
    (h : ∀ i ∈ f.layout, ∃ b, f.blocks[i]? = some b) :
    checkEntry f entry = .ok u ↔
      ∀ i ∈ f.layout, ∀ b, f.blocks[i]? = some b → goesTo b entry = false := by
  obtain ⟨ps, hps⟩ := predecessors_of_exists h entry
  have hm := fun i => @mem_predecessors f entry ps hps i
  unfold checkEntry
  rw [hps]
  show (if ps.isEmpty = true then (pure () : Checked Unit) else _) = _ ↔ _
  by_cases hp : ps = []
  · subst hp
    simp only [List.isEmpty_nil, if_true, pure_ok, true_iff]
    intro i hi b hb
    by_contra hg
    exact List.not_mem_nil ((hm i).2 ⟨hi, b, hb, by simpa using hg⟩)
  · obtain ⟨i, hi⟩ := List.exists_mem_of_ne_nil ps hp
    obtain ⟨hl, b, hb, hg⟩ := (hm i).1 hi
    have hne : ps.isEmpty = false := by simpa using hp
    simp only [hne, Bool.false_eq_true, if_false, violation_ok, false_iff]
    intro h
    rw [h i hl b hb] at hg
    cases hg

/-- Verification of a function decides whether its body, if it has one, obeys the rules. -/
theorem verifyBody_ok {u : Unit} :
    m.verifyBody f = .ok u ↔ (f.layout ≠ [] → BodyOk m f) := by
  unfold verifyBody
  cases hl : f.layout with
  | nil => simp
  | cons entry rest =>
    have he : f.entry? = some entry := by rw [ entry?, hl]; rfl
    simp only [ne_eq, reduceCtorEq, not_false_eq_true, true_imp_iff, bind_ok, exists_const,
      checkSlots_ok, checkBlocks_ok List.nodup_nil, List.append_nil, List.nodup_reverse]
    constructor
    · rintro ⟨hslots, _, hentry, hblocks, hids⟩
      have hex : ∀ i ∈ f.layout, ∃ b, f.blocks[i]? = some b := by
        intro i hi
        rw [hl] at hi
        obtain ⟨b, hb, -⟩ := hblocks i hi
        exact ⟨b, hb⟩
      refine ⟨hslots, fun e h => ?_, by rwa [hl], by rwa [hl]⟩
      cases he.symm.trans h
      exact (checkEntry_ok hex).1 hentry
    · intro h
      have hex : ∀ i ∈ f.layout, ∃ b, f.blocks[i]? = some b := fun i hi =>
        (h.blocks i hi).imp fun b hb => hb.1
      refine ⟨h.slots, (), (checkEntry_ok hex).2 (h.entry entry he), ?_, ?_⟩
      · have := h.blocks
        rwa [hl] at this
      · have := h.ids
        rwa [hl] at this

theorem checkBlock_open {b : Block} {seen : List Nat} (hs : seen.Nodup)
    (hinsts : InstsTyped m f [] b.insts) (hn : ((resultIds b.insts).reverse ++ seen).Nodup)
    (ho : b.terminator = none) :
    m.checkBlock f b seen = violation (.missingTerminator f.name b.name) := by
  have hi := (@checkInsts_ok m f b b.insts _ [] _ _ hs).2 ⟨hinsts, hn, rfl, rfl⟩
  unfold checkBlock
  rw [hi, ho]
  rfl

/-- A body whose last block is open but obeys all other rules fails there. -/
theorem verifyBody_open {done : List Nat} {last : Nat} {b : Block}
    (hl : f.layout = done ++ [last]) (hb : f.blocks[last]? = some b) (ho : b.terminator = none)
    (hslots : ∀ s ∈ f.slots, s.ty.isArithmetic = true)
    (hentry : ∀ e, f.entry? = some e → ∀ i ∈ f.layout, ∀ b, f.blocks[i]? = some b →
      goesTo b e = false)
    (hdone : ∀ i ∈ done, ∃ b, f.blocks[i]? = some b ∧ BlockOk m f b)
    (hinsts : InstsTyped m f [] b.insts) (hids : (f.layout.flatMap f.idsAt).Nodup) :
    m.verifyBody f = violation (.missingTerminator f.name b.name) := by
  obtain ⟨entry, rest, he⟩ : ∃ entry rest, f.layout = entry :: rest := by
    cases h : f.layout with
    | nil => simp [h] at hl
    | cons entry rest => exact ⟨entry, rest, rfl⟩
  have hex : ∀ i ∈ f.layout, ∃ b, f.blocks[i]? = some b := by
    intro i hi
    rw [hl, List.mem_append, List.mem_singleton] at hi
    rcases hi with hi | rfl
    · exact (hdone i hi).imp fun b h => h.1
    · exact ⟨b, hb⟩
  have hslots' : checkSlots f 0 f.slots = .ok () := checkSlots_ok.2 hslots
  have hentry' : checkEntry f entry = .ok () :=
    (checkEntry_ok hex).2 (hentry entry (by rw [ entry?, he]; rfl))
  rw [hl, List.flatMap_append, List.flatMap_singleton, idsAt_of_some hb] at hids
  have hn : ((done.flatMap f.idsAt).reverse ++ []).Nodup := by
    rw [List.append_nil, List.nodup_reverse]
    exact (List.nodup_append.1 hids).1
  have hn' : ((resultIds b.insts).reverse ++ ((done.flatMap f.idsAt).reverse ++ [])).Nodup := by
    rw [List.append_nil, ← List.reverse_append, List.nodup_reverse]
    exact hids
  unfold verifyBody
  rw [he]
  show (checkSlots f 0 f.slots >>= fun _ => checkEntry f entry >>= fun _ =>
    m.checkBlocks f (entry :: rest) []) = _
  rw [hslots', ← he, hl]
  show (checkEntry f entry >>= fun _ => _) = _
  rw [hentry']
  show m.checkBlocks f (done ++ [last]) [] = _
  rw [checkBlocks_append hdone hn, checkBlocks, present_ok.2 (block_ok.2 hb)]
  show (m.checkBlock f b _ >>= fun seen => _) = _
  rw [checkBlock_open hn hinsts hn' ho]
  rfl

/-! ## Modules -/

theorem verifyGlobals_ok {gs : List Global} :
    ∀ {names names' : List String}, names.Nodup → (verifyGlobals gs names = .ok names' ↔
      (∀ g ∈ gs, g.init.ty = g.ty) ∧ ((gs.map (·.name)).reverse ++ names).Nodup ∧
        names' = (gs.map (·.name)).reverse ++ names) := by
  induction gs with
  | nil =>
    intro names names' hn
    simp [verifyGlobals, hn, eq_comm]
  | cons g gs ih =>
    intro names names' hn
    simp only [verifyGlobals, guard_ok, List.forall_mem_cons, List.map_cons, List.reverse_cons,
      List.append_assoc, List.singleton_append, List.contains_eq_mem, decide_eq_true_eq, not_not]
    constructor
    · rintro ⟨hm, hg, h⟩
      obtain ⟨hgs, hnd, rfl⟩ := (ih (List.nodup_cons.2 ⟨hm, hn⟩)).1 h
      exact ⟨⟨hg, hgs⟩, hnd, rfl⟩
    · rintro ⟨⟨hg, hgs⟩, hnd, rfl⟩
      have hm : g.name ∉ names := (List.nodup_cons.1 (List.nodup_append.1 hnd).2.1).1
      exact ⟨hm, hg, (ih (List.nodup_cons.2 ⟨hm, hn⟩)).2 ⟨hgs, hnd, rfl⟩⟩

theorem verifyFunctions_ok {fs : List Function} {u : Unit} :
    ∀ {index : Nat} {names : List String}, names.Nodup →
      (m.verifyFunctions index fs names = .ok u ↔
        (∀ f ∈ fs, m.verifyBody f = .ok ()) ∧ ((fs.map (·.name)).reverse ++ names).Nodup ∧
          ∀ (j : Nat) (f : Function), fs[j]? = some f → m.functionIndex? f.name = some (index + j)) := by
  induction fs with
  | nil =>
    intro index names hn
    simp [verifyFunctions, hn]
  | cons f fs ih =>
    intro index names hn
    simp only [verifyFunctions, guard_ok, List.forall_mem_cons, List.map_cons, List.reverse_cons,
      List.append_assoc, List.singleton_append, List.contains_eq_mem, decide_eq_true_eq, not_or,
      not_not, bind_ok]
    constructor
    · rintro ⟨⟨hm, hi⟩, _, hf, h⟩
      obtain ⟨hfs, hnd, hidx⟩ := (ih (List.nodup_cons.2 ⟨hm, hn⟩)).1 h
      refine ⟨⟨hf, hfs⟩, hnd, fun j g hg => ?_⟩
      cases j with
      | zero =>
        cases hg
        exact hi
      | succ j =>
        rw [hidx j g hg]
        congr 1
        omega
    · rintro ⟨⟨hf, hfs⟩, hnd, hidx⟩
      have hm : f.name ∉ names := (List.nodup_cons.1 (List.nodup_append.1 hnd).2.1).1
      refine ⟨⟨hm, hidx 0 f rfl⟩, (), hf, (ih (List.nodup_cons.2 ⟨hm, hn⟩)).2 ⟨hfs, hnd, ?_⟩⟩
      intro j g hg
      rw [hidx (j + 1) g hg]
      congr 1
      omega

/-- Every function is found under its name. This does not say that every name in the table leads to a
function. -/
def FindsFunctions (m : Module) : Prop :=
  ∀ (i : Nat) (f : Function), m.functions[i]? = some f → m.functionIndex? f.name = some i

/-- Verification of a module decides whether globals hold values of their types, all names are
distinct, functions are found under their names, and every body obeys the rules. -/
theorem verify_ok {u : Unit} :
    m.verify = .ok u ↔ (∀ g ∈ m.globals, g.init.ty = g.ty) ∧
      (m.globals.map (·.name) ++ m.functions.map (·.name)).Nodup ∧ m.FindsFunctions ∧
      ∀ f ∈ m.functions, m.verifyBody f = .ok () := by
  unfold verify
  rw [bind_ok]
  constructor
  · rintro ⟨names, hg, hf⟩
    obtain ⟨hty, hn, rfl⟩ := (verifyGlobals_ok List.nodup_nil).1 hg
    obtain ⟨hfs, hnd, hfinds⟩ := (verifyFunctions_ok hn).1 hf
    rw [List.append_nil, ← List.reverse_append, List.nodup_reverse] at hnd
    refine ⟨hty, hnd, fun i f hi => ?_, hfs⟩
    rw [hfinds i f hi, Nat.zero_add]
  · rintro ⟨hty, hnd, hfinds, hfs⟩
    have hnd' := List.nodup_reverse.2 hnd
    rw [List.reverse_append, ← List.append_nil (m.globals.map _).reverse] at hnd'
    have hn := (List.nodup_append.1 hnd').2.1
    refine ⟨_, (verifyGlobals_ok List.nodup_nil).2 ⟨hty, hn, rfl⟩, ?_⟩
    refine (verifyFunctions_ok hn).2 ⟨hfs, hnd', fun j f hf => ?_⟩
    rw [Nat.zero_add]
    exact hfinds j f hf

end Module

end SlotIR
