import SlotIR.Proofs.Conversions
import SlotIR.Proofs.Layout
import SlotIR.Proofs.Preservation

/-!
# Conditions test for non-zero

A condition is tested as a float, whatever its type. No integer other than zero is rounded to zero, so
the test is whether the value differs from zero; a float also has to be a number (`Scalar.isNonzero`).
This is what the code of every condition computes (`lowerCondition_writes`). In generated code it
decides between the arms of a conditional: each conditional of a body ends a block behind the code of
its condition, and control goes to the block that its first arm begins if the value is not zero, and to
a block that does not lead there otherwise (`Function.Tests`).
-/

namespace SlotIR

open Syntax (Node)
open Machine Builder

/-! ## Values -/

/-- Whether a value differs from zero. A NaN does not count as different. -/
def Scalar.isNonzero : Scalar → Bool
  | .bool b => b
  | .char c => c != 0
  | .int i => i != 0
  | .float x => !x.isNaN && x != .zero false && x != .zero true

namespace Binary32

theorem Nearest.isNaN {negative : Bool} {v : ℚ} {x : Binary32} (h : Nearest negative v x) :
    x.isNaN = false := by
  have hle : x.magnitude.val ≤ infinityMagnitude := by
    rcases lt_or_ge v overflowValue with hv | hv
    · exact (of_decide_eq_true (h.finite hv)).le
    · exact (beq_iff_eq.1 (h.infinite hv)).le
  exact decide_eq_false (not_lt.2 hle)

/-- Only zero is rounded to zero. -/
theorem ofInt_magnitude_eq_zero (i : ℤ) : (ofInt i).magnitude.val = 0 ↔ i = 0 := by
  refine ⟨fun h => ?_, fun h => by rw [h]; rfl⟩
  by_contra hi
  have hnear := ofInt_nearest i
  obtain ⟨one, hone, hvalue⟩ := exists_absValue (n := 1) (by norm_num)
  have hge : one.absValue ≤ (i.natAbs : ℚ) := by
    rw [hvalue]
    exact_mod_cast Int.natAbs_pos.2 hi
  rcases lt_or_ge (i.natAbs : ℚ) overflowValue with hv | hv
  · exact hnear.magnitude_ne_zero hone (by rw [hvalue]; norm_num) hge hv h
  · have hinf := beq_iff_eq.1 (hnear.infinite hv)
    rw [h] at hinf
    cases hinf

theorem eq_zero_iff (x : Binary32) : x = .zero x.negative ↔ x.magnitude.val = 0 := by
  refine ⟨fun h => by rw [h]; rfl, fun h => ?_⟩
  rcases x with ⟨s, m⟩
  exact congrArg (Binary32.mk s) (Fin.ext h)

theorem lessOrGreater_zero_iff (x : Binary32) :
    x.lessOrGreater (.zero false) = (Scalar.float x).isNonzero := by
  rw [lessOrGreater_zero, Scalar.isNonzero, Bool.and_assoc]
  congr 1
  have h := eq_zero_iff x
  cases hs : x.negative with
  | false =>
    have hne : x ≠ .zero true := fun e => by simp [e, zero] at hs
    rw [hs] at h
    rw [Bool.eq_iff_iff]
    simp [hne, h]
  | true =>
    have hne : x ≠ .zero false := fun e => by simp [e, zero] at hs
    rw [hs] at h
    rw [Bool.eq_iff_iff]
    simp [hne, h]

theorem lessOrGreater_ofInt (i : ℤ) : (ofInt i).lessOrGreater (.zero false) = (i != 0) := by
  rw [lessOrGreater_zero, (ofInt_nearest i).isNaN, Bool.not_false, Bool.true_and, Bool.eq_iff_iff,
    bne_iff_ne, bne_iff_ne]
  exact not_congr (ofInt_magnitude_eq_zero i)

end Binary32

namespace Lowering

/-! ## The code of a condition -/

section writes

variable {b : Builder} (hb : b.CanWrite)
include hb

theorem compare_writes (u : Value) :
    ∃ w b' is, Writes (compare u (.const (.float (.zero false)))) b w b' is ∧
      ∀ p, Computes is u.operand (.float p) w.operand (.bool (p.lessOrGreater (.zero false))) := by
  obtain ⟨id, b', hwrites⟩ := pushInst_writes hb (show Ty.bool ≠ .void by simp)
    (.compare u.operand (.const (.float (.zero false))))
  exact ⟨_, b', _, hwrites, fun p => .compare⟩

/-- An integer is made a float before it is compared. -/
theorem castCompare_writes {v : Value} {op : CastOp}
    (hop : ∀ x : Scalar, x.ty = v.ty → ∃ i : ℤ, op.apply x .float = .ok (.float (.ofInt i)) ∧
      x.isNonzero = (i != 0)) :
    ∃ w b' is, Writes (cast op v .float >>= fun x => compare x (.const (.float (.zero false))))
        b w b' is ∧
      ∀ x, x.ty = v.ty → Computes is v.operand x w.operand (.bool x.isNonzero) := by
  obtain ⟨id, b₁, hcast⟩ := pushInst_writes hb (show Ty.float ≠ .void by simp)
    (.cast op v.operand)
  obtain ⟨w, b₂, is, hcompare, hrun⟩ := compare_writes hcast.stays ⟨.temp id, .float⟩
  refine ⟨w, b₂, _, hcast.bind hcompare, fun x hx => ?_⟩
  obtain ⟨i, happly, hzero⟩ := hop x hx
  rw [hzero, ← Binary32.lessOrGreater_ofInt]
  exact (Computes.cast happly).trans (hrun _)

/-- The code of a condition computes whether the value differs from zero. -/
theorem lowerCondition_writes {v : Value} (hv : v.ty.isArithmetic = true)
    (span : Option Syntax.Span) :
    ∃ w b' is, Writes (lowerCondition v span) b w b' is ∧
      ∀ x, x.ty = v.ty → Computes is v.operand x w.operand (.bool x.isNonzero) := by
  obtain ⟨o, ty⟩ := v
  cases ty with
  | int =>
    refine castCompare_writes hb (v := ⟨o, .int⟩) fun x hx => ?_
    cases x with
    | int i =>
      refine ⟨i.toInt, rfl, ?_⟩
      rw [Scalar.isNonzero, Bool.eq_iff_iff, bne_iff_ne, bne_iff_ne]
      exact not_congr Int32.toInt_inj.symm
    | _ => cases hx
  | char =>
    refine castCompare_writes hb (v := ⟨o, .char⟩) fun x hx => ?_
    cases x with
    | char c =>
      refine ⟨c.toNat, rfl, ?_⟩
      rw [Scalar.isNonzero, Bool.eq_iff_iff, bne_iff_ne, bne_iff_ne]
      exact not_congr (UInt8.toNat_inj.symm.trans Int.natCast_inj.symm)
    | _ => cases hx
  | float =>
    obtain ⟨w, b', is, hwrites, hrun⟩ := compare_writes hb ⟨o, .float⟩
    refine ⟨w, b', is, hwrites, fun x hx => ?_⟩
    cases x with
    | float p => exact Binary32.lessOrGreater_zero_iff p ▸ hrun p
    | _ => cases hx
  | _ => cases hv

end writes

/-! ## Conditionals of a body -/

/-- The code of the node was written from the place of `d` to the place of `d'`, and it stands in the
function `f`. -/
def StandsIn (f : Function) (n : Node) (d : Draft) (r : Lowered) (d' : Draft) : Prop :=
  (∃ h scope, Emits h n scope d r d') ∧ d'.function.Extends f

end Lowering

open Lowering

/-- The test of a conditional `n`: block `i` holds the code `pre` that ends with the value `v` of the
condition and then the code `test`, whose result chooses between `onTrue`, where the first arm begins,
and `onFalse`, from where control does not come to the first arm. -/
structure Function.Tests (f : Function) (n : Node) (i : Nat) (pre test : List Inst) (v : Value)
    (onTrue onFalse : Nat) : Prop where
  attached : i ∈ f.layout
  arithmetic : v.ty.isArithmetic = true
  block : ∃ b cond, f.blocks[i]? = some b ∧ b.insts = pre ++ test ∧
    b.terminator = some (.branch cond onTrue onFalse) ∧
    ∀ x, x.ty = v.ty → Computes test v.operand x cond (.bool x.isNonzero)
  value : ∃ condition d d', n.nth? 0 = some condition ∧ StandsIn f condition d (.value v) d' ∧
    d'.reopen.block = i ∧ d'.reopen.offset = pre.length
  arm : ∃ arm d r d', n.nth? 1 = some arm ∧ StandsIn f arm d r d' ∧ d.block = onTrue ∧ d.offset = 0
  apart : ¬ Relation.ReflTransGen f.Edge onFalse onTrue

/-- A node among the statements of another one: those of blocks, and those of arms. -/
inductive Source.Statement (n : Node) : Node → Prop
  | here : Source.Statement n n
  | sequence {outer inner : Node} (kind : outer.kind.isSequence = true)
    (mem : inner ∈ outer.children) (below : Source.Statement n inner) : Source.Statement n outer
  | wrapper {outer inner : Node} (kind : outer.kind = .expression)
    (children : outer.children = [inner]) (below : Source.Statement n inner) :
    Source.Statement n outer
  | arm {outer inner : Node} (kind : outer.kind = .ifElseStatement)
    (child : outer.nth? 1 = some inner ∨ outer.nth? 2 = some inner)
    (below : Source.Statement n inner) : Source.Statement n outer

namespace Lowering

section drafts

variable {k : Nat} {pend : List Nat} {d d' : Draft} {v : Value} {cond : Operand} {f : Function}

theorem canWrite_builder (hp : d.Placed k) : (d.builder k).CanWrite :=
  ⟨_, _, _, rfl, Draft.getElem?_put hp.index, List.getElem?_eq_getElem hp.block⟩

/-- The code at the cursor is that of the block that takes the next instruction. -/
theorem code_builder (hp : d.Placed k) : ∃ blk,
    d.reopen.function.blocks[d.reopen.block]? = some blk ∧ blk.insts = (d.builder k).code := by
  obtain ⟨c, g, blk, b', hopen, -, hg, hblk, -, hcode⟩ :=
    openBlock_of_canWrite (canWrite_builder hp)
  rw [Draft.openBlock_builder hp] at hopen
  cases hopen
  obtain rfl := Option.some.inj ((Draft.getElem?_put hp.reopen.index).symm.trans hg)
  exact ⟨blk, hblk, hcode⟩

theorem conditionIn_block (h : conditionIn d v = some (cond, d')) : d'.block = d.reopen.block := by
  obtain ⟨⟨x, d₁⟩, hc, e⟩ := Option.map_eq_some_iff.1 h
  cases e
  unfold convertIn at hc
  split at hc
  · cases hc
    rfl
  · obtain ⟨op, -, e⟩ := Option.map_eq_some_iff.1 hc
    cases e
    show (d.emit .float (.cast op v.operand)).reopen.block = _
    rw [Draft.reopen_of_open Draft.emit_open]
    rfl

theorem conditionIn_arithmetic (h : conditionIn d v = some (cond, d')) :
    v.ty.isArithmetic = true := by
  obtain ⟨⟨x, d₁⟩, hc, -⟩ := Option.map_eq_some_iff.1 h
  unfold convertIn at hc
  split at hc
  · rename_i e
    rw [e]
    rfl
  · obtain ⟨op, hop, -⟩ := Option.map_eq_some_iff.1 hc
    cases ht : v.ty with
    | char | int | float => rfl
    | _ =>
      rw [ht] at hop
      cases hop

/-- The code of a test goes behind the code of the value. -/
theorem conditionIn_tests (hi : d.Inv k pend)
    (hv : d.module.Uses d.function d.defined v.operand v.ty)
    (h : conditionIn d v = some (cond, d')) :
    ∃ test, (d'.builder k).code = (d.builder k).code ++ test ∧
      ∀ x, x.ty = v.ty → Computes test v.operand x cond (.bool x.isNonzero) := by
  obtain ⟨w, b', test, hwrites, hrun⟩ :=
    lowerCondition_writes (canWrite_builder (placed_of_inv hi)) (conditionIn_arithmetic h) none
  have hsteps : Steps k (lowerCondition v none (d.builder k)) _ := lowerCondition_steps hi hv
  rw [Steps, hwrites.yields] at hsteps
  obtain ⟨d₁, rfl, hd₁⟩ := hsteps
  cases h.symm.trans hd₁
  exact ⟨test, hwrites.appends, hrun⟩

section fork

variable {names : List String}

/-- The block that was tested in ends with the branch. -/
theorem fork_block {blk : Block} (ho : d.function.closedAt d.block = false)
    (hb : d.function.blocks[d.block]? = some blk) (he : (d.fork cond names).function.Extends f) :
    f.blocks[d.block]? = some { blk with
      terminator := some (.branch cond d.function.blocks.length (d.function.blocks.length + 1)) } := by
  have hfork : (d.fork cond names).function.blocks[d.block]? = some { blk with
      terminator :=
        some (.branch cond d.function.blocks.length (d.function.blocks.length + 1)) } := by
    show ((d.addBlocks ("then" :: names)).close _).function.blocks[d.block]? = _
    rw [Draft.close_of_open (Draft.addBlocks_open ho)]
    exact Function.getElem?_close_self (Draft.getElem?_addBlocks hb)
  obtain ⟨blk', hblk', -, hsame⟩ := he.blocks _ _ hfork
  rw [hblk', hsame (by simp)]

/-- The other way out of a branch comes later in the layout, so it does not lead back. -/
theorem fork_apart (hi : (d.fork cond names).Inv k
      (List.range' (d.function.blocks.length + 1) names.length ++ pend)) (hn : names ≠ [])
    (he : (d.fork cond names).function.Extends f) (hl : f.LaidOut) :
    ¬ Relation.ReflTransGen f.Edge (d.function.blocks.length + 1) d.function.blocks.length := by
  have hlater : ∀ {i j : Nat}, Relation.ReflTransGen f.Edge i j →
      f.layout.idxOf i ≤ f.layout.idxOf j := by
    intro i j hpath
    induction hpath with
    | refl => exact Nat.le_refl _
    | tail _ hedge ih => exact ih.trans (hl.forward _ _ hedge).2.le
  have hmem : d.function.blocks.length ∈ (d.fork cond names).function.layout := hi.shape.cur_mem
  have hnot : d.function.blocks.length + 1 ∉ (d.fork cond names).function.layout := by
    refine hi.shape.not_layout (List.mem_append_left _ (List.mem_range'_1.2 ⟨Nat.le_refl _, ?_⟩))
    have := List.length_pos_iff.2 hn
    omega
  intro hpath
  have hle := hlater hpath
  obtain ⟨rest, hrest⟩ := he.layout
  rw [← hrest, List.idxOf_append_of_mem hmem, List.idxOf_append_of_notMem hnot] at hle
  have hlt := List.idxOf_lt_length_of_mem hmem
  omega

end fork

end drafts

/-! ### Where the arms stand -/

section parts

variable {sub : Emission} {scope : ScopeId} {n : Node} {r : Lowered} {k : Nat} {pend : List Nat}
  {locals globals : List (String × Value)} {d d' : Draft}

theorem emitsNode_sequence (hk : n.kind.isSequence = true) (h : EmitsNode sub scope n d r d') :
    EmitsAll sub scope n.children d d' := by
  cases h with
  | sequence kind all => exact all
  | literal reads =>
    unfold Node.literal? at reads
    cases hkind : n.kind <;> simp [hkind, Syntax.Kind.isSequence] at reads hk
  | wrapper kind | identifier kind | declaration kind | ifThen kind | ifElse kind
  | returnNothing kind | returnValue kind | assignment kind | call kind =>
    rw [kind] at hk
    cases hk

theorem emitsNode_wrapper {inner : Node} (hk : n.kind = .expression) (hc : n.children = [inner])
    (h : EmitsNode sub scope n d r d') : sub inner scope d r d' := by
  cases h with
  | wrapper kind children body =>
    cases hc.symm.trans children
    exact body
  | sequence kind =>
    rw [hk] at kind
    cases kind
  | literal reads => simp [Node.literal?, hk] at reads
  | identifier kind | declaration kind | ifThen kind | ifElse kind
  | returnNothing kind | returnValue kind | assignment kind | call kind =>
    cases hk.symm.trans kind

/-- A conditional begins with its condition, the test and the first arm. Its second arm, if it has
one, comes later. -/
theorem emitsNode_conditional (hsub : Preserves sub) (hk : n.kind = .ifElseStatement)
    (h : EmitsNode sub scope n d r d') (hi : d.Inv k pend) (hs : d.Scoped scope locals globals) :
    (∃ condNode thenNode v cond d₁ d₂ names merge d₃, n.nth? 0 = some condNode ∧
      n.nth? 1 = some thenNode ∧ sub condNode scope d (.value v) d₁ ∧
      conditionIn d₁ v = some (cond, d₂) ∧ names ≠ [] ∧
      EmitsArm sub scope thenNode merge (d₂.fork cond names) d₃ ∧
      merge ∈ List.range' (d₂.function.blocks.length + 1) names.length ∧
      d₃.function.Extends d'.function) ∧
    ∀ elseNode, n.nth? 2 = some elseNode → ∃ pend' e merge e', e.Inv k pend' ∧
      e.Scoped scope locals globals ∧ EmitsArm sub scope elseNode merge e e' ∧
      e'.function.Extends d'.function := by
  cases h with
  | ifThen kind first second third value test arm =>
    refine ⟨⟨_, _, _, _, _, _, ["merge"], _, _, first, second, value, test, by simp, arm, by simp,
      Draft.Extends.moveTo.function⟩, fun elseNode he => ?_⟩
    cases third.symm.trans he
  | @ifElse _ _ _ _ _ _ d₂ d₃ d₄ kind first second third value test arm other =>
    have hf := fork_preserves hsub value test (List.cons_ne_nil "else" ["merge"]) hi hs
    obtain ⟨hc, hclosed⟩ := emitsArm_preserves hsub arm (by simp) hf.inv hf.visible
    have hthen := hc.moveTo hclosed
    obtain ⟨hc', -⟩ := emitsArm_preserves hsub other (by simp) hthen.inv hthen.visible
    have hlater := (Draft.Extends.moveTo (i := d₂.function.blocks.length + 1)).function.trans
      hc'.grows.function
    refine ⟨⟨_, _, _, _, _, _, ["else", "merge"], _, _, first, second, value, test, by simp, arm,
      by simp, hlater.trans Draft.Extends.moveTo.function⟩, fun elseNode he => ?_⟩
    cases third.symm.trans he
    exact ⟨_, _, _, _, hthen.inv, hthen.visible, other, Draft.Extends.moveTo.function⟩
  | sequence kind =>
    rw [hk] at kind
    cases kind
  | literal reads => simp [Node.literal?, hk] at reads
  | wrapper kind | identifier kind | declaration kind
  | returnNothing kind | returnValue kind | assignment kind | call kind =>
    cases hk.symm.trans kind

theorem emitsArm_body {arm : Node} {merge : Nat} (h : EmitsArm sub scope arm merge d d') :
    ∃ r e, sub arm d.scopes.opened (d.enter scope) r e ∧ e.function.Extends d'.function := by
  cases h with
  | @arm r e body =>
    exact ⟨r, e, body, (Draft.Extends.fallThrough (d := e.leave d.scopes.opened) merge).function⟩

/-- Every node of a sequence is written somewhere in it. -/
theorem emitsAll_mem (hsub : Preserves sub) {ns : List Node} (h : EmitsAll sub scope ns d d')
    (hn : n ∈ ns) : ∀ {locals : List (String × Value)}, d.Inv k pend →
      d.Scoped scope locals globals → ∃ locals' e r e', e.Inv k pend ∧
        e.Scoped scope locals' globals ∧ sub n scope e r e' ∧ e'.function.Extends d'.function := by
  induction h with
  | nil => cases hn
  | @cons n' ns' r d d₁ d' head tail ih =>
    intro locals hi hs
    obtain ⟨new, hc, -⟩ := hsub.step head hi hs
    rcases List.mem_cons.1 hn with rfl | hn
    · obtain ⟨new', hc'⟩ := emitsAll_preserves hsub tail hc.inv hc.visible
      exact ⟨locals, d, r, d₁, hi, hs, head, hc'.grows.function⟩
    · exact ih hn hc.inv hc.visible

end parts

section tests

variable {k : Nat} {pend : List Nat} {scope : ScopeId} {locals globals : List (String × Value)}
  {d d' : Draft} {n : Node} {f : Function} {h : Nat} {r : Lowered}

/-- The code of a conditional tests its condition. -/
theorem conditional_tests (hk : n.kind = .ifElseStatement) (he : Emits (h + 1) n scope d r d')
    (hi : d.Inv k pend) (hs : d.Scoped scope locals globals) (hf : d'.function.Extends f)
    (hl : f.LaidOut) : ∃ i pre test v onTrue onFalse, f.Tests n i pre test v onTrue onFalse := by
  have hsub := emits_preserves h
  obtain ⟨condNode, thenNode, v, cond, d₁, d₂, names, merge, d₃, first, second, value, test, hn, arm,
    hmerge, hd₃⟩ := (emitsNode_conditional hsub hk he hi hs).1
  obtain ⟨new, hc₁, -, hv, -⟩ := hsub.step value hi hs
  obtain ⟨hi₂, -, -, hcond, ho⟩ := conditionIn_uses hc₁.inv hv test
  have hfork := fork_preserves hsub value test hn hi hs
  obtain ⟨hc₃, -⟩ := emitsArm_preserves hsub arm (List.mem_append_left _ hmerge) hfork.inv
    hfork.visible
  have hstays := hc₃.grows.function.trans (hd₃.trans hf)
  obtain ⟨code, happend, hrun⟩ := conditionIn_tests hc₁.inv hv test
  obtain ⟨blk, hblk, hcode⟩ := code_builder (placed_of_inv hi₂)
  obtain ⟨blk₁, hblk₁, hcode₁⟩ := code_builder (placed_of_inv hc₁.inv)
  rw [Draft.reopen_of_open ho] at hblk
  have hblock := conditionIn_block test
  obtain ⟨r', e, body, hbody⟩ := emitsArm_body arm
  obtain ⟨name, hwaits⟩ := (hi₂.branch ho hcond hn).shape.waiting d₂.function.blocks.length (by simp)
  refine ⟨d₂.block, (d₁.builder k).code, code, v, d₂.function.blocks.length,
    d₂.function.blocks.length + 1, ?_⟩
  constructor
  · exact (Draft.Extends.fork.function.trans hstays).layout.subset hi₂.shape.cur_mem
  · exact conditionIn_arithmetic test
  · exact ⟨_, cond, fork_block ho hblk hstays, by rw [← happend, ← hcode], rfl, hrun⟩
  · refine ⟨condNode, d, d₁, first, ⟨⟨h, scope, value⟩, ?_⟩, hblock.symm, ?_⟩
    · exact (conditionIn_uses hc₁.inv hv test).2.1.function.trans
        (Draft.Extends.fork.function.trans hstays)
    · rw [Draft.offset_of_some hblk₁, hcode₁]
  · exact ⟨thenNode, _, r', e, second, ⟨⟨h, _, body⟩, hbody.trans (hd₃.trans hf)⟩, rfl,
      Draft.offset_of_some (d := (d₂.fork cond names).enter scope) hwaits⟩
  · exact fork_apart hfork.inv hn hstays hl

/-- Wherever a conditional stands among the statements of a node, its code tests its condition. -/
theorem statement_tests (hk : n.kind = .ifElseStatement) {outer : Node}
    (hn : Source.Statement n outer) (hl : f.LaidOut) :
    ∀ {h k : Nat} {pend : List Nat} {scope : ScopeId} {locals globals : List (String × Value)}
      {d d' : Draft} {r : Lowered}, Emits h outer scope d r d' → d.Inv k pend →
      d.Scoped scope locals globals → d'.function.Extends f →
      ∃ i pre test v onTrue onFalse, f.Tests n i pre test v onTrue onFalse := by
  induction hn with
  | here =>
    intro h k pend scope locals globals d d' r he hi hs hf
    cases h with
    | zero => exact he.elim
    | succ h => exact conditional_tests hk he hi hs hf hl
  | sequence kind mem _ ih =>
    intro h k pend scope locals globals d d' r he hi hs hf
    cases h with
    | zero => exact he.elim
    | succ h =>
      obtain ⟨locals', e, r', e', hi', hs', he', hf'⟩ :=
        emitsAll_mem (emits_preserves h) (emitsNode_sequence kind he) mem hi hs
      exact ih he' hi' hs' (hf'.trans hf)
  | wrapper kind children _ ih =>
    intro h k pend scope locals globals d d' r he hi hs hf
    cases h with
    | zero => exact he.elim
    | succ h => exact ih (emitsNode_wrapper kind children he) hi hs hf
  | arm kind child _ ih =>
    intro h k pend scope locals globals d d' r he hi hs hf
    cases h with
    | zero => exact he.elim
    | succ h =>
      have hsub := emits_preserves h
      obtain ⟨⟨_, _, _, _, _, _, _, _, _, -, second, value, test, hne, arm, -, hd₃⟩, other⟩ :=
        emitsNode_conditional hsub kind he hi hs
      rcases child with child | child
      · cases second.symm.trans child
        have hfork := fork_preserves hsub value test hne hi hs
        obtain ⟨r', e, body, hbody⟩ := emitsArm_body arm
        exact ih body (hfork.inv.rescope _) hfork.visible.enter (hbody.trans (hd₃.trans hf))
      · obtain ⟨pend', e, merge, e', hi', hs', arm', hf'⟩ := other _ child
        obtain ⟨r', e₁, body, hbody⟩ := emitsArm_body arm'
        exact ih body (hi'.rescope _) hs'.enter (hbody.trans (hf'.trans hf))

theorem Compiled.tests {m : Module} {def_ : Source.Definition} (hc : Compiled m f def_)
    (hk : n.kind = .ifElseStatement) (hn : Source.Statement n def_.body) :
    ∃ i pre test v onTrue onFalse, f.Tests n i pre test v onTrue onFalse := by
  cases hc with
  | @intro h k scope file g params body d opens built same finished grows =>
    subst same
    cases built with
    | @body d₁ d₂ d₃ r spills emits closes =>
      obtain ⟨new, hspilled⟩ := opens.spills_continues spills
      have hclose : d₂.function.Extends d.function := by
        cases closes with
        | closed | live => exact .refl _
        | void | dead => exact Draft.Extends.close.function
      exact statement_tests hk hn finished.laidOut emits hspilled.inv hspilled.visible hclose

end tests

end Lowering

/-- A run that comes to the test of a conditional with a value of the condition goes on at the first arm
if the value is not zero, and at the other block if it is. -/
theorem Function.Tests.run {f : Function} {n : Node} {i onTrue onFalse : Nat}
    {pre test : List Inst} {v : Value} (h : f.Tests n i pre test v onTrue onFalse) (m : Module)
    (steps : Nat) {fr fr' : Frame} {s s' : Machine} {x : Scalar}
    (hpre : runInsts (callWith (runFrom m steps) m) f pre fr s = .ok fr' s')
    (hx : fr'.operand v.operand = .ok x) (hty : x.ty = v.ty) :
    ∃ temps, runFrom m (steps + 1) f fr i s =
      runFrom m steps f { fr' with temps } (if x.isNonzero then onTrue else onFalse) s' := by
  obtain ⟨b, cond, hb, hinsts, hterm, hrun⟩ := h.block
  obtain ⟨temps, htest, hcond⟩ := hrun x hty (callWith (runFrom m steps) m) f fr' s' hx
  refine ⟨temps, ?_⟩
  have hall : runInsts (callWith (runFrom m steps) m) f (pre ++ test) fr s =
      .ok { fr' with temps } s' := by
    rw [runInsts_append, bind_of_ok hpre, htest]
  rw [runFrom_succ m steps f fr hb, hinsts, hterm, bind_of_ok hall, finish_of_branch hcond]

/-- Conditions test for non-zero. Wherever the condition of an arithmetic value is lowered, the code
that is written for it computes from every value of the type whether it differs from zero. For every
conditional of a generated function, control goes on at its first arm if its condition had such a
value, and otherwise at a block from where it never comes there. -/
theorem conditions_test_nonzero :
    (∀ (b : Builder) (v : Value) (span : Option Syntax.Span), b.CanWrite →
      v.ty.isArithmetic = true → ∃ w b' is, Writes (lowerCondition v span) b w b' is ∧
        ∀ x, x.ty = v.ty → Computes is v.operand x w.operand (.bool x.isNonzero)) ∧
    ∀ (name : String) (root : Node) (m : Module), generate name root = .ok m →
      ∀ f ∈ m.functions, ∀ def_, (Source.Program.ofTree root).definition? f.name = some def_ →
      ∀ n : Node, n.kind = .ifElseStatement → Source.Statement n def_.body →
        ∃ i pre test v onTrue onFalse, f.Tests n i pre test v onTrue onFalse ∧
          ∀ (steps : Nat) (fr fr' : Frame) (s s' : Machine) (x : Scalar),
            runInsts (callWith (runFrom m steps) m) f pre fr s = .ok fr' s' →
            fr'.operand v.operand = .ok x → x.ty = v.ty →
            ∃ temps, runFrom m (steps + 1) f fr i s =
              runFrom m steps f { fr' with temps } (if x.isNonzero then onTrue else onFalse) s' := by
  refine ⟨fun b v span hb hv => lowerCondition_writes hb hv span, ?_⟩
  intro name root m hm f hf def_ hd n hk hn
  obtain ⟨file, rfl, hbuilt, -⟩ := generate_ok hm
  have hreflects := buildsAll_reflects hbuilt (initial_inv name) (initial_reflects name)
  obtain ⟨i, pre, test, v, onTrue, onFalse, htests⟩ := (hreflects.compiled f hf def_ hd).tests hk hn
  exact ⟨i, pre, test, v, onTrue, onFalse, htests,
    fun steps _ _ _ _ _ hpre hx hty => htests.run file.module steps hpre hx hty⟩

theorem maze_tests_nonzero : generate "maze" mazeTree = .ok maze ∧
    (∃ w b' is, Writes (lowerCondition ⟨.arg 0, .char⟩ none) courier w b' is ∧
      ∀ c, Computes is (.arg 0) (.char c) w.operand (.bool (c != 0))) ∧
    ∃ f ∈ maze.functions, ∃ n : Node, n.kind = .ifElseStatement ∧
      ∃ i pre test v onTrue onFalse, f.Tests n i pre test v onTrue onFalse ∧
        ∀ (steps : Nat) (fr fr' : Frame) (s s' : Machine) (x : Scalar),
          runInsts (callWith (runFrom maze steps) maze) f pre fr s = .ok fr' s' →
          fr'.operand v.operand = .ok x → x.ty = v.ty →
          ∃ temps, runFrom maze (steps + 1) f fr i s =
            runFrom maze steps f { fr' with temps } (if x.isNonzero then onTrue else onFalse) s' := by
  have hm : generate "maze" mazeTree = .ok maze := by decide +kernel
  obtain ⟨f, hf, hname⟩ : ∃ f ∈ maze.functions, f.name = "maze" := by decide +kernel
  obtain ⟨def_, n, hd, hn, hk⟩ : ∃ def_ n,
      (Source.Program.ofTree mazeTree).definition? "maze" = some def_ ∧
        Source.Statement n def_.body ∧ n.kind = .ifElseStatement :=
    ⟨_, _, rfl, .sequence rfl List.mem_cons_self .here, rfl⟩
  obtain ⟨hcode, hruns⟩ := conditions_test_nonzero
  obtain ⟨w, b', is, hwrites, hcomputes⟩ :=
    hcode courier ⟨.arg 0, .char⟩ none ⟨_, _, _, rfl, rfl, rfl⟩ rfl
  exact ⟨hm, ⟨w, b', is, hwrites, fun c => hcomputes (.char c) rfl⟩, f, hf, n, hk,
    hruns "maze" mazeTree maze hm f hf def_ (hname ▸ hd) n hk hn⟩

end SlotIR
