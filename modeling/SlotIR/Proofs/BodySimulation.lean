import SlotIR.Proofs.Simulation

/-!
# Simulation of bodies

The code of every node of a body runs as the node is evaluated (`emits_simulates`), provided that calls
do. The proof follows the constructors of `EmitsNode`: lists of nodes, declarations, conditionals with
their arms, and the nodes that come down to one instruction.
-/

namespace SlotIR

open Syntax (Node)
open RunM Machine Lowering

/-- What a node yields on the tree is what its code yields. -/
def Denotes (d : Draft) (fr : Frame) : Lowered → Option Scalar → Prop
  | .unit, _ => True
  | .value v, some x => ValueAt d fr v x
  | _, _ => False

/-- What a draft holds is in the function and in the module that are run. -/
structure Draft.Within (m : Module) (f : Function) (d : Draft) : Prop where
  function : d.function.Extends f
  module : d.module.Grows m

theorem Draft.Within.back {m : Module} {f : Function} {d d' : Draft} (h : d'.Within m f)
    (he : d.Extends d') : d.Within m f :=
  ⟨he.function.trans h.function, he.module.grows.trans h.module⟩

/-- A call on the tree ends like the call of the function with index `i` on the machine. -/
def CallEnds (m : Module) (depth i : Nat) (g : Function) (args : List Scalar) (σ : Source.State)
    (s : Machine) (x : EStateM.Result Source.Stop Source.State (Option Scalar)) : Prop :=
  Ends x
    (fun v σ' => σ'.locals = σ.locals ∧ Returns g.signature.ret v ∧
      ∃ s', Eventually (fun steps => callWith (runFrom m steps) m i args s) (.ok v s') ∧
        Stored m σ'.globals s' ∧ s'.depth = depth)
    (fun e σ' => ∃ fault s', Ended m depth e σ' (.error fault s') ∧
      Eventually (fun steps => callWith (runFrom m steps) m i args s) (.error fault s'))

/-- Calls on the tree end like calls on the machine. -/
def CallsMatch (m : Module) (depth : Nat)
    (call : String → List Scalar → Source.EvalM (Option Scalar)) : Prop :=
  ∀ {i : Nat} {g : Function} {args : List Scalar} {σ : Source.State} {s : Machine},
    m.functions[i]? = some g → args.map Scalar.ty = g.signature.params → s.depth = depth →
    Stored m σ.globals s → CallEnds m depth i g args σ s (call g.name args σ)

/-- What the simulation of a body relies on. -/
structure Setting (m : Module) (f : Function) (depth : Nat) (globals : List (String × Value))
    (ctx : Source.Context) : Prop where
  names : (m.globals.map (·.name)).Nodup
  bindings : GlobalsIn m globals
  function : ctx.function = f.name
  ret : ctx.ret = f.signature.ret
  calls : CallsMatch m depth ctx.call

section bodies

variable (m : Module) (f : Function) (depth : Nat) (globals : List (String × Value))

/-- Evaluation and run are at the place of a draft, in states that match. -/
structure Stands (k : Nat) (pend : List Nat) (scope : ScopeId) (d : Draft)
    (locals : List (String × Value)) (σ : Source.State) (fr : Frame) (s : Machine) : Prop where
  inv : d.Inv k pend
  visible : d.Scoped scope locals globals
  live : d.function.closedAt d.block = false
  state : Match m f depth d locals σ fr s

/-- The code of nodes up to a height runs as the nodes are evaluated. -/
structure Simulates (sub : Emission) (ev : Node → Source.EvalM (Option Scalar)) (height : Nat) :
    Prop where
  step : ∀ {n : Node} {scope : ScopeId} {d d' : Draft} {r : Lowered}, sub n scope d r d' →
    n.height ≤ height → ∀ {k : Nat} {pend : List Nat} {locals locals' : List (String × Value)}
      {σ : Source.State} {fr : Frame} {s : Machine},
      Stands m f depth globals k pend scope d locals σ fr s → d'.Within m f →
      d'.Scoped scope locals' globals →
      Runs m f depth d fr s d' locals' (ev n σ) (fun v fr' => Denotes d' fr' r v)

variable {m f depth globals} {sub : Emission} {ev : Node → Source.EvalM (Option Scalar)}
  {height k : Nat} {pend : List Nat} {scope : ScopeId} {d d' : Draft}
  {locals locals' : List (String × Value)} {σ : Source.State} {fr : Frame} {s : Machine}

/-- Scopes have one list of local bindings. -/
theorem locals_unique (h : d.Scoped scope locals globals) (h' : d'.Scoped scope locals' globals)
    (hc : d'.scopes = d.scopes) : locals = locals' := by
  have hb := h'.bindings
  rw [hc, h.bindings] at hb
  exact List.append_cancel_right hb

/-! ## Lists of nodes -/

theorem emitsAll_runs (hp : Preserves sub) (hsub : Simulates m f depth globals sub ev height)
    {ns : List Node} (h : EmitsAll sub scope ns d d') :
    (∀ n ∈ ns, n.height ≤ height) → ∀ {locals locals' : List (String × Value)} {σ : Source.State}
      {fr : Frame} {s : Machine}, Stands m f depth globals k pend scope d locals σ fr s →
      d'.Within m f → d'.Scoped scope locals' globals →
      Runs m f depth d fr s d' locals' (Source.evalAll ev ns σ) (fun _ _ => True) := by
  induction h with
  | nil =>
    intro _ locals locals' σ fr s hst hw hs'
    cases locals_unique hst.visible hs' rfl
    exact ⟨fr, s, .refl hst.state hst.live, trivial⟩
  | cons head tail ih =>
    intro hh locals locals' σ fr s hst hw hs'
    obtain ⟨hn, hns⟩ := List.forall_mem_cons.1 hh
    obtain ⟨new, hc, -⟩ := hp.step head hst.inv hst.visible
    obtain ⟨_, hc'⟩ := emitsAll_preserves hp tail hc.inv hc.visible
    have first := hsub.step head hn hst (hw.back hc'.grows) hc.visible
    refine first.bind hc.grows.function.nextValue fun v σ₁ fr₁ s₁ hm hl _ => ?_
    exact ih hns ⟨hc.inv, hc.visible, hl, hm⟩ hw hs'

theorem Simulates.value (hsub : Simulates m f depth globals sub ev height) {n : Node} {v : Value}
    (h : sub n scope d (.value v) d') (hn : n.height ≤ height)
    (hst : Stands m f depth globals k pend scope d locals σ fr s) (hw : d'.Within m f)
    (hs' : d'.Scoped scope locals' globals) :
    Runs m f depth d fr s d' locals' (Source.evalValue ev n σ) (fun x fr' => ValueAt d' fr' v x) := by
  refine Ends.bind (hsub.step h hn hst hw hs') ?_
  rintro x σ' ⟨fr', s', ha, hx⟩
  cases x with
  | none => exact hx.elim
  | some x => exact ⟨fr', s', ha, hx⟩

theorem emitsValues_runs (hp : Preserves sub) (hsub : Simulates m f depth globals sub ev height)
    {ns : List Node} {vs : List Value} (h : EmitsValues sub scope ns d vs d') :
    (∀ n ∈ ns, n.height ≤ height) → ∀ {σ : Source.State} {fr : Frame} {s : Machine},
      Stands m f depth globals k pend scope d locals σ fr s → d'.Within m f →
      Runs m f depth d fr s d' locals (Source.evalValues ev ns σ)
        (fun xs fr' => List.Forall₂ (ValueAt d' fr') vs xs) := by
  induction h with
  | nil =>
    intro _ σ fr s hst hw
    exact ⟨fr, s, .refl hst.state hst.live, .nil⟩
  | cons head tail ih =>
    intro hh σ fr s hst hw
    obtain ⟨hn, hns⟩ := List.forall_mem_cons.1 hh
    obtain ⟨new, hc, rfl, -, -⟩ := hp.step head hst.inv hst.visible
    obtain ⟨hc', -, -⟩ := emitsValues_preserves hp tail hc.inv hc.visible
    have first := hsub.value head hn hst (hw.back hc'.grows) hc.visible
    refine first.bind hc.grows.function.nextValue fun x σ₁ fr₁ s₁ hm hl hx => ?_
    refine (ih hns ⟨hc.inv, hc.visible, hl, hm⟩ hw).map fun xs fr' hk hxs => ?_
    exact .cons (hx.later hk hc'.grows.function.nextValue) hxs

theorem operands_of_values {vs : List Value} {xs : List Scalar}
    (h : List.Forall₂ (ValueAt d fr) vs xs) :
    fr.operands (vs.map (·.operand)) = .ok xs ∧ xs.map Scalar.ty = vs.map (·.ty) := by
  induction h with
  | nil => exact ⟨rfl, rfl⟩
  | cons hv _ ih =>
    obtain ⟨hos, htys⟩ := ih
    rw [List.map_cons, Frame.operands, hv.operand, hos, List.map_cons, List.map_cons, hv.type, htys]
    exact ⟨rfl, rfl⟩

/-! ## Declarations -/

/-- A variable gets its first value and then its name. Its slot was made for it, so no name that can
be seen is bound to that. -/
theorem Arrives.fill_slot {n : Nat} {sl : Slot} {o : Operand} {x : Scalar} (name : String)
    (c : ScopeChain) (hi : d.Inv k pend) (hl : d.function.closedAt d.block = false)
    (he : (d.emit .void (.store (.slot n) o)).function.Extends f)
    (hm : Match m f depth d locals σ fr s) (hslot : d.function.slots[n]? = some sl)
    (hfree : ∀ p ∈ locals, p.2.operand ≠ .slot n) (ho : fr.operand o = .ok x) (hx : x.ty = sl.ty) :
    Arrives m f depth d fr s { d.emit .void (.store (.slot n) o) with scopes := c }
      ((name, ⟨.slot n, .ptr sl.ty⟩) :: locals) { σ with locals := (name, some x) :: σ.locals }
      { fr with slots := fr.slots.set n (some x) } s := by
  have hemit : d.Extends (d.emit .void (.store (.slot n) o)) := .emit
  have hf := (hemit.function.trans he).slot hslot
  have hlt : n < fr.slots.length := by
    rw [hm.frame.slots]
    exact (List.getElem?_eq_some_iff.1 hf).1
  have hm' := hm.write_unbound hf hx (List.getElem?_eq_some_iff.1 hslot).1 hfree
  have hrun : ∀ steps, runInst (callWith (runFrom m steps) m) f fr
      (d.function.nextInst .void (.store (.slot n) o)) s =
      .ok { fr with slots := fr.slots.set n (some x) } s :=
    fun _ => (runInst_store rfl ho).trans (store_slot hlt)
  have ha := Arrives.emit hi hl he (.of_eq hrun) hm' ⟨rfl, fun _ _ => rfl⟩
  have hcell : CellAt f { fr with slots := fr.slots.set n (some x) } (name, ⟨.slot n, .ptr sl.ty⟩)
      (name, some x) := ⟨rfl, n, sl, rfl, hf, List.getElem?_set_self hlt⟩
  exact ⟨(ha.state.declare hcell).at_later (Nat.le_refl _), ha.live, ha.keeps, ha.back⟩

theorem emitsDeclarator_runs (hp : Preserves sub) (hsub : Simulates m f depth globals sub ev height)
    {ty : Ty} {n : Node} (hty : ty = .void ∨ ty.isArithmetic = true)
    (h : EmitsDeclarator sub scope ty n d d') (hn : n.height ≤ height)
    (hst : Stands m f depth globals k pend scope d locals σ fr s) (hw : d'.Within m f)
    (hs' : d'.Scoped scope locals' globals) :
    Runs m f depth d fr s d' locals' (Source.evalDeclarator ev n σ) (fun _ _ => True) := by
  unfold Source.evalDeclarator
  cases h with
  | prototype kind reads registers =>
    cases locals_unique hst.visible hs' rfl
    rw [if_pos kind]
    exact ⟨fr, s, ⟨hst.state.at_later (Nat.le_refl _), hst.live, .refl d fr, fun _ h => h⟩, trivial⟩
  | @bare name c kind named object bare defines =>
    have hc := Continues.addSlot hst.inv hst.visible (s := varSlot name ty) (hty.resolve_left object)
    cases locals_unique (hc.bind hst.visible (getElem?_addSlot d _) defines).visible hs' rfl
    have hf := hw.function.slot (getElem?_addSlot d (varSlot name ty))
    have hcell : CellAt f fr (name.text, nextSlot d ty) (name.text, none) :=
      ⟨rfl, _, _, rfl, hf, hst.state.slot_unused (Nat.le_refl _) hf⟩
    simp only [if_neg kind, named, Source.initial?_eq, bare]
    refine ⟨fr, s, ⟨(hst.state.declare hcell).at_later ?_, hst.live, .refl d fr, fun _ h => h⟩, trivial⟩
    simp [Draft.addSlot, Function.addSlot]
  | @initialized name init v d₁ c kind named object initializer value fits defines =>
    have hc := Continues.addSlot hst.inv hst.visible (s := varSlot name ty) (hty.resolve_left object)
    obtain ⟨hc₁, hc₂⟩ := initialized_continues hp (hty.resolve_left object) value fits defines
      hst.inv hst.visible
    cases locals_unique hc₂.visible hs' rfl
    have hslot := hc₁.grows.function.slot (getElem?_addSlot d (varSlot name ty))
    have hemit : d₁.Extends (d₁.emit .void (.store (nextSlot d ty).operand v.operand)) := .emit
    have hw₁ : d₁.Within m f := hw.back ⟨hemit.function, hemit.module⟩
    have hinit : init.height ≤ height :=
      Nat.le_trans (Nat.le_of_lt (Node.height_initializer? initializer)) hn
    have hstart : Arrives m f depth d fr s (d.addSlot (varSlot name ty)) locals σ fr s := by
      refine ⟨hst.state.at_later ?_, hst.live, .refl d fr, fun _ h => h⟩
      simp [Draft.addSlot, Function.addSlot]
    simp only [if_neg kind, named, Source.initial?_eq, initializer]
    refine Runs.after hstart (Nat.le_refl _) ?_
    have first := hsub.value value hinit ⟨hc.inv, hc.visible, hst.live, hstart.state⟩
      hw₁ hc₁.visible
    refine first.bind hc₁.grows.function.nextValue fun x σ₁ fr₁ s₁ hm hl hx => ?_
    exact ⟨_, _, .fill_slot _ _ hc₁.inv hl hw.function hm hslot hst.visible.unbound hx.operand
      (hx.type.trans fits), trivial⟩

theorem emitsDeclarators_runs (hp : Preserves sub) (hsub : Simulates m f depth globals sub ev height)
    {ty : Ty} {ns : List Node} (hty : ty = .void ∨ ty.isArithmetic = true)
    (h : EmitsDeclarators sub scope ty ns d d') :
    (∀ n ∈ ns, n.height ≤ height) → ∀ {locals locals' : List (String × Value)} {σ : Source.State}
      {fr : Frame} {s : Machine}, Stands m f depth globals k pend scope d locals σ fr s →
      d'.Within m f → d'.Scoped scope locals' globals →
      Runs m f depth d fr s d' locals' (Source.evalDeclarators ev ns σ) (fun _ _ => True) := by
  induction h with
  | nil =>
    intro _ locals locals' σ fr s hst hw hs'
    cases locals_unique hst.visible hs' rfl
    exact ⟨fr, s, .refl hst.state hst.live, trivial⟩
  | cons head tail ih =>
    intro hh locals locals' σ fr s hst hw hs'
    obtain ⟨hn, hns⟩ := List.forall_mem_cons.1 hh
    obtain ⟨new, hc⟩ := emitsDeclarator_preserves hp hty head hst.inv hst.visible
    obtain ⟨_, hc'⟩ := emitsDeclarators_preserves hp hty tail hc.inv hc.visible
    have first := emitsDeclarator_runs hp hsub hty head hn hst (hw.back hc'.grows) hc.visible
    refine first.bind hc.grows.function.nextValue fun v σ₁ fr₁ s₁ hm hl _ => ?_
    exact ih hns ⟨hc.inv, hc.visible, hl, hm⟩ hw hs'

/-! ## Conditionals -/

/-- When its scope is left, the variables of an arm are gone. -/
theorem Match.leave {new : List (String × Value)} {n : Nat}
    (h : Match m f depth d (new ++ locals) σ fr s) (hn : locals.length = n) :
    Match m f depth d locals { σ with locals := σ.locals.drop (σ.locals.length - n) } fr s := by
  have hlen := h.cells.length_eq
  rw [List.length_append, hn] at hlen
  have hdrop : σ.locals.length - n = new.length := by omega
  have hcells := List.forall₂_drop new.length h.cells
  rw [List.drop_left] at hcells
  rw [hdrop]
  exact { h with cells := hcells }

/-- An arm that comes to its end goes on with the block that follows the conditional. -/
theorem emitsArm_runs (hp : Preserves sub) (hsub : Simulates m f depth globals sub ev height)
    {arm : Node} {merge : Nat} (h : EmitsArm sub scope arm merge d d') (hn : arm.height ≤ height)
    (hst : Stands m f depth globals k pend scope d locals σ fr s) (hw : d'.Within m f) :
    Ends (Source.evalArm ev (some arm) σ)
      (fun _ σ' => ∃ fr' s', Match m f depth d' locals σ' fr' s' ∧ Keeps d fr fr' ∧
        ∀ r, Leads m f fr' merge 0 s' r → d.LeadsTo m f fr s r)
      (Breaks m f depth d fr s) := by
  cases h with
  | @arm r d₁ body =>
    obtain ⟨new, hc, -⟩ := hp.step body (hst.inv.rescope _) hst.visible.enter
    have hfall := Draft.Extends.fallThrough (d := d₁.leave d.scopes.opened) merge
    have hw₁ : d₁.Within m f := hw.back ⟨hfall.function, hfall.module⟩
    have hin : Stands m f depth globals k pend d.scopes.opened (d.enter scope) locals σ fr s :=
      ⟨hst.inv.rescope _, hst.visible.enter, hst.live, hst.state.at_later (Nat.le_refl _)⟩
    have hbody := hsub.step body hn hin hw₁ hc.visible
    show Ends ((Source.inScope (ev arm) >>= fun _ => pure ()) σ) _ _
    cases he : ev arm σ with
    | ok v σ₁ =>
      obtain ⟨fr₁, s₁, ha, -⟩ := Ends.of_ok hbody he
      have hstate := ha.state.leave hst.state.cells.length_eq
      rw [bind_of_ok (Source.inScope_ok he)]
      refine ⟨fr₁, s₁, hstate.at_later ?_, ⟨ha.keeps.args, ha.keeps.temps⟩, fun r hr => ?_⟩
      · rw [Draft.fallThrough_slots]
        exact Nat.le_refl _
      · refine ha.back r ?_
        exact Draft.leadsTo_fallThrough (d := d₁.leave d.scopes.opened) (hc.inv.rescope _) ha.live
          hw.function hr
    | error e σ₁ =>
      obtain ⟨r, hend, hlead⟩ := Ends.of_error hbody he
      rw [bind_of_error (Source.inScope_error he)]
      exact ⟨r, hend, hlead⟩

/-- The test of a conditional goes to the new block if it holds, and to the one after it if not. -/
theorem fork_runs (hp : Preserves sub) (hsub : Simulates m f depth globals sub ev height)
    {condNode : Node} {v : Value} {cond : Operand} {d₁ d₂ : Draft} {names : List String}
    (value : sub condNode scope d (.value v) d₁) (test : conditionIn d₁ v = some (cond, d₂))
    (hn : condNode.height ≤ height)
    (hst : Stands m f depth globals k pend scope d locals σ fr s)
    (hw : (d₂.fork cond names).Within m f) :
    Ends (Source.evalValue ev condNode σ)
      (fun x σ' => ∃ c fr' s', Source.truth x = some c ∧ Match m f depth d₂ locals σ' fr' s' ∧
        Keeps d fr fr' ∧ ∀ r, Leads m f fr'
          (if c then d₂.function.blocks.length else d₂.function.blocks.length + 1) 0 s' r →
          d.LeadsTo m f fr s r)
      (Breaks m f depth d fr s) := by
  obtain ⟨new, hc₁, rfl, hv, -⟩ := hp.step value hst.inv hst.visible
  obtain ⟨hi₂, he₂, -, -, ho₂⟩ := conditionIn_uses hc₁.inv hv test
  have hw₂ : d₂.Within m f := hw.back .fork
  refine Ends.mono (hsub.value value hn hst (hw₂.back he₂) hc₁.visible) ?_ fun _ _ h => h
  rintro x σ' ⟨fr₁, s₁, ha, hx⟩
  obtain ⟨c, fr₂, htruth, ha₂, hcond⟩ :=
    conditionIn_arrives hc₁.inv ha.live hw₂.function ha.state hx hv test
  have hall := ha.trans ha₂ hc₁.grows.function.nextValue
  refine ⟨c, fr₂, s₁, htruth, hall.state, hall.keeps, fun r hr => hall.back r ?_⟩
  exact Draft.leadsTo_fork hi₂ ho₂ hw.function hcond hr

section conditionals

variable {σ₁ : Source.State} {fr₁ : Frame} {s₁ : Machine} {e e' last : Draft} {merge : Nat}
  {pend' : List Nat}

/-- An arm that starts at the place of `e`, where the run from the place of `d` has come to. -/
theorem emitsArm_joins (hp : Preserves sub) (hsub : Simulates m f depth globals sub ev height)
    {arm : Node} (h : EmitsArm sub scope arm merge e e') (hn : arm.height ≤ height)
    (hst : Stands m f depth globals k pend scope e locals σ₁ fr₁ s₁) (hw : e'.Within m f)
    (hk : Keeps d fr fr₁) (hle : d.function.nextValue ≤ e.function.nextValue)
    (hback : ∀ r, e.LeadsTo m f fr₁ s₁ r → d.LeadsTo m f fr s r) (hi : last.Inv k pend')
    (hmerge : merge ∈ pend') (hslots : e'.function.slots.length ≤ last.function.slots.length) :
    Runs m f depth d fr s (last.moveTo merge) locals (Source.evalArm ev (some arm) σ₁)
      (fun _ _ => True) := by
  refine Ends.mono (emitsArm_runs hp hsub h hn hst hw) ?_ ?_
  · rintro _ σ' ⟨fr', s', hm, hk', hb⟩
    refine ⟨fr', s', ⟨hm.at_later hslots, Draft.moveTo_open hi hmerge, hk.trans hk' hle, ?_⟩, trivial⟩
    exact fun r hr => hback r (hb r ((Draft.leadsTo_moveTo hi hmerge).1 hr))
  · rintro err σ' ⟨r, hend, hlead⟩
    exact ⟨r, hend, hback r hlead⟩

variable (ev) in
/-- Without an arm to run, the run goes on after the conditional at once. -/
theorem skip_joins (hm : Match m f depth e locals σ₁ fr₁ s₁) (hk : Keeps d fr fr₁)
    (hback : ∀ r, Leads m f fr₁ merge 0 s₁ r → d.LeadsTo m f fr s r) (hi : last.Inv k pend')
    (hmerge : merge ∈ pend') (hslots : e.function.slots.length ≤ last.function.slots.length) :
    Runs m f depth d fr s (last.moveTo merge) locals (Source.evalArm ev none σ₁)
      (fun _ _ => True) := by
  refine ⟨fr₁, s₁, ⟨hm.at_later hslots, Draft.moveTo_open hi hmerge, hk, ?_⟩, trivial⟩
  exact fun r hr => hback r ((Draft.leadsTo_moveTo hi hmerge).1 hr)

variable {condNode : Node} {v : Value} {cond : Operand} {d₁ d₂ : Draft} {names : List String}

/-- The first arm starts where the branch goes to if the condition holds. -/
theorem fork_stands (hp : Preserves sub) (value : sub condNode scope d (.value v) d₁)
    (test : conditionIn d₁ v = some (cond, d₂)) (hn : names ≠ []) (hi : d.Inv k pend)
    (hs : d.Scoped scope locals globals) (hm : Match m f depth d₂ locals σ₁ fr₁ s₁) :
    Stands m f depth globals k (List.range' (d₂.function.blocks.length + 1) names.length ++ pend)
      scope (d₂.fork cond names) locals σ₁ fr₁ s₁ ∧
    ∀ r, (d₂.fork cond names).LeadsTo m f fr₁ s₁ r →
      Leads m f fr₁ d₂.function.blocks.length 0 s₁ r := by
  obtain ⟨new, hc₁, rfl, hv, -⟩ := hp.step value hi hs
  obtain ⟨hi₂, -, -, hcond, ho₂⟩ := conditionIn_uses hc₁.inv hv test
  have hbranch := hi₂.branch ho₂ hcond hn
  have hc := fork_preserves hp value test hn hi hs
  refine ⟨⟨hc.inv, hc.visible, Draft.moveTo_open hbranch List.mem_cons_self, hm.at_later ?_⟩, ?_⟩
  · exact (Draft.Extends.fork (d := d₂)).function.slots.length_le
  · exact fun r => (Draft.leadsTo_moveTo hbranch List.mem_cons_self).1

theorem ifThen_runs (hp : Preserves sub) (hsub : Simulates m f depth globals sub ev height)
    {n thenNode : Node} {d₃ : Draft} (first : n.nth? 0 = some condNode)
    (second : n.nth? 1 = some thenNode) (third : n.nth? 2 = none)
    (value : sub condNode scope d (.value v) d₁) (test : conditionIn d₁ v = some (cond, d₂))
    (arm : EmitsArm sub scope thenNode (d₂.function.blocks.length + 1) (d₂.fork cond ["merge"]) d₃)
    (hn : n.height ≤ height + 1) (hst : Stands m f depth globals k pend scope d locals σ fr s)
    (hw : (d₃.moveTo (d₂.function.blocks.length + 1)).Within m f)
    (hs' : (d₃.moveTo (d₂.function.blocks.length + 1)).Scoped scope locals' globals) :
    Runs m f depth d fr s (d₃.moveTo (d₂.function.blocks.length + 1)) locals'
      (Source.evalIf ev n σ) (fun _ _ => True) := by
  have hf := fork_preserves hp value test (List.cons_ne_nil "merge" []) hst.inv hst.visible
  obtain ⟨hc, hclosed⟩ := emitsArm_preserves hp arm (by simp) hf.inv hf.visible
  cases locals_unique ((hf.trans hc).moveTo hclosed).visible hs' rfl
  have hw₃ : d₃.Within m f := hw.back .moveTo
  have hmerge : d₂.function.blocks.length + 1 ∈
      List.range' (d₂.function.blocks.length + 1) ["merge"].length ++ pend := by simp
  have hcond : condNode.height ≤ height := Node.height_le_of_nth? first hn
  have hthen : thenNode.height ≤ height := Node.height_le_of_nth? second hn
  simp only [Source.evalIf, first, second, third]
  refine Ends.bind (fork_runs hp hsub value test hcond hst (hw₃.back hc.grows)) ?_
  rintro x σ₁ ⟨c, fr₁, s₁, htruth, hm, hk, hback⟩
  rw [htruth]
  refine Runs.map (Q := fun _ _ => True) ?_ fun _ _ _ _ => trivial
  cases c with
  | true =>
    obtain ⟨hfork, hlead⟩ := fork_stands hp value test (List.cons_ne_nil "merge" []) hst.inv
      hst.visible hm
    exact emitsArm_joins hp hsub arm hthen hfork hw₃ hk hf.grows.function.nextValue
      (fun r hr => hback r (hlead r hr)) hc.inv hmerge (Nat.le_refl _)
  | false =>
    have hext := (Draft.Extends.fork (d := d₂)).trans hc.grows
    exact skip_joins ev hm hk hback hc.inv hmerge hext.function.slots.length_le

theorem ifElse_runs (hp : Preserves sub) (hsub : Simulates m f depth globals sub ev height)
    {n thenNode elseNode : Node} {d₃ d₄ : Draft} (first : n.nth? 0 = some condNode)
    (second : n.nth? 1 = some thenNode) (third : n.nth? 2 = some elseNode)
    (value : sub condNode scope d (.value v) d₁) (test : conditionIn d₁ v = some (cond, d₂))
    (arm : EmitsArm sub scope thenNode (d₂.function.blocks.length + 2)
      (d₂.fork cond ["else", "merge"]) d₃)
    (other : EmitsArm sub scope elseNode (d₂.function.blocks.length + 2)
      (d₃.moveTo (d₂.function.blocks.length + 1)) d₄)
    (hn : n.height ≤ height + 1) (hst : Stands m f depth globals k pend scope d locals σ fr s)
    (hw : (d₄.moveTo (d₂.function.blocks.length + 2)).Within m f)
    (hs' : (d₄.moveTo (d₂.function.blocks.length + 2)).Scoped scope locals' globals) :
    Runs m f depth d fr s (d₄.moveTo (d₂.function.blocks.length + 2)) locals'
      (Source.evalIf ev n σ) (fun _ _ => True) := by
  have hf := fork_preserves hp value test (List.cons_ne_nil "else" ["merge"]) hst.inv hst.visible
  obtain ⟨hc, hclosed⟩ := emitsArm_preserves hp arm (by simp) hf.inv hf.visible
  have hmid := (hf.trans hc).moveTo hclosed
  obtain ⟨hc', hclosed'⟩ := emitsArm_preserves hp other (by simp) hmid.inv hmid.visible
  cases locals_unique ((hmid.trans hc').moveTo hclosed').visible hs' rfl
  have hw₄ : d₄.Within m f := hw.back .moveTo
  have hwm := hw₄.back hc'.grows
  have hw₃ : d₃.Within m f := hwm.back .moveTo
  have hext : d₃.Extends d₄ := (Draft.Extends.moveTo).trans hc'.grows
  have helse : d₂.function.blocks.length + 1 ∈
      List.range' (d₂.function.blocks.length + 1) ["else", "merge"].length ++ pend := by simp
  have hmerge : d₂.function.blocks.length + 2 ∈ [d₂.function.blocks.length + 2] ++ pend := by simp
  have hcond : condNode.height ≤ height := Node.height_le_of_nth? first hn
  simp only [Source.evalIf, first, second, third]
  refine Ends.bind (fork_runs hp hsub value test hcond hst (hw₃.back hc.grows)) ?_
  rintro x σ₁ ⟨c, fr₁, s₁, htruth, hm, hk, hback⟩
  rw [htruth]
  refine Runs.map (Q := fun _ _ => True) ?_ fun _ _ _ _ => trivial
  cases c with
  | true =>
    obtain ⟨hfork, hlead⟩ := fork_stands hp value test (List.cons_ne_nil "else" ["merge"]) hst.inv
      hst.visible hm
    have hthen : thenNode.height ≤ height := Node.height_le_of_nth? second hn
    exact emitsArm_joins hp hsub arm hthen hfork hw₃ hk hf.grows.function.nextValue
      (fun r hr => hback r (hlead r hr)) hc'.inv hmerge hext.function.slots.length_le
  | false =>
    have hstart := (Draft.Extends.fork (d := d₂)).trans hc.grows
    have hstands : Stands m f depth globals k ([d₂.function.blocks.length + 2] ++ pend) scope
        (d₃.moveTo (d₂.function.blocks.length + 1)) locals σ₁ fr₁ s₁ :=
      ⟨hmid.inv, hmid.visible, Draft.moveTo_open hc.inv helse,
        hm.at_later hstart.function.slots.length_le⟩
    have hother : elseNode.height ≤ height := Node.height_le_of_nth? third hn
    exact emitsArm_joins hp hsub other hother hstands hw₄ hk hmid.grows.function.nextValue
      (fun r hr => hback r ((Draft.leadsTo_moveTo hc.inv helse).1 hr)) hc'.inv hmerge (Nat.le_refl _)

end conditionals

/-! ## Single instructions -/

section nodes

variable {ctx : Source.Context} {n : Node}

theorem identifier_runs (hset : Setting m f depth globals ctx) {o : Operand} {ty : Ty}
    {name : String} (bound : d.scopes.lookup? scope name = some ⟨o, .ptr ty⟩) (object : ty ≠ .void)
    (hst : Stands m f depth globals k pend scope d locals σ fr s)
    (hw : (d.emit ty (.load o)).Within m f) :
    Runs m f depth d fr s (d.emit ty (.load o)) locals
      ((Source.read ctx.function name >>= fun v => pure (some v)) σ)
      (fun v fr' => Denotes (d.emit ty (.load o)) fr' (.value ⟨.temp d.function.nextValue, ty⟩) v) := by
  have hload := hst.state.load hst.visible hset.names hset.bindings bound
  rw [hset.function]
  cases hr : Source.read f.name name σ with
  | ok x σ' =>
    obtain ⟨rfl, hl, hx⟩ := hload.of_ok hr
    have hrun : ∀ steps, runInst (callWith (runFrom m steps) m) f fr
        (d.function.nextInst ty (.load o)) s =
        .ok (fr.bind (d.function.nextInst ty (.load o)).result (some x)) s := by
      intro steps
      rw [runInst_load rfl, bind_of_ok hl]
      rfl
    rw [bind_of_ok hr]
    exact ⟨_, s, .emit hst.inv hst.live hw.function (.of_eq hrun) (hst.state.bind_result _ _)
      (.bind d fr ty _ _), ValueAt.bind d fr _ object hx⟩
  | error e σ' =>
    obtain ⟨rfl, rfl, i, hl⟩ := hload.of_error hr
    have hrun : ∀ steps, runInst (callWith (runFrom m steps) m) f fr
        (d.function.nextInst ty (.load o)) s =
        .error (.error (.uninitializedRead f.name i)) s := by
      intro steps
      rw [runInst_load rfl, bind_of_error hl]
    rw [bind_of_error hr]
    exact ⟨_, .failed rfl hst.state.globals hst.state.depth,
      Draft.leadsTo_emit_error hst.inv hst.live hw.function (.of_eq hrun)⟩

theorem returnValue_runs (hp : Preserves sub) (hsub : Simulates m f depth globals sub ev height)
    (hset : Setting m f depth globals ctx) {e : Node} {v w : Value} {d₁ d₂ : Draft}
    (operand : n.nth? 0 = some e) (value : sub e scope d (.value v) d₁)
    (converts : convertIn d₁ v d.function.signature.ret = some (w, d₂)) (hn : e.height ≤ height)
    (hst : Stands m f depth globals k pend scope d locals σ fr s)
    (hw : (d₂.close (.ret (some w.operand))).Within m f) {Q : Option Scalar → Frame → Prop} :
    Runs m f depth d fr s (d₂.close (.ret (some w.operand))) locals'
      (Source.evalReturn ctx ev n σ) Q := by
  obtain ⟨new, hc₁, rfl, hv, -⟩ := hp.step value hst.inv hst.visible
  obtain ⟨hi₂, he₂, -, -, -, -⟩ := convertIn_uses hc₁.inv hv converts
  have hw₂ : d₂.Within m f := hw.back .close
  have hret : ctx.ret = d.function.signature.ret := by
    rw [hset.ret, (hw₂.back (hc₁.grows.trans he₂)).function.signature]
  have first := hsub.value value hn hst (hw₂.back he₂) hc₁.visible
  simp only [Source.evalReturn, operand]
  refine first.bind hc₁.grows.function.nextValue fun x σ₁ fr₁ s₁ hm hl hx => ?_
  obtain ⟨y, fr₂, hconv, ha, hwy, -⟩ :=
    convertIn_arrives hc₁.inv hl hw₂.function hm hx converts
  rw [hret, hconv]
  refine ⟨_, .returned ha.state.globals ha.state.depth, ha.back _ ?_⟩
  exact Draft.leadsTo_close hi₂ ha.live hw.function (finish_ret hwy.operand)

theorem assignment_runs (hp : Preserves sub) (hsub : Simulates m f depth globals sub ev height)
    (hset : Setting m f depth globals ctx) {target e : Node} {a v : Value} {d₁ : Draft}
    (first : n.nth? 0 = some target) (second : n.nth? 1 = some e)
    (bound : d.scopes.lookup? scope target.unwrapped.text = some a)
    (value : sub e scope d (.value v) d₁) (fits : a.ty = .ptr v.ty) (hn : e.height ≤ height)
    (hst : Stands m f depth globals k pend scope d locals σ fr s)
    (hw : (d₁.emit .void (.store a.operand v.operand)).Within m f)
    (hs' : (d₁.emit .void (.store a.operand v.operand)).Scoped scope locals' globals) :
    Runs m f depth d fr s (d₁.emit .void (.store a.operand v.operand)) locals'
      (Source.evalAssignment ev n σ)
      (fun x fr' => Denotes (d₁.emit .void (.store a.operand v.operand)) fr' (.value v) x) := by
  obtain ⟨new, hc₁, rfl, -, -⟩ := hp.step value hst.inv hst.visible
  cases locals_unique hc₁.visible hs' Draft.emit_scopes
  obtain ⟨o, t⟩ := a
  cases fits
  have hemit : d₁.Extends (d₁.emit .void (.store o v.operand)) := .emit
  have hbound : d₁.scopes.lookup? scope target.unwrapped.text = some ⟨o, .ptr v.ty⟩ := by
    rw [hc₁.visible.lookup?_eq, List.nil_append, ← hst.visible.lookup?_eq]
    exact bound
  have hvalue := hsub.value value hn hst (hw.back hemit) hc₁.visible
  simp only [Source.evalAssignment, first, second]
  refine hvalue.bind hc₁.grows.function.nextValue fun x σ₁ fr₁ s₁ hm hl hx => ?_
  obtain ⟨σ', fr', s', hwrite, hstore, hm', hargs, htemps⟩ :=
    hm.store hc₁.visible hset.names hset.bindings hx.type hbound
  have hrun : ∀ steps, runInst (callWith (runFrom m steps) m) f fr₁
      (d₁.function.nextInst .void (.store o v.operand)) s₁ = .ok fr' s' :=
    fun _ => (runInst_store rfl hx.operand).trans hstore
  have hk : Keeps d₁ fr₁ fr' := ⟨hargs, fun _ _ => by rw [htemps]⟩
  rw [bind_of_ok hwrite]
  exact ⟨fr', s', .emit hc₁.inv hl hw.function (.of_eq hrun) hm' hk,
    hx.later hk hemit.function.nextValue⟩

theorem call_runs (hp : Preserves sub) (hsub : Simulates m f depth globals sub ev height)
    (hset : Setting m f depth globals ctx) {callee : Node} {i : Nat} {vs : List Value}
    {g : Function} {d₁ : Draft} (named : (n.nth? 0).bind Node.identifier? = some callee)
    (known : d.module.functionIndex? callee.text = some i)
    (values : EmitsValues sub scope n.arguments d vs d₁)
    (function : d₁.module.functions[i]? = some g) (fits : vs.map (·.ty) = g.signature.params)
    (hn : ∀ a ∈ n.arguments, a.height ≤ height)
    (hst : Stands m f depth globals k pend scope d locals σ fr s)
    (hw : (d₁.emit g.signature.ret (.call i (vs.map (·.operand)))).Within m f)
    (hs' : (d₁.emit g.signature.ret (.call i (vs.map (·.operand)))).Scoped scope locals' globals) :
    Runs m f depth d fr s (d₁.emit g.signature.ret (.call i (vs.map (·.operand)))) locals'
      (Source.evalCall ctx ev n σ)
      (fun x fr' => Denotes (d₁.emit g.signature.ret (.call i (vs.map (·.operand)))) fr'
        (callResult d₁ g.signature.ret) x) := by
  obtain ⟨hc₁, -, -⟩ := emitsValues_preserves hp values hst.inv hst.visible
  cases locals_unique hc₁.visible hs' Draft.emit_scopes
  have hw₁ : d₁.Within m f := hw.back .emit
  obtain ⟨g', hg', hname, hsig⟩ := hw₁.module.functions function
  have hcallee : g'.name = callee.text := by
    obtain ⟨g₀, hg₀, e⟩ := Module.functionIndex?_some hst.inv.sane.indexed known
    cases (hc₁.grows.module.getElem? hg₀).symm.trans function
    rw [hname, e]
  simp only [Source.evalCall, named]
  refine (emitsValues_runs hp hsub values hn hst hw₁).bind hc₁.grows.function.nextValue
    fun xs σ₁ fr₁ s₁ hm hl hxs => ?_
  obtain ⟨hops, htys⟩ := operands_of_values hxs
  have hcall := hset.calls hg' (by rw [htys, fits, hsig]) hm.depth hm.globals
  rw [hcallee, CallEnds, hsig] at hcall
  cases hr : ctx.call callee.text xs σ₁ with
  | ok x σ' =>
    obtain ⟨hlocals, hret, s', ⟨enough, hev⟩, hstored, hdepth⟩ := hcall.of_ok hr
    have hrun : Eventually (fun steps => runInst (callWith (runFrom m steps) m) f fr₁
        (d₁.function.nextInst g.signature.ret (.call i (vs.map (·.operand)))) s₁)
        (.ok (fr₁.bind (d₁.function.nextInst g.signature.ret
          (.call i (vs.map (·.operand)))).result x) s') :=
      ⟨enough, fun steps hsteps => (runInst_call rfl hops).trans (bind_of_ok (hev steps hsteps))⟩
    have hm' : Match m f depth d₁ locals σ' fr₁ s' :=
      ⟨hdepth, hstored, hm.frame, hlocals ▸ hm.cells, hm.unused⟩
    refine ⟨_, s', .emit hc₁.inv hl hw.function hrun (hm'.bind_result _ _) (.bind d₁ fr₁ _ _ _), ?_⟩
    unfold callResult
    by_cases hvoid : g.signature.ret = .void
    · rw [if_pos hvoid]
      trivial
    · rw [if_neg hvoid]
      cases x with
      | none => exact absurd hret hvoid
      | some y => exact ValueAt.bind d₁ fr₁ _ hvoid hret
  | error e σ' =>
    obtain ⟨fault, s', hend, enough, hev⟩ := hcall.of_error hr
    have hrun : Eventually (fun steps => runInst (callWith (runFrom m steps) m) f fr₁
        (d₁.function.nextInst g.signature.ret (.call i (vs.map (·.operand)))) s₁)
        (.error fault s') :=
      ⟨enough, fun steps hsteps => (runInst_call rfl hops).trans (bind_of_error (hev steps hsteps))⟩
    exact ⟨_, hend, Draft.leadsTo_emit_error hc₁.inv hl hw.function hrun⟩

/-! ## Nodes -/

theorem emitsNode_simulates (hp : Preserves sub) (hsub : Simulates m f depth globals sub ev height)
    (hset : Setting m f depth globals ctx) :
    Simulates m f depth globals (fun n scope d r d' => EmitsNode sub scope n d r d')
      (Source.evalNode ctx ev) (height + 1) := by
  refine ⟨fun {n scope d d' r} h hn {k pend locals locals' σ fr s} hst hw hs' => ?_⟩
  have below : ∀ {c : Node}, c.height < n.height → c.height ≤ height := fun hc => by omega
  have unit : ∀ {d' : Draft} {x : Source.EvalM Unit},
      Runs m f depth d fr s d' locals' (x σ) (fun _ _ => True) →
      Runs m f depth d fr s d' locals' ((x >>= fun _ => pure none) σ)
        (fun v fr' => Denotes d' fr' .unit v) := fun hx => hx.map fun _ _ _ _ => trivial
  cases h with
  | sequence kind all =>
    rw [Source.evalNode_sequence ctx ev kind]
    refine unit (emitsAll_runs hp hsub all (fun c hc => ?_) hst hw hs')
    exact below (Node.height_lt_of_mem hc)
  | @wrapper inner _ _ kind children body =>
    have hinner : inner ∈ n.children := by simp [children]
    simp only [Source.evalNode, kind, children]
    exact hsub.step body (below (Node.height_lt_of_mem hinner)) hst hw hs'
  | literal reads =>
    cases locals_unique hst.visible hs' rfl
    rw [Source.evalNode_literal ctx ev reads]
    exact ⟨fr, s, .refl hst.state hst.live, rfl, rfl, nofun⟩
  | identifier kind bound object =>
    cases locals_unique hst.visible hs' Draft.emit_scopes
    simp only [Source.evalNode, kind]
    exact identifier_runs hset bound object hst hw
  | declaration kind type all =>
    simp only [Source.evalNode, kind]
    refine unit (emitsDeclarators_runs hp hsub (Node.specifiedType_ok type) all (fun c hc => ?_) hst
      hw hs')
    exact below (Node.height_declarators hc)
  | ifThen kind first second third value test arm =>
    simp only [Source.evalNode, kind]
    refine (ifThen_runs hp hsub first second third value test arm hn hst hw hs').mono ?_
    exact fun _ _ _ => trivial
  | ifElse kind first second third value test arm other =>
    simp only [Source.evalNode, kind]
    refine (ifElse_runs hp hsub first second third value test arm other hn hst hw hs').mono ?_
    exact fun _ _ _ => trivial
  | returnNothing kind nothing void =>
    simp only [Source.evalNode, kind, Source.evalReturn, nothing]
    exact ⟨_, .returned hst.state.globals hst.state.depth,
      Draft.leadsTo_close hst.inv hst.live hw.function (.of_eq fun _ => rfl)⟩
  | returnValue kind operand object value converts =>
    simp only [Source.evalNode, kind]
    exact returnValue_runs hp hsub hset operand value converts (below (Node.height_nth? operand)) hst
      hw
  | assignment kind first second identifier bound value fits =>
    simp only [Source.evalNode, kind]
    exact assignment_runs hp hsub hset first second bound value fits (below (Node.height_nth? second))
      hst hw hs'
  | call kind named known values function fits =>
    simp only [Source.evalNode, kind]
    exact call_runs hp hsub hset named known values function fits
      (fun c hc => below (Node.height_arguments hc)) hst hw hs'

/-- The code of a body runs as the body is evaluated. -/
theorem emits_simulates (hset : Setting m f depth globals ctx) (h : Nat) :
    ∀ height : Nat, Simulates m f depth globals (Emits h) (Source.evalWithin ctx height) height := by
  induction h with
  | zero =>
    intro height
    exact ⟨fun he => he.elim⟩
  | succ h ih =>
    intro height
    cases height with
    | zero =>
      refine ⟨fun {n scope d d' r} _ hn => ?_⟩
      exact absurd hn (Nat.not_le.2 n.height_pos)
    | succ height => exact emitsNode_simulates (emits_preserves h) (ih height) hset

end nodes

end bodies

end SlotIR
