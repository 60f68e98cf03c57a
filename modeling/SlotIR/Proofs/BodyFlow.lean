import SlotIR.Proofs.ControlFlow

/-!
# The ends of bodies, as they are built

What a tree says about the end of a statement is true of the draft that is built from it: the end of
the draft looks as `Source.flow` says, and control comes to it if it came to the start and
`Source.passes` says that it can go on (`Draft.Routes`). The step lemma is `emitsNode_routes`, with one
case for each construct; `emits_flowing` is the run lemma, and `Opens.ends` is about whole bodies.
-/

namespace SlotIR

open Source (Flow)

namespace Draft

variable {d d' d'' : Draft} {k : Nat} {pend : List Nat} {ty : Ty} {a : Action} {t : Terminator}

/-! ## From draft to draft -/

/-- From one draft to a later one: how its end changes, and whether control comes past. -/
structure Routes (change : Flow → Flow) (past : Bool) (d d' : Draft) : Prop where
  grafts : d.function.Grafts d'.function
  flow : d'.flow = change d.flow
  arrives : d'.Arrives ↔ d.Arrives ∧ past = true

/-- From one draft to a later one, if nothing but instructions was written. -/
structure Writes (d d' : Draft) : Prop where
  grafts : d.function.Grafts d'.function
  flow : d'.flow.emit = d.flow.emit
  arrives : d'.Arrives ↔ d.Arrives

namespace Routes

variable {change change' : Flow → Flow} {past past' : Bool}

theorem refl (d : Draft) : Routes id true d d :=
  ⟨.refl _, rfl, by simp⟩

theorem trans (h : Routes change past d d') (h' : Routes change' past' d' d'') :
    Routes (change' ∘ change) (past && past') d d'' where
  grafts := h.grafts.trans h'.grafts
  flow := by rw [h'.flow, h.flow, Function.comp]
  arrives := by rw [h'.arrives, h.arrives, Bool.and_eq_true, and_assoc]

/-- Slots, names and other functions do not count. -/
theorem of_eq (hb : d'.function.blocks = d.function.blocks) (hl : d'.function.layout = d.function.layout)
    (hc : d'.block = d.block) : Routes id true d d' := by
  have hclosed : d'.function.closedAt d'.block = d.function.closedAt d.block := by
    rw [hc, Function.closedAt, hb, Function.closedAt]
  have hkeeps : d.function.KeepsFlow d'.function := by
    refine .of_terminators hl fun i _ => ?_
    rw [Function.terminatorAt, hb, Function.terminatorAt]
  refine ⟨⟨Nat.le_of_eq (by rw [hb]), fun _ _ => hkeeps.entered, fun _ _ => hkeeps.reachable⟩, ?_, ?_⟩
  · unfold Draft.flow
    rw [hclosed, hc, if_congr hkeeps.entered rfl rfl]
    rfl
  · rw [Arrives, Arrives, hclosed, hc, hkeeps.reachable, and_iff_left rfl]

theorem emit (h : d.Inv k pend) : Routes Flow.emit true d (d.emit ty a) :=
  ⟨h.keepsFlow_emit.grafts Extends.emit.function, h.flow_emit, by simp [h.arrives_emit]⟩

theorem close (h : d.Inv k pend) (ht : t.successors = []) :
    Routes (fun _ => .term) false d (d.close t) :=
  ⟨(h.keepsFlow_close ht).grafts Extends.close.function, flow_of_closed h.closedAt_close,
    by simp [not_arrives_of_closed h.closedAt_close]⟩

theorem rescope (h : Routes change past d d') (c : ScopeChain) :
    Routes change past d { d' with scopes := c } :=
  ⟨h.grafts, h.flow, h.arrives⟩

theorem writes (h : Routes change true d d') (hc : ∀ s, (change s).emit = s.emit) : Writes d d' :=
  ⟨h.grafts, by rw [h.flow, hc], by simp [h.arrives]⟩

end Routes

namespace Writes

theorem refl (d : Draft) : Writes d d := ⟨.refl _, rfl, Iff.rfl⟩

theorem trans (h : Writes d d') (h' : Writes d' d'') : Writes d d'' :=
  ⟨h.grafts.trans h'.grafts, h'.flow.trans h.flow, h'.arrives.trans h.arrives⟩

theorem emit (h : Writes d d') (hi : d'.Inv k pend) : Routes Flow.emit true d (d'.emit ty a) where
  grafts := h.grafts.trans (Routes.emit hi).grafts
  flow := by rw [hi.flow_emit, h.flow]
  arrives := by rw [hi.arrives_emit, h.arrives, and_iff_left rfl]

theorem close (h : Writes d d') (hi : d'.Inv k pend) (ht : t.successors = []) :
    Routes (fun _ => .term) false d (d'.close t) where
  grafts := h.grafts.trans (Routes.close hi ht).grafts
  flow := (Routes.close hi ht).flow
  arrives := by simp [(Routes.close hi ht).arrives]

end Writes

/-! ## Arms of conditionals -/

/-- An arm from its start to the jump behind the conditional: if its end is open, the block `merge` is
entered from there. -/
structure Rejoins (merge : Nat) (last : Flow) (past : Bool) (d d' : Draft) : Prop where
  length : d.function.blocks.length ≤ d'.function.blocks.length
  entered : ∀ j < d.function.blocks.length,
    d'.function.Entered j ↔ d.function.Entered j ∨ j = merge ∧ last ≠ .term
  reachable : ∀ j < d.function.blocks.length,
    d'.function.Reachable j ↔ d.function.Reachable j ∨ j = merge ∧ d.Arrives ∧ past = true

namespace Rejoins

variable {merge : Nat} {last : Flow} {past : Bool} {f : Function}

/-- Blocks from before the conditional are out of reach. -/
theorem grafts (h : Rejoins merge last past d d') (hf : f.Grafts d.function)
    (hm : f.blocks.length ≤ merge) : f.Grafts d'.function where
  length := Nat.le_trans hf.length h.length
  entered j hj := by
    have hne : j ≠ merge := by omega
    rw [h.entered j (Nat.lt_of_lt_of_le hj hf.length), hf.entered j hj]
    simp [hne]
  reachable j hj := by
    have hne : j ≠ merge := by omega
    rw [h.reachable j (Nat.lt_of_lt_of_le hj hf.length), hf.reachable j hj]
    simp [hne]

theorem of_routes {change : Flow → Flow} (h : Routes change past d d') (hlive : d.flow = .live)
    (hi : d'.Inv k pend) (hm : merge ∈ pend) :
    Rejoins merge (change .live) past d (d'.fallThrough merge) where
  length := Nat.le_trans h.grafts.length (Extends.fallThrough merge).function.length_le
  entered j hj := by rw [hi.entered_fallThrough, h.grafts.entered j hj, h.flow, hlive]
  reachable j hj := by rw [hi.reachable_fallThrough hm, h.grafts.reachable j hj, h.arrives]

end Rejoins

/-! ### Branches -/

/-- A branch to the blocks `n` and `n + 1`, up to the start of the first of them. -/
structure Forks (n : Nat) (d d' : Draft) : Prop where
  grafts : d.function.Grafts d'.function
  length : d.function.blocks.length ≤ n
  flow : d'.flow = .live
  arrives : d'.Arrives ↔ d.Arrives
  entered : d'.function.Entered (n + 1)
  reachable : d'.function.Reachable (n + 1) ↔ d.Arrives
  unused : ∀ j, n + 1 < j → ¬ d'.function.Entered j

theorem Inv.forks {cond : Operand} {names : List String} (h : d.Inv k pend)
    (ho : d.function.closedAt d.block = false)
    (hc : d.module.Uses d.function d.defined cond .bool) (hn : names ≠ []) :
    Forks d.function.blocks.length d (d.fork cond names) := by
  -- control comes to both blocks that the branch goes to, if it comes to the branch
  have hreach : ∀ j, j = d.function.blocks.length ∨ j = d.function.blocks.length + 1 →
      ((d.fork cond names).function.Reachable j ↔ d.Arrives) := by
    intro j hj
    have hold : ¬ d.function.Reachable j := fun hr => by
      have := h.shape.entered_lt hr.entered
      omega
    rw [h.reachable_fork ho hc hn, or_iff_right hold, and_iff_right hj, Arrives, and_iff_right ho]
  refine ⟨⟨Extends.fork.function.length_le, fun j hj => ?_, fun j hj => ?_⟩, Nat.le_refl _, ?_, ?_, ?_,
    hreach _ (.inr rfl), fun j hj he => ?_⟩
  · rw [h.entered_fork ho hc hn]
    exact or_iff_left (by omega)
  · rw [h.reachable_fork ho hc hn]
    exact or_iff_left (by omega)
  · exact flow_of_live (h.fork_open ho hc hn) ((h.entered_fork ho hc hn).2 (.inr (.inl rfl)))
  · rw [Arrives, and_iff_right (h.fork_open ho hc hn)]
    exact hreach _ (.inl rfl)
  · exact (h.entered_fork ho hc hn).2 (.inr (.inr rfl))
  · rcases (h.entered_fork ho hc hn).1 he with he | he | he
    · have := h.shape.entered_lt he
      omega
    · omega
    · omega

theorem Writes.forks {n : Nat} (h : Writes d d') (h' : Forks n d' d'') : Forks n d d'' where
  grafts := h.grafts.trans h'.grafts
  length := Nat.le_trans h.grafts.length h'.length
  flow := h'.flow
  arrives := h'.arrives.trans h.arrives
  entered := h'.entered
  reachable := h'.reachable.trans h.arrives
  unused := h'.unused

end Draft

namespace Lowering

open Syntax (Node)
open Draft (Routes Writes)

/-! ## Emission -/

/-- What a tree says about the end of a node is true of the draft. A node that yields a value only
writes instructions. -/
structure Flowing (sub : Emission) : Prop where
  routes : ∀ {n : Node} {scope : ScopeId} {d d' : Draft} {r : Lowered}, sub n scope d r d' →
    ∀ {k : Nat} {pend : List Nat} {locals globals : List (String × Value)}, d.Inv k pend →
      d.Scoped scope locals globals → Routes (Source.flow n) (Source.passes n) d d'
  value : ∀ {n : Node} {scope : ScopeId} {d d' : Draft} {v : Value}, sub n scope d (.value v) d' →
    Source.passes n = true ∧ ∀ s, (Source.flow n s).emit = s.emit

section flowing

variable {k : Nat} {pend : List Nat} {scope : ScopeId} {locals globals : List (String × Value)}
  {d d' : Draft} {sub : Emission} (hp : Preserves sub) (hsub : Flowing sub)

include hsub in
theorem Flowing.writes {n : Node} {v : Value} (h : sub n scope d (.value v) d') (hi : d.Inv k pend)
    (hs : d.Scoped scope locals globals) : Writes d d' := by
  obtain ⟨hpass, hflow⟩ := hsub.value h
  have hr := hsub.routes h hi hs
  rw [hpass] at hr
  exact hr.writes hflow

theorem convertIn_writes {v w : Value} {ty : Ty} (hi : d.Inv k pend)
    (h : convertIn d v ty = some (w, d')) : Writes d d' := by
  unfold convertIn at h
  split at h
  · cases h
    exact .refl d
  · obtain ⟨op, -, e⟩ := Option.map_eq_some_iff.1 h
    cases e
    exact (Routes.emit hi).writes Flow.emit_emit

theorem conditionIn_writes {v : Value} {cond : Operand} (hi : d.Inv k pend)
    (hv : d.module.Uses d.function d.defined v.operand v.ty)
    (h : conditionIn d v = some (cond, d')) : Writes d d' := by
  obtain ⟨⟨x, d₁⟩, hc, e⟩ := Option.map_eq_some_iff.1 h
  cases e
  exact ((convertIn_writes hi hc).emit (convertIn_uses hi hv hc).1).writes Flow.emit_emit

include hp hsub

theorem emitsAll_routes {ns : List Node} (h : EmitsAll sub scope ns d d') :
    ∀ {locals : List (String × Value)}, d.Inv k pend → d.Scoped scope locals globals →
      Routes (Source.flowAll ns) (Source.passesAll ns) d d' := by
  induction h with
  | @nil d =>
    intro locals _ _
    exact .refl d
  | cons head tail ih =>
    intro locals hi hs
    obtain ⟨new, hc, -⟩ := hp.step head hi hs
    exact (hsub.routes head hi hs).trans (ih hc.inv hc.visible)

theorem emitsValues_writes {ns : List Node} {vs : List Value} (h : EmitsValues sub scope ns d vs d') :
    d.Inv k pend → d.Scoped scope locals globals → Writes d d' := by
  induction h with
  | @nil d =>
    intro _ _
    exact .refl d
  | cons head tail ih =>
    intro hi hs
    obtain ⟨new, hc, rfl, -⟩ := hp.step head hi hs
    exact (hsub.writes head hi hs).trans (ih hc.inv hc.visible)

theorem emitsDeclarator_routes {ty : Ty} {n : Node} (hty : ty = .void ∨ ty.isArithmetic = true)
    (h : EmitsDeclarator sub scope ty n d d') (hi : d.Inv k pend)
    (hs : d.Scoped scope locals globals) : Routes (Source.declaratorFlow · n) true d d' := by
  cases h with
  | prototype kind reads registers =>
    have hflow : (Source.declaratorFlow · n) = id := by
      funext s
      simp [Source.declaratorFlow, Source.initial?, kind]
    rw [hflow]
    exact .of_eq rfl rfl rfl
  | bare kind named object bare defines =>
    have hflow : (Source.declaratorFlow · n) = id := by
      funext s
      simp [Source.declaratorFlow, Source.initial?_eq, bare]
    rw [hflow]
    exact .of_eq rfl rfl rfl
  | @initialized name init v d₁ c kind named object initializer value fits defines =>
    have hflow : (Source.declaratorFlow · n) = Flow.emit := by
      funext s
      simp [Source.declaratorFlow, Source.initial?_eq, initializer]
    have hc := Continues.addSlot hi hs (s := varSlot name ty) (hty.resolve_left object)
    obtain ⟨new, hc₁, -⟩ := hp.step value hc.inv hc.visible
    have hslot : Routes id true d (d.addSlot (varSlot name ty)) := .of_eq rfl rfl rfl
    have hw := (hslot.writes fun _ => rfl).trans (hsub.writes value hc.inv hc.visible)
    rw [hflow]
    exact (hw.emit hc₁.inv).rescope c

theorem emitsDeclarators_routes {ty : Ty} {ns : List Node}
    (hty : ty = .void ∨ ty.isArithmetic = true) (h : EmitsDeclarators sub scope ty ns d d') :
    ∀ {locals : List (String × Value)}, d.Inv k pend → d.Scoped scope locals globals →
      Routes (fun s => ns.foldl Source.declaratorFlow s) true d d' := by
  induction h with
  | @nil d =>
    intro locals _ _
    exact .refl d
  | cons head tail ih =>
    intro locals hi hs
    obtain ⟨new, hc⟩ := emitsDeclarator_preserves hp hty head hi hs
    exact (emitsDeclarator_routes hp hsub hty head hi hs).trans (ih hc.inv hc.visible)

/-! ### Conditionals -/

theorem emitsArm_rejoins {arm : Node} {merge : Nat} (h : EmitsArm sub scope arm merge d d')
    (hm : merge ∈ pend) (hi : d.Inv k pend) (hs : d.Scoped scope locals globals)
    (hlive : d.flow = .live) :
    Draft.Rejoins merge (Source.flow arm .live) (Source.passes arm) d d' := by
  cases h with
  | @arm r d₁ body =>
    obtain ⟨new, hc, -⟩ := hp.step body (hi.rescope _) hs.enter
    have henter : Routes id true d (d.enter scope) := .of_eq rfl rfl rfl
    have hr := henter.trans (hsub.routes body (hi.rescope _) hs.enter)
    exact .of_routes (hr.rescope (d₁.scopes.pop d.scopes.opened)) hlive (hc.inv.rescope _) hm

theorem fork_forks {condNode : Node} {v : Value} {cond : Operand} {d₁ d₂ : Draft}
    {names : List String} (value : sub condNode scope d (.value v) d₁)
    (test : conditionIn d₁ v = some (cond, d₂)) (hn : names ≠ []) (hi : d.Inv k pend)
    (hs : d.Scoped scope locals globals) :
    Draft.Forks d₂.function.blocks.length d (d₂.fork cond names) := by
  obtain ⟨new, hc₁, rfl, hv, -⟩ := hp.step value hi hs
  obtain ⟨hi₂, -, -, hcond, ho⟩ := conditionIn_uses hc₁.inv hv test
  have hw := (hsub.writes value hi hs).trans (conditionIn_writes hc₁.inv hv test)
  exact hw.forks (hi₂.forks ho hcond hn)

theorem ifThen_routes {condNode thenNode : Node} {v : Value} {cond : Operand} {d₁ d₂ d₃ : Draft}
    (value : sub condNode scope d (.value v) d₁) (test : conditionIn d₁ v = some (cond, d₂))
    (arm : EmitsArm sub scope thenNode (d₂.function.blocks.length + 1) (d₂.fork cond ["merge"]) d₃)
    (hi : d.Inv k pend) (hs : d.Scoped scope locals globals) :
    Routes (fun _ => .live) true d (d₃.moveTo (d₂.function.blocks.length + 1)) := by
  have hne := List.cons_ne_nil "merge" []
  have hmerge : d₂.function.blocks.length + 1 ∈
      List.range' (d₂.function.blocks.length + 1) ["merge"].length ++ pend := by simp
  have hf := fork_preserves hp value test hne hi hs
  have hforks := fork_forks hp hsub value test hne hi hs
  have hlt := hf.inv.shape.lt_of_pend hmerge
  obtain ⟨hc, -⟩ := emitsArm_preserves hp arm hmerge hf.inv hf.visible
  have harm := emitsArm_rejoins hp hsub arm hmerge hf.inv hf.visible hforks.flow
  have hgrafts := harm.grafts hforks.grafts (Nat.le_succ_of_le hforks.length)
  refine ⟨hgrafts.trans ?_, ?_, ?_⟩
  · exact (hc.inv.keepsFlow_moveTo hmerge).grafts Draft.Extends.moveTo.function
  · rw [hc.inv.flow_moveTo hmerge]
    exact if_pos ((harm.entered _ hlt).2 (.inl hforks.entered))
  · rw [hc.inv.arrives_moveTo hmerge, harm.reachable _ hlt, hforks.reachable, hforks.arrives,
      and_iff_left rfl]
    exact or_iff_left_of_imp fun h => h.2.1

theorem ifElse_routes {condNode thenNode elseNode : Node} {v : Value} {cond : Operand}
    {d₁ d₂ d₃ d₄ : Draft} (value : sub condNode scope d (.value v) d₁)
    (test : conditionIn d₁ v = some (cond, d₂))
    (arm : EmitsArm sub scope thenNode (d₂.function.blocks.length + 2)
      (d₂.fork cond ["else", "merge"]) d₃)
    (other : EmitsArm sub scope elseNode (d₂.function.blocks.length + 2)
      (d₃.moveTo (d₂.function.blocks.length + 1)) d₄)
    (hi : d.Inv k pend) (hs : d.Scoped scope locals globals) :
    Routes (fun _ => .join [Source.flow thenNode .live, Source.flow elseNode .live])
      (Source.passes thenNode || Source.passes elseNode) d
      (d₄.moveTo (d₂.function.blocks.length + 2)) := by
  have hne := List.cons_ne_nil "else" ["merge"]
  have helse : d₂.function.blocks.length + 1 ∈
      List.range' (d₂.function.blocks.length + 1) ["else", "merge"].length ++ pend := by simp
  have hmerge : d₂.function.blocks.length + 2 ∈
      List.range' (d₂.function.blocks.length + 1) ["else", "merge"].length ++ pend := by simp
  have hf := fork_preserves hp value test hne hi hs
  have hforks := fork_forks hp hsub value test hne hi hs
  have hnew := hforks.unused (d₂.function.blocks.length + 2) (Nat.lt_succ_self _)
  -- the first arm, up to where the second one starts
  obtain ⟨hc, hclosed⟩ := emitsArm_preserves hp arm hmerge hf.inv hf.visible
  have harm := emitsArm_rejoins hp hsub arm hmerge hf.inv hf.visible hforks.flow
  have hthen := (hf.trans hc).moveTo hclosed
  have hkeeps := hc.inv.keepsFlow_moveTo helse
  have hlt := hf.inv.shape.lt_of_pend helse
  have hlive : (d₃.moveTo (d₂.function.blocks.length + 1)).flow = .live := by
    rw [hc.inv.flow_moveTo helse]
    exact if_pos ((harm.entered _ hlt).2 (.inl hforks.entered))
  have harrives : (d₃.moveTo (d₂.function.blocks.length + 1)).Arrives ↔ d.Arrives := by
    rw [hc.inv.arrives_moveTo helse, harm.reachable _ hlt, hforks.reachable]
    exact or_iff_left (by simp)
  -- the second arm
  have hmerge' : d₂.function.blocks.length + 2 ∈
      List.range' (d₂.function.blocks.length + 2) ["merge"].length ++ pend := by simp
  obtain ⟨hc', -⟩ := emitsArm_preserves hp other hmerge' hthen.inv hthen.visible
  have hother := emitsArm_rejoins hp hsub other hmerge' hthen.inv hthen.visible hlive
  have hgrafts := (harm.grafts hforks.grafts (Nat.le_add_right_of_le hforks.length)).trans
    (hkeeps.grafts Draft.Extends.moveTo.function)
  have hgrafts' := hother.grafts hgrafts (Nat.le_add_right_of_le hforks.length)
  have hlt' := hf.inv.shape.lt_of_pend hmerge
  have hlt'' := hthen.inv.shape.lt_of_pend hmerge'
  refine ⟨hgrafts'.trans ?_, ?_, ?_⟩
  · exact (hc'.inv.keepsFlow_moveTo hmerge').grafts Draft.Extends.moveTo.function
  · have hent : d₄.function.Entered (d₂.function.blocks.length + 2) ↔
        ¬ (Source.flow thenNode .live = .term ∧ Source.flow elseNode .live = .term) := by
      rw [hother.entered _ hlt'', hkeeps.entered, harm.entered _ hlt', or_iff_right hnew, not_and_or]
      simp
    rw [hc'.inv.flow_moveTo hmerge', Flow.join_pair, if_congr hent rfl rfl, ite_not]
  · have hold : ¬ (d₂.fork cond ["else", "merge"]).function.Reachable
        (d₂.function.blocks.length + 2) := fun hr => hnew hr.entered
    rw [hc'.inv.arrives_moveTo hmerge', hother.reachable _ hlt'', hkeeps.reachable,
      harm.reachable _ hlt', or_iff_right hold, harrives, hforks.arrives, and_iff_right rfl,
      and_iff_right rfl, ← and_or_left, Bool.or_eq_true]

/-! ### Nodes -/

omit hp in
theorem emitsNode_value {n : Node} {v : Value} (h : EmitsNode sub scope n d (.value v) d') :
    Source.passes n = true ∧ ∀ s, (Source.flow n s).emit = s.emit := by
  have plain : n.kind ∈ [.identifier, .assignmentExpression, .functionCall] →
      Source.passes n = true ∧ ∀ s, (Source.flow n s).emit = s.emit := fun hk =>
    ⟨Source.passes_plain (List.mem_cons_of_mem _ hk), fun s => by
      rw [Source.flow_emits hk, Flow.emit_emit]⟩
  generalize hr : Lowered.value v = r at h
  cases h with
  | wrapper kind children body =>
    subst hr
    obtain ⟨hpass, hflow⟩ := hsub.value body
    refine ⟨(Source.passes_wrapper kind children).trans hpass, fun s => ?_⟩
    rw [Source.flow_wrapper kind children, hflow]
  | literal reads =>
    exact ⟨Source.passes_literal reads, fun s => by rw [Source.flow_literal reads]⟩
  | identifier kind | assignment kind | call kind => exact plain (by simp [kind])
  | sequence | declaration | ifThen | ifElse | returnNothing | returnValue => cases hr

theorem emitsNode_routes {n : Node} {r : Lowered} (h : EmitsNode sub scope n d r d')
    (hi : d.Inv k pend) (hs : d.Scoped scope locals globals) :
    Routes (Source.flow n) (Source.passes n) d d' := by
  have hemits : n.kind ∈ [.identifier, .assignmentExpression, .functionCall] →
      Routes Flow.emit true d d' → Routes (Source.flow n) (Source.passes n) d d' := by
    intro hk hr
    rw [funext (Source.flow_emits hk), Source.passes_plain (List.mem_cons_of_mem _ hk)]
    exact hr
  have hreturns : n.kind = .returnExpr → Routes (fun _ => .term) false d d' →
      Routes (Source.flow n) (Source.passes n) d d' := by
    intro hk hr
    rw [funext (Source.flow_return hk), Source.passes_return hk]
    exact hr
  cases h with
  | sequence kind all =>
    rw [funext (Source.flow_sequence kind), Source.passes_sequence kind]
    exact emitsAll_routes hp hsub all hi hs
  | wrapper kind children body =>
    rw [funext (Source.flow_wrapper kind children), Source.passes_wrapper kind children]
    exact hsub.routes body hi hs
  | literal reads =>
    rw [funext (Source.flow_literal reads), Source.passes_literal reads]
    exact .refl d
  | identifier kind bound object => exact hemits (by simp [kind]) (.emit hi)
  | declaration kind type all =>
    rw [funext (Source.flow_declaration kind), Source.passes_plain (by simp [kind])]
    exact emitsDeclarators_routes hp hsub (Node.specifiedType_ok type) all hi hs
  | ifThen kind first second third value test arm =>
    rw [funext (Source.flow_ifThen kind second third), Source.passes_ifThen kind second third]
    exact ifThen_routes hp hsub value test arm hi hs
  | ifElse kind first second third value test arm other =>
    rw [funext (Source.flow_ifElse kind second third), Source.passes_ifElse kind second third]
    exact ifElse_routes hp hsub value test arm other hi hs
  | returnNothing kind nothing void => exact hreturns kind (.close hi rfl)
  | returnValue kind operand object value converts =>
    obtain ⟨new, hc₁, rfl, hv, -⟩ := hp.step value hi hs
    have hw := (hsub.writes value hi hs).trans (convertIn_writes hc₁.inv converts)
    exact hreturns kind (hw.close (convertIn_uses hc₁.inv hv converts).1 rfl)
  | assignment kind first second identifier bound value fits =>
    obtain ⟨new, hc₁, -⟩ := hp.step value hi hs
    exact hemits (by simp [kind]) ((hsub.writes value hi hs).emit hc₁.inv)
  | call kind named known values function fits =>
    obtain ⟨hc₁, -⟩ := emitsValues_preserves hp values hi hs
    exact hemits (by simp [kind]) ((emitsValues_writes hp hsub values hi hs).emit hc₁.inv)

end flowing

theorem emits_flowing : ∀ h : Nat, Flowing (Emits h)
  | 0 => ⟨fun he => he.elim, fun he => he.elim⟩
  | h + 1 => ⟨fun he _ _ _ _ hi hs => emitsNode_routes (emits_preserves h) (emits_flowing h) he hi hs,
      fun he => emitsNode_value (emits_flowing h) he⟩

/-! ## Bodies -/

theorem spills_writes {k : Nat} {pend : List Nat} {scope : ScopeId}
    {globals : List (String × Value)} {ps : List (Node × Ty)} : ∀ {d d' : Draft} {i : Nat}
    {locals : List (String × Value)}, Spills scope i ps d d' → d.Inv k pend →
      d.Scoped scope locals globals → (∀ p ∈ ps, p.2.isArithmetic = true) →
      (d.function.signature.params.drop i = ps.map (·.2)) → Writes d d' := by
  induction ps with
  | nil =>
    intro d d' i locals h _ _ _ _
    cases h
    exact .refl d
  | cons p ps ih =>
    intro d d' i locals h hi hs hps hparams
    cases h with
    | @cons _ name ty _ _ _ c defines rest =>
      obtain ⟨hty, hps⟩ := List.forall_mem_cons.1 hps
      obtain ⟨hp, hrest⟩ := param_of_drop hparams
      have hc := spill_preserves hi hs hty hp defines
      rw [← hc.grows.function.signature] at hrest
      have hslot : Routes id true d (d.addSlot (argSlot name ty i)) := .of_eq rfl rfl rfl
      have hspill : Routes Flow.emit true d ((d.addSlot (argSlot name ty i)).emit .void
          (.store (nextSlot d ty).operand (.arg i))) := (hslot.writes fun _ => rfl).emit (hi.addSlot hty)
      exact ((hspill.rescope c).writes Flow.emit_emit).trans (ih rest hc.inv hc.visible hps hrest)

section body

variable {h k : Nat} {file : File} {scope : ScopeId} {f : Function} {params : List (Node × Ty)}
  {body : Node} {d₁ d₂ : Draft} {r : Lowered}

/-- What the tree says about the end of a body is true of the block that the body ends in. -/
theorem Opens.ends (ho : Opens file scope k f params)
    (hsp : Spills file.scopes.opened 0 params ((file.start f params).enter scope) d₁)
    (he : Emits h body file.scopes.opened d₁ r d₂) :
    d₂.flow = Source.flow body .live ∧ (d₂.Arrives ↔ Source.passes body = true) := by
  have hentry : (file.start f params).function.entry? = some 0 := rfl
  have hopen : (file.start f params).function.closedAt 0 = false := rfl
  have hflow : ((file.start f params).enter scope).flow = .live := Draft.flow_of_live hopen (.inl hentry)
  have harrives : ((file.start f params).enter scope).Arrives := ⟨hopen, 0, hentry, .refl⟩
  obtain ⟨new, hc⟩ := ho.spills_continues hsp
  have hw := spills_writes hsp ho.start_inv ho.start_scoped ho.arithmetic ho.types
  have hr := (emits_flowing h).routes he hc.inv hc.visible
  have hlive : d₁.flow = .live := by
    rw [← Flow.emit_eq_live, hw.flow, hflow]
    rfl
  rw [hr.flow, hlive, hr.arrives, hw.arrives]
  exact ⟨rfl, and_iff_right harrives⟩

end body

end Lowering

end SlotIR
