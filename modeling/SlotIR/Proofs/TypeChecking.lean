import SlotIR.Proofs.CheckAgreement

/-!
# Lowering accepts what the checker accepts

Every construct is lowered and checked in lockstep, provided that the nodes below it are
(`Checking.lowerNode_agrees`), hence every tree is. So a tree that verification does not refuse has
a module if and only if it passes the checker, and otherwise both find the same error first
(`Checking.generate_iff_typecheck`).
-/

namespace SlotIR.Checking

open Syntax (Node)
open Lowering (Error Lowered Lower)
open Builder

/-! ## Nodes below a node -/

/-- The type of what lowering a node yields. -/
def valueType? : Lowered → Option Ty
  | .value v => some v.ty
  | .unit | .function _ => none

/-- Lowering and checking agree on every node. -/
def Matches (lower : Lower) (check : Check) : Prop :=
  ∀ (n : Node) {p : Place} {b : Builder} {s : Static}, Views p b s →
    Agrees p b.module (fun r o => valueType? r = o) (lower n p.scope b) (check n s)

section nodes

variable {p : Place} {b : Builder} {s : Static} {lower : Lower} {check : Check}
  (hm : Matches lower check)
include hm

theorem lowerValue_agrees (hv : Views p b s) {n : Node} :
    Agrees p b.module (fun v ty => v.ty = ty) (Lowering.lowerValue lower n p.scope b)
      (checkValue check n s) := by
  unfold Lowering.lowerValue checkValue
  refine (hm n hv).bind ?_
  rintro r o b₁ s₁ rfl hv₁ -
  cases r with
  | value v => exact agrees_pure hv₁ rfl
  | unit | function => exact fail_agrees

theorem lowerValues_agrees {ns : List Node} : ∀ {b : Builder} {s : Static}, Views p b s →
    Agrees p b.module (fun vs tys => vs.map (·.ty) = tys)
      (Lowering.lowerValues lower p.scope ns b) (checkValues check ns s) := by
  induction ns with
  | nil =>
    intro b s hv
    exact agrees_pure hv rfl
  | cons n ns ih =>
    intro b s hv
    unfold Lowering.lowerValues checkValues
    refine (lowerValue_agrees hm hv).bind ?_
    rintro v ty b₁ s₁ rfl hv₁ -
    refine (ih hv₁).bind ?_
    rintro vs tys b₂ s₂ rfl hv₂ -
    exact agrees_pure hv₂ rfl

theorem lowerAll_agrees {ns : List Node} : ∀ {b : Builder} {s : Static}, Views p b s →
    Agrees p b.module (fun _ _ => True) (Lowering.lowerAll lower p.scope ns b)
      (checkAll check ns s) := by
  induction ns with
  | nil =>
    intro b s hv
    exact agrees_pure hv trivial
  | cons n ns ih =>
    intro b s hv
    unfold Lowering.lowerAll checkAll
    exact (hm n hv).bind fun _ _ _ _ _ hv₁ _ => ih hv₁

/-! ### Declarations -/

theorem lowerLocal_agrees (hv : Views p b s) (he : p.enclosing ≠ none) {name : Node} {ty : Ty}
    (ha : ty.isArithmetic = true) {init : Option Node} :
    Agrees p b.module (fun _ _ => True) (Lowering.lowerLocal lower name ty init p.scope b)
      (checkLocal check name ty init s) := by
  unfold Lowering.lowerLocal checkLocal
  refine Agrees.get ?_
  rw [hv.binds_eq]
  by_cases hbound : b.scopes.binds p.scope name.text = true
  · rw [if_pos hbound, if_pos hbound]
    exact fail_agrees
  rw [if_neg hbound, if_neg hbound]
  refine Agrees.after (addSlot_quiet (hv.inBody he)) fun slot b₁ hslot hk => ?_
  have hv₁ := hv.keep hk
  cases init with
  | none => exact bindVariable_agrees hv₁ hslot ha
  | some init =>
    refine (lowerValue_agrees hm hv₁).bind ?_
    rintro v found b₂ s₂ rfl hv₂ -
    refine (expectType_agrees hv₂).bind fun _ _ b₃ s₃ _ hv₃ _ => ?_
    refine (store_agrees hv₃).bind fun _ _ b₄ s₄ _ hv₄ _ => ?_
    exact bindVariable_agrees hv₄ hslot ha

theorem lowerVariable_agrees (hv : Views p b s) {ty : Ty}
    (hty : ty = .void ∨ ty.isArithmetic = true) {d : Node} :
    Agrees p b.module (fun _ _ => True) (Lowering.lowerVariable lower ty d p.scope b)
      (checkVariable check ty d s) := by
  unfold Lowering.lowerVariable checkVariable
  rw [Source.initial?_eq]
  cases d.identifier? with
  | none => exact fail_agrees
  | some name =>
    dsimp only
    by_cases hvoid : ty = .void
    · rw [if_pos hvoid, if_pos hvoid]
      exact fail_agrees
    rw [if_neg hvoid, if_neg hvoid]
    have ha := hty.resolve_left hvoid
    refine Agrees.get ?_
    rw [hv.enclosing]
    cases hc : b.cursor with
    | none =>
      rw [hv.outside hc]
      exact lowerGlobal_agrees hv ha
    | some c =>
      obtain ⟨f, -, he, -⟩ := hv.inside c hc
      rw [he]
      exact lowerLocal_agrees hm hv (by simp [he]) ha

theorem lowerDeclarators_agrees {ty : Ty} (hty : ty = .void ∨ ty.isArithmetic = true)
    {ds : List Node} : ∀ {b : Builder} {s : Static}, Views p b s →
      Agrees p b.module (fun _ _ => True) (Lowering.lowerDeclarators lower ty p.scope ds b)
        (checkDeclarators check ty ds s) := by
  induction ds with
  | nil =>
    intro b s hv
    exact agrees_pure hv trivial
  | cons d ds ih =>
    intro b s hv
    unfold Lowering.lowerDeclarators checkDeclarators
    by_cases hk : d.kind = .functionDeclarator
    · rw [if_pos hk, if_pos hk]
      exact (lowerPrototype_agrees hv).bind fun _ _ _ _ _ hv₁ _ => ih hv₁
    · rw [if_neg hk, if_neg hk]
      exact (lowerVariable_agrees hm hv hty).bind fun _ _ _ _ _ hv₁ _ => ih hv₁

theorem lowerDeclaration_agrees (hv : Views p b s) {n : Node} :
    Agrees p b.module (fun r o => valueType? r = o) (Lowering.lowerDeclaration lower n p.scope b)
      (checkDeclaration check n s) := by
  unfold Lowering.lowerDeclaration checkDeclaration
  refine (accept_agrees hv _).bind ?_
  rintro ty _ b₁ s₁ ⟨hty, rfl⟩ hv₁ -
  refine (lowerDeclarators_agrees hm (Node.specifiedType_ok hty) hv₁).bind ?_
  exact fun _ _ b₂ s₂ _ hv₂ _ => agrees_pure hv₂ rfl

/-! ### Definitions -/

omit hm in
theorem spillParams_agrees {params : List (Node × Ty)} :
    ∀ {i : Nat} {b : Builder} {s : Static}, (∀ q ∈ params, q.2.isArithmetic = true) →
      p.enclosing ≠ none → Views p b s →
      Agrees p b.module (fun _ _ => True) (Lowering.spillParams p.scope i params b)
        (bindParams params s) := by
  induction params with
  | nil =>
    intro i b s _ _ hv
    exact agrees_pure hv trivial
  | cons q params ih =>
    intro i b s ha he hv
    obtain ⟨hq, hrest⟩ := List.forall_mem_cons.1 ha
    unfold Lowering.spillParams bindParams
    refine Agrees.after (addSlot_quiet (hv.inBody he)) fun slot b₁ hslot hk₁ => ?_
    have hv₁ := hv.keep hk₁
    have hstore : Quiet b₁ (store slot ⟨.arg i, q.2⟩ b₁) (fun _ => True) :=
      (pushInst_quiet (hv₁.inBody he)).bind fun _ _ _ _ => quiet_pure trivial
    refine Agrees.after hstore fun _ b₂ _ hk₂ => ?_
    refine (bindVariable_agrees (hv₁.keep hk₂) hslot hq).bind fun _ _ b₃ s₃ _ hv₃ _ => ?_
    exact ih hrest he hv₃

/-- A body from its parameters to its end. -/
theorem bodyText_agrees (hv : Views p b s) (he : p.enclosing ≠ none) {params : List (Node × Ty)}
    (ha : ∀ q ∈ params, q.2.isArithmetic = true) (body : Node) (ret : Ty) :
    Agrees p b.module (fun _ _ => True)
      (inChildScope p.scope (fun inner => Lowering.spillParams inner 0 params >>= fun _ =>
        lower body inner >>= fun _ => Lowering.closeBody ret) b)
      (inScope (bindParams params >>= fun _ => check body >>= fun _ => pure ()) s) := by
  refine inChildScope_agrees ?_
  refine Agrees.bind (spillParams_agrees ha he hv.push) fun _ _ b₁ s₁ _ hv₁ _ => ?_
  refine (hm body hv₁).bind fun _ _ b₂ s₂ _ hv₂ _ => ?_
  exact Agrees.quiet (closeBody_quiet (hv₂.inBody he)) hv₂ fun _ _ => trivial

theorem lowerBody_agrees (hv : Views p b s) (he : p.enclosing = none) {k : Nat} {f : Function}
    (hf : b.module.functions[k]? = some f) {params : List (Node × Ty)}
    (ha : ∀ q ∈ params, q.2.isArithmetic = true) (body : Node) :
    Agrees p b.module (fun _ _ => True)
      (Lowering.lowerBody lower k f.name params f.signature.ret body p.scope b)
      (checkBody check f.name params f.signature.ret body s) := by
  have hk := (List.getElem?_eq_some_iff.1 hf).1
  have hc := hv.cursor_of_none he
  unfold Lowering.lowerBody
  refine .bind_eq (modifyFunction_of_some hf _) ?_
  refine .bind_eq (enterFunction_of_some (Draft.getElem?_put hk) _) ?_
  rw [Draft.put_put, hc]
  have hv₁ := hv.enter (g := { f with
      paramNames := params.map (·.1.text)
      blocks := f.blocks ++ [{ name := f.name ++ "_block" }]
      layout := f.layout ++ [f.blocks.length] }) hf rfl rfl (by simp [Function.hasBody])
    f.blocks.length
  have htext := bodyText_agrees hm hv₁ (Option.some_ne_none _) ha body f.signature.ret
  refine Agrees.grow ?_ (leave_agrees he htext)
  exact Lowering.put_grows hf rfl rfl

theorem lowerDefinition_agrees (hv : Views p b s) {n : Node} :
    Agrees p b.module (fun r o => valueType? r = o) (Lowering.lowerDefinition lower n p.scope b)
      (checkDefinition check n s) := by
  unfold Lowering.lowerDefinition checkDefinition
  rcases n.nth? 0 with _ | specifiers
  · exact fail_agrees
  rcases n.child? .functionDeclarator with _ | declarator
  · exact fail_agrees
  rcases n.child? .compoundStatement with _ | body
  · exact fail_agrees
  refine (accept_agrees hv _).bind ?_
  rintro ret _ b₁ s₁ ⟨hret, rfl⟩ hv₁ -
  refine (accept_agrees hv₁ _).bind ?_
  rintro decl _ b₂ s₂ ⟨hdecl, rfl⟩ hv₂ -
  refine Agrees.get ?_
  rw [hv₂.enclosing]
  cases hc : b₂.cursor with
  | some c =>
    obtain ⟨f, hf, he, -⟩ := hv₂.inside c hc
    rw [he]
    exact .bind_eq (function_of_some hf) fail_agrees
  | none =>
    have he := hv₂.outside hc
    rw [he]
    refine (accept_agrees hv₂ _).bind ?_
    rintro params _ b₃ s₃ ⟨hparams, rfl⟩ hv₃ -
    refine declareFunction_agrees hv₃ fun k f b₄ s₄ hf hname hsig hv₄ => ?_
    refine .bind_eq (function_of_some hf) ?_
    by_cases hbody : f.hasBody = true
    · rw [if_pos hbody, if_pos (show (known f).hasBody = true from hbody)]
      exact fail_agrees
    rw [if_neg hbody, if_neg (show ¬ (known f).hasBody = true from hbody)]
    have ha : ∀ q ∈ params, q.2.isArithmetic = true := by
      intro q hq
      have hty : q.2 ∈ decl.params.map (·.ty) := by
        rw [(Lowering.namedParams_ok hparams).1]
        exact List.mem_map_of_mem hq
      obtain ⟨param, hparam, e⟩ := List.mem_map.1 hty
      rw [← e]
      exact Node.functionDeclarator_ok hdecl param hparam
    have hlower := lowerBody_agrees hm hv₄ he hf ha body
    rw [hname, hsig] at hlower
    refine hlower.bind fun _ _ b₅ s₅ _ hv₅ _ => ?_
    exact verifyLowered_agrees hv₅ rfl

/-! ### Calls and statements -/

theorem lowerCall_agrees (hv : Views p b s) {n : Node} :
    Agrees p b.module (fun r o => valueType? r = o) (Lowering.lowerCall lower n p.scope b)
      (checkCall check n s) := by
  unfold Lowering.lowerCall checkCall
  cases (n.nth? 0).bind Node.identifier? with
  | none => exact fail_agrees
  | some callee =>
  refine Agrees.get ?_
  cases hf : b.module.functionIndex? callee.text with
  | none =>
    rw [hv.lookup_of_noIndex hf]
    exact fail_agrees
  | some i =>
  obtain ⟨f, hi, -, hl⟩ := hv.lookup_of_index hf
  rw [hl]
  refine (lowerValues_agrees hm hv).bind ?_
  rintro vs tys b₁ s₁ rfl hv₁ hg
  -- what was known of the callee before its arguments still holds
  obtain ⟨f₁, hi₁, -, hsig⟩ := hg.functions hi
  refine .bind_eq (function_of_some hi₁) ?_
  rw [hsig, List.length_map]
  by_cases hlen : vs.length ≠ f.signature.params.length
  · rw [if_pos hlen, if_pos (show vs.length ≠ (known f).signature.params.length from hlen)]
    exact fail_agrees
  rw [if_neg hlen, if_neg (show ¬ vs.length ≠ (known f).signature.params.length from hlen)]
  refine Agrees.bind (expectTypes_agrees hv₁) fun _ _ b₂ s₂ _ hv₂ hg₂ => ?_
  obtain ⟨f₂, hi₂, -, hsig₂⟩ := hg₂.functions hi₁
  have hcall : Agrees p b₂.module
      (fun r _ => r.map (·.ty) = if f.signature.ret = .void then none else some f.signature.ret)
      (Builder.call i (vs.map (·.operand)) b₂) (emit s₂) := by
    unfold Builder.call
    refine .bind_eq (function_of_some hi₂) ?_
    rw [hsig₂, hsig]
    refine (pushInst_agrees hv₂).then_quiet ?_
    rintro r _ b' s' ⟨hr, -⟩ -
    refine quiet_pure ?_
    cases r with
    | none => rw [if_pos (hr.1 rfl)]; rfl
    | some o => rw [if_neg fun h => by cases hr.2 h]; rfl
  refine hcall.bind fun r _ b₃ s₃ hr hv₃ _ => ?_
  cases r with
  | none => exact agrees_pure hv₃ hr
  | some v => exact agrees_pure hv₃ hr

theorem lowerArm_agrees (hv : Views p b s) (he : p.enclosing ≠ none) {arm : Node}
    {block merge : Nat} :
    Agrees p b.module (fun _ _ => True) (Lowering.lowerArm lower arm p.scope block merge b)
      (inScope (check arm) s) := by
  unfold Lowering.lowerArm
  refine Agrees.after (positionAtEnd_quiet (hv.inBody he)) fun _ b₁ _ hk => ?_
  refine (inChildScope_agrees (hm arm (hv.keep hk).push)).then_quiet fun _ _ b₂ s₂ _ hv₂ => ?_
  exact fallThrough_quiet (hv₂.inBody he)

/-- After the condition a body is certain, so that blocks can be added without asking. -/
theorem lowerIf_agrees (hv : Views p b s) {n : Node} :
    Agrees p b.module (fun r o => valueType? r = o) (Lowering.lowerIf lower n p.scope b)
      (checkIf check n s) := by
  unfold Lowering.lowerIf checkIf
  rcases n.nth? 0 with _ | condNode
  · exact fail_agrees
  rcases n.nth? 1 with _ | thenNode
  · exact fail_agrees
  refine (lowerValue_agrees hm hv).bind ?_
  rintro v ty b₁ s₁ rfl hv₁ -
  refine (lowerCondition_agrees hv₁).bind fun cond _ b₂ s₂ he hv₂ _ => ?_
  have inside : ∀ {b' s'}, Views p b' s' → InBody b' := fun h => h.inBody he
  refine Agrees.after (appendBlock_quiet (inside hv₂)) fun thenBlock b₃ _ hk₃ => ?_
  have hv₃ := hv₂.keep hk₃
  rcases n.nth? 2 with _ | elseNode
  · refine Agrees.after (createBlock_quiet (inside hv₃)) fun merge b₄ _ hk₄ => ?_
    have hv₄ := hv₃.keep hk₄
    refine Agrees.after (terminate_quiet (inside hv₄)) fun _ b₅ _ hk₅ => ?_
    refine (lowerArm_agrees hm (hv₄.keep hk₅) he).bind fun _ _ b₆ s₆ _ hv₆ _ => ?_
    refine Agrees.after (attachBlock_quiet (inside hv₆)) fun _ b₇ _ hk₇ => ?_
    have hv₇ := hv₆.keep hk₇
    refine Agrees.after (positionAtEnd_quiet (inside hv₇)) fun _ b₈ _ hk₈ => ?_
    exact agrees_pure (hv₇.keep hk₈) rfl
  · refine Agrees.after (createBlock_quiet (inside hv₃)) fun elseBlock b₄ _ hk₄ => ?_
    have hv₄ := hv₃.keep hk₄
    refine Agrees.after (createBlock_quiet (inside hv₄)) fun merge b₅ _ hk₅ => ?_
    have hv₅ := hv₄.keep hk₅
    refine Agrees.after (terminate_quiet (inside hv₅)) fun _ b₆ _ hk₆ => ?_
    refine (lowerArm_agrees hm (hv₅.keep hk₆) he).bind fun _ _ b₇ s₇ _ hv₇ _ => ?_
    refine Agrees.after (attachBlock_quiet (inside hv₇)) fun _ b₈ _ hk₈ => ?_
    refine (lowerArm_agrees hm (hv₇.keep hk₈) he).bind fun _ _ b₉ s₉ _ hv₉ _ => ?_
    refine Agrees.after (attachBlock_quiet (inside hv₉)) fun _ b₁₀ _ hk₁₀ => ?_
    have hv₁₀ := hv₉.keep hk₁₀
    refine Agrees.after (positionAtEnd_quiet (inside hv₁₀)) fun _ b₁₁ _ hk₁₁ => ?_
    exact agrees_pure (hv₁₀.keep hk₁₁) rfl

theorem lowerReturn_agrees (hv : Views p b s) {n : Node} :
    Agrees p b.module (fun r o => valueType? r = o) (Lowering.lowerReturn lower n p.scope b)
      (checkReturn check n s) := by
  unfold Lowering.lowerReturn checkReturn
  refine Agrees.get ?_
  rw [hv.enclosing]
  cases hc : b.cursor with
  | none =>
    rw [hv.outside hc]
    exact fail_agrees
  | some c =>
  obtain ⟨f, hf, he, -⟩ := hv.inside c hc
  have hne : p.enclosing ≠ none := by simp [he]
  rw [he]
  refine .bind_eq (function_of_some hf) ?_
  cases n.nth? 0 with
  | none =>
    dsimp only
    by_cases hvoid : f.signature.ret = .void
    · rw [if_pos hvoid, if_pos hvoid]
      refine Agrees.after (terminate_quiet (hv.inBody hne)) fun _ b₁ _ hk => ?_
      exact agrees_pure (hv.keep hk) rfl
    · rw [if_neg hvoid, if_neg hvoid]
      exact fail_agrees
  | some e =>
    refine (lowerValue_agrees hm hv).bind ?_
    rintro v ty b₁ s₁ rfl hv₁ -
    by_cases hvoid : f.signature.ret = .void
    · rw [if_pos hvoid, if_pos hvoid]
      exact fail_agrees
    · rw [if_neg hvoid, if_neg hvoid]
      refine (convert_agrees hv₁).bind fun w _ b₂ s₂ _ hv₂ _ => ?_
      refine Agrees.after (terminate_quiet (hv₂.inBody hne)) fun _ b₃ _ hk => ?_
      exact agrees_pure (hv₂.keep hk) rfl

theorem lowerAssignment_agrees (hv : Views p b s) {n : Node} :
    Agrees p b.module (fun r o => valueType? r = o) (Lowering.lowerAssignment lower n p.scope b)
      (checkAssignment check n s) := by
  unfold Lowering.lowerAssignment checkAssignment
  rcases n.nth? 0 with _ | target
  · exact fail_agrees
  rcases n.nth? 1 with _ | e
  · exact fail_agrees
  dsimp only
  by_cases hid : target.unwrapped.kind ≠ .identifier
  · rw [if_pos hid, if_pos hid]
    exact fail_agrees
  rw [if_neg hid, if_neg hid]
  refine (lowerAddress_agrees hv).bind ?_
  rintro ⟨o, t⟩ ty b₁ s₁ ⟨ht, -⟩ hv₁ -
  cases ht
  refine (lowerValue_agrees hm hv₁).bind ?_
  rintro v found b₂ s₂ rfl hv₂ -
  refine Agrees.bind (expectType_agrees hv₂) fun _ _ b₃ s₃ _ hv₃ _ => ?_
  refine (store_agrees hv₃).bind fun _ _ b₄ s₄ _ hv₄ _ => ?_
  exact agrees_pure hv₄ rfl

/-! ## Trees -/

theorem lowerNode_agrees : Matches (Lowering.lowerNode lower) (checkNode check) := by
  intro n p b s hv
  have hseq : Agrees p b.module (fun r o => valueType? r = o)
      (Lowering.lowerSequence lower n p.scope b)
      ((checkAll check n.children >>= fun _ => pure none) s) :=
    (lowerAll_agrees hm hv).bind fun _ _ _ _ _ hv₁ _ => agrees_pure hv₁ rfl
  unfold Lowering.lowerNode checkNode
  cases hk : n.kind with
  | translationUnit | statementList | compoundStatement | declarationList => exact hseq
  | functionDefinition => exact lowerDefinition_agrees hm hv
  | declaration => exact lowerDeclaration_agrees hm hv
  | ifElseStatement => exact lowerIf_agrees hm hv
  | returnExpr => exact lowerReturn_agrees hm hv
  | assignmentExpression => exact lowerAssignment_agrees hm hv
  | functionCall => exact lowerCall_agrees hm hv
  | expression =>
    rcases n.children with _ | ⟨inner, _ | ⟨c, cs⟩⟩
    · exact fail_agrees
    · exact hm inner hv
    · exact fail_agrees
  | int | float | char => exact agrees_pure hv rfl
  | identifier =>
    refine (lowerIdentifier_agrees hv).bind ?_
    rintro v ty b₁ s₁ rfl hv₁ -
    exact agrees_pure hv₁ rfl
  | _ => exact fail_agrees

end nodes

theorem lowerWithin_agrees : ∀ h : Nat, Matches (Lowering.lowerWithin h) (checkWithin h)
  | 0 => by
    intro n p b s hv err h
    cases h
  | h + 1 => lowerNode_agrees (lowerWithin_agrees h)

/-! ## Files -/

/-- The place of the items of a file. -/
def Place.file : Place := { scope := 0, outer := [], enclosing := none }

theorem initial_views (name : String) :
    Views .file (Lowering.File.initial name).builder { scopes := [[]] } := by
  obtain ⟨top, hn, -⟩ := (Lowering.initial_inv name).nested
  exact ⟨⟨top, [], hn, rfl⟩, rfl, nofun, rfl, rfl, List.nodup_nil, ⟨rfl, rfl⟩, rfl, fun _ => rfl, nofun⟩

theorem lowerRoot_agrees (name : String) (root : Node) :
    Ends (Lowering.lowerRoot root (fresh name)) (fun _ _ => typecheck root = .ok ())
      (fun e _ => ∀ err, e = .error err → err.cause.OfTree → typecheck root = .error e) := by
  unfold Lowering.lowerRoot typecheck checkRoot
  by_cases hk : root.kind ≠ .translationUnit
  · rw [if_pos hk, if_pos hk]
    rintro _ ⟨⟩ -
    rfl
  rw [if_neg hk, if_neg hk]
  have hroot := (lowerWithin_agrees root.height root (initial_views name)).bind
    (f := fun _ => pure ()) (g := fun _ => pure ()) (Q := fun _ _ => True)
    fun _ _ _ _ _ hv _ => agrees_pure hv trivial
  refine Ends.mono hroot ?_ ?_
  · rintro _ b ⟨v, s, hs, -⟩
    rw [hs]
  · intro e b h err he ht
    obtain ⟨s, hs⟩ := h err he ht
    rw [hs]

theorem typecheck_of_ok {name : String} {root : Node} {m : Module}
    (h : Lowering.generate name root = .ok m) : typecheck root = .ok () := by
  unfold Lowering.generate at h
  cases hr : Lowering.lowerRoot root (fresh name) with
  | ok u b =>
    have hc := Ends.of_ok (lowerRoot_agrees name root) hr
    exact hc
  | error e b =>
    rw [hr] at h
    cases h

theorem typecheck_of_error {name : String} {root : Node} {failure : Lowering.Failure} {err : Error}
    (h : Lowering.generate name root = .error failure) (he : failure.fault = .error err)
    (ht : err.cause.OfTree) : typecheck root = .error (.error err) := by
  obtain ⟨b, hb, -⟩ := Lowering.generate_error h
  rw [← he]
  exact Ends.of_error (lowerRoot_agrees name root) hb err he ht

/-- Generation is only ever stopped by an error. -/
theorem generate_stops {name : String} {root : Node} {failure : Lowering.Failure}
    (h : Lowering.generate name root = .error failure) : ∃ err, failure.fault = .error err := by
  obtain ⟨b, hb, -⟩ := Lowering.generate_error h
  rcases Ends.of_error (Lowering.lowerRoot_builds name root) hb with
    ⟨err, he, -⟩ | ⟨f, block, he, -⟩
  · exact ⟨err, he⟩
  · exact ⟨_, he⟩

/-- A tree that verification does not refuse has a module if and only if the checker accepts it.
Otherwise generation fails with the error that the checker finds first, and the checker always finds
an error of the tree. -/
theorem generate_iff_typecheck {name : String} {root : Node}
    (hv : ∀ failure err, Lowering.generate name root = .error failure →
      failure.fault = .error err → err.cause.OfTree) :
    ((∃ m, Lowering.generate name root = .ok m) ↔ typecheck root = .ok ()) ∧
    (∀ err, (∃ failure, Lowering.generate name root = .error failure ∧
      failure.fault = .error err) ↔ typecheck root = .error (.error err)) ∧
    ∀ fault, typecheck root = .error fault → ∃ err, fault = .error err ∧ err.cause.OfTree := by
  cases hg : Lowering.generate name root with
  | ok m =>
    have hc := typecheck_of_ok hg
    rw [hc]
    refine ⟨⟨fun _ => rfl, fun _ => ⟨m, rfl⟩⟩, fun err => ⟨?_, ?_⟩, ?_⟩
    · rintro ⟨_, h, -⟩
      cases h
    · intro h
      cases h
    · intro _ h
      cases h
  | error failure =>
    obtain ⟨err, he⟩ := generate_stops hg
    have ht := hv failure err hg he
    have hc := typecheck_of_error hg he ht
    rw [hc]
    refine ⟨⟨?_, ?_⟩, fun err' => ⟨?_, ?_⟩, ?_⟩
    · rintro ⟨_, h⟩
      cases h
    · intro h
      cases h
    · rintro ⟨_, ⟨⟩, he'⟩
      rw [← he, he']
    · rintro ⟨⟩
      exact ⟨failure, rfl, he⟩
    · rintro _ ⟨⟩
      exact ⟨err, rfl, ht⟩

/-- A global, a prototype, and a function that hides the global in a scope and then returns a call
of itself with the given arguments. -/
def callerTree (args : List Node) : Node :=
  let specifiers (ty : String) :=
    Lowering.branchNode .declarationSpecifiers [Lowering.leaf .typeSpecifier ty]
  let declarator := Lowering.branchNode .functionDeclarator [Lowering.leaf .identifier "f",
    Lowering.branchNode .parameterList [
      Lowering.branchNode .parameterDeclaration [specifiers "int", Lowering.leaf .identifier "a"],
      Lowering.branchNode .parameterDeclaration [specifiers "float",
        Lowering.leaf .identifier "b"]]]
  Lowering.branchNode .translationUnit [
    Lowering.branchNode .declaration [specifiers "int",
      Lowering.branchNode .initDeclarator [Lowering.leaf .identifier "g", Lowering.leaf .int "3"]],
    Lowering.branchNode .declaration [specifiers "int", declarator],
    Lowering.branchNode .functionDefinition [specifiers "int", declarator,
      Lowering.branchNode .compoundStatement [
        Lowering.branchNode .ifElseStatement [Lowering.leaf .identifier "b",
          Lowering.branchNode .compoundStatement [
            Lowering.branchNode .declaration [specifiers "char",
              Lowering.branchNode .initDeclarator [Lowering.leaf .identifier "g",
                Lowering.leaf .char "'c'"]],
            Lowering.branchNode .returnExpr [Lowering.leaf .identifier "g"]]],
        Lowering.branchNode .returnExpr [Lowering.branchNode .functionCall [
          Lowering.leaf .identifier "f", Lowering.branchNode .argumentExpressionList args]]]]]

/-- With two arguments of the right types the tree is a program. With one that is not defined, both
find that before they count. -/
theorem caller_typecheck :
    (∃ m, Lowering.generate "caller" (callerTree [Lowering.leaf .identifier "g",
      Lowering.leaf .float "2.5"]) = .ok m) ∧
    ∃ failure, Lowering.generate "caller" (callerTree [Lowering.leaf .identifier "y"]) =
      .error failure ∧ failure.fault = .error ⟨none, .undefinedIdentifier "y"⟩ := by
  have hgood : typecheck (callerTree [Lowering.leaf .identifier "g", Lowering.leaf .float "2.5"]) =
      .ok () := by decide +kernel
  have hbad : typecheck (callerTree [Lowering.leaf .identifier "y"]) =
      .error (.error ⟨none, .undefinedIdentifier "y"⟩) := by decide +kernel
  have hpass : (Lowering.generate "caller" (callerTree [Lowering.leaf .identifier "g",
      Lowering.leaf .float "2.5"])).isOk = true := by decide +kernel
  have hfault : (Lowering.generate "caller" (callerTree [Lowering.leaf .identifier "y"])).mapError
      (·.fault) = .error (.error ⟨none, .undefinedIdentifier "y"⟩) := by decide +kernel
  constructor
  · refine (generate_iff_typecheck fun failure err hg _ => ?_).1.2 hgood
    rw [hg] at hpass
    cases hpass
  · refine ((generate_iff_typecheck fun failure err hg he => ?_).2.1 _).2 hbad
    rw [hg] at hfault
    cases he.symm.trans (Except.error.inj hfault)
    rintro _ ⟨⟩

end SlotIR.Checking
