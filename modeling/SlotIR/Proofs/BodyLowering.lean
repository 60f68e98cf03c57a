import SlotIR.Proofs.Building
import SlotIR.Proofs.Emission

/-!
# Lowering inside of a body

The lowering of a node in a body either stops with an error of the tree or writes what `Emits`
describes (`lowerWithin_lowersAs`). In particular it never stops for want of depth, of a block or of a
function, and never because of what was verified.
-/

namespace SlotIR.Lowering

open Syntax (Node Span)
open Builder

/-! ## Errors of the tree -/

/-- A cause that is not the outcome of verification. -/
def Cause.OfTree (c : Cause) : Prop := ∀ e, c ≠ .verification e

/-- An error of the tree, as opposed to a fault of lowering or of the module. -/
def OfTree (e : Fault Error) : Prop := ∃ err : Error, e = .error err ∧ err.cause.OfTree

section errors

variable {α : Type} {b : Builder} {P : α → Builder → Prop}

theorem fail_ends {span : Option Span} {cause : Cause} (h : cause.OfTree) :
    Ends (fail span cause b) P (fun e _ => OfTree e) :=
  ⟨⟨span, cause⟩, rfl, h⟩

theorem malformed_ends {span : Option Span} {how : Malformation} :
    Ends (malformed span how b) P (fun e _ => OfTree e) :=
  fail_ends nofun

theorem liftError_ends {x : Except Error α} (h : ∀ e, x = .error e → e.cause.OfTree) :
    Ends (liftError x b) (fun a b' => b' = b ∧ x = .ok a) (fun e _ => OfTree e) := by
  cases x with
  | ok a => exact ⟨rfl, rfl⟩
  | error e => exact ⟨e, rfl, h e rfl⟩

end errors

section reading

variable {n : Node} {e : Error}

theorem primitiveType_error {name : String} {span : Option Span}
    (h : Syntax.primitiveType name span = .error e) : e.cause.OfTree := by
  unfold Syntax.primitiveType at h
  split at h <;> cases h
  nofun

theorem specifiedType_error (h : n.specifiedType = .error e) : e.cause.OfTree := by
  unfold Node.specifiedType at h
  split at h
  · cases h
    nofun
  · exact primitiveType_error h

theorem paramsOf_error {ns : List Node} (h : Syntax.paramsOf ns = .error e) : e.cause.OfTree := by
  induction ns with
  | nil => cases h
  | cons n ns ih =>
    unfold Syntax.paramsOf at h
    cases hty : n.specifiedType with
    | error e' =>
      simp only [hty, bind, Except.bind, Except.error.injEq] at h
      subst h
      exact specifiedType_error hty
    | ok ty =>
      cases hps : Syntax.paramsOf ns with
      | error e' =>
        simp only [hty, hps, bind, Except.bind, Except.error.injEq] at h
        subst h
        exact ih hps
      | ok ps => simp [hty, hps, bind, Except.bind, pure, Except.pure] at h

theorem functionDeclarator_error (h : n.functionDeclarator = .error e) : e.cause.OfTree := by
  unfold Node.functionDeclarator at h
  split at h
  · cases h
    nofun
  · cases hl : n.child? .parameterList with
    | none =>
      simp only [hl] at h
      cases h
    | some list =>
      simp only [hl] at h
      cases hp : Syntax.paramsOf list.children with
      | error e' =>
        simp only [hp, bind, Except.bind, Except.error.injEq] at h
        subst h
        exact paramsOf_error hp
      | ok ps =>
        simp only [hp, bind, Except.bind] at h
        split at h
        · cases h
          nofun
        · cases h

end reading

/-! ## Values -/

section body

variable {k : Nat} {pend : List Nat} {scope : ScopeId} {locals globals : List (String × Value)}
  {d : Draft}

/-- A step that stops with an error of the tree, or goes on to a draft that satisfies `P`. -/
abbrev Steps {α : Type} (k : Nat) (r : EStateM.Result (Fault Error) Builder α)
    (P : α → Draft → Prop) : Prop :=
  EndsIn (fun d : Draft => d.builder k) r P (fun e _ => OfTree e)

theorem liftError_steps {α : Type} {x : Except Error α}
    (h : ∀ e, x = .error e → e.cause.OfTree) :
    Steps k (liftError x (d.builder k)) (fun a d' => d' = d ∧ x = .ok a) := by
  refine Ends.mono (liftError_ends h) ?_ fun _ _ h => h
  rintro a b ⟨rfl, e⟩
  exact ⟨d, rfl, rfl, e⟩

theorem placed_of_inv (hi : d.Inv k pend) : d.Placed k := by
  obtain ⟨g, hg, -⟩ := hi.base
  exact ⟨(List.getElem?_eq_some_iff.1 hg).1, hi.shape.lt_of_layout hi.shape.cur_mem,
    fun i hl => hi.shape.lt_of_layout hl⟩

theorem lowerAddress_steps {n : Node} :
    Steps k (lowerAddress n scope (d.builder k))
      (fun a d' => d' = d ∧ d.scopes.lookup? scope n.text = some a) := by
  unfold lowerAddress
  rw [bind_of_ok (get_run _)]
  cases hl : (d.builder k).scopes.lookup? scope n.text with
  | none => exact fail_ends nofun
  | some a => exact ⟨d, rfl, rfl, hl⟩

/-- An instruction that must have a result. -/
theorem typedResult_steps (hp : d.Placed k) (ty : Ty) (a : Action) :
    Steps k ((pushInst ty a >>= fun r => typedResult r ty) (d.builder k))
      (fun v d' => v = ⟨.temp d.function.nextValue, ty⟩ ∧ d' = d.emit ty a ∧ ty ≠ .void) := by
  rw [bind_of_ok (Draft.pushInst_builder hp ty a)]
  by_cases hv : ty = .void
  · rw [if_pos hv]
    exact malformed_ends
  · rw [if_neg hv]
    exact ⟨_, rfl, rfl, rfl, hv⟩

theorem lowerIdentifier_steps (hp : d.Placed k) {n : Node} :
    Steps k (lowerIdentifier n scope (d.builder k))
      (fun v d' => ∃ o ty, d.scopes.lookup? scope n.text = some ⟨o, .ptr ty⟩ ∧ ty ≠ .void ∧
        v = ⟨.temp d.function.nextValue, ty⟩ ∧ d' = d.emit ty (.load o)) := by
  unfold lowerIdentifier
  refine lowerAddress_steps.bind ?_
  rintro ⟨o, t⟩ d' ⟨rfl, hl⟩
  unfold load
  cases t with
  | ptr ty =>
    refine (typedResult_steps hp ty (.load o)).mono ?_
    rintro v d' ⟨rfl, rfl, hne⟩
    exact ⟨o, ty, hl, hne, rfl, rfl⟩
  | _ => exact malformed_ends

theorem convert_steps (hp : d.Placed k) {v : Value} {ty : Ty} {context : TypeContext}
    {span : Option Span} :
    Steps k (convert v ty context span (d.builder k))
      (fun w d' => convertIn d v ty = some (w, d')) := by
  unfold convert convertIn
  by_cases e : v.ty = ty
  · rw [if_pos e, if_pos e]
    exact ⟨d, rfl, rfl⟩
  · rw [if_neg e, if_neg e]
    cases hc : conversion? v.ty ty with
    | none => exact fail_ends nofun
    | some op =>
      refine (typedResult_steps hp ty (.cast op v.operand)).mono ?_
      rintro w d' ⟨rfl, rfl, -⟩
      rfl

theorem store_builder (hp : d.Placed k) {a v : Value} :
    store a v (d.builder k) =
      .ok () ((d.emit .void (.store a.operand v.operand)).builder k) := by
  unfold store
  rw [bind_of_ok (Draft.pushInst_builder hp _ _)]
  rfl

theorem expectType_steps {v : Value} {ty : Ty} {context : TypeContext} {span : Option Span} :
    Steps k (expectType v ty context span (d.builder k)) (fun _ d' => d' = d ∧ v.ty = ty) := by
  unfold expectType
  by_cases e : v.ty = ty
  · rw [if_pos e]
    exact ⟨d, rfl, rfl, e⟩
  · rw [if_neg e]
    exact fail_ends nofun

theorem convertIn_placed {v w : Value} {ty : Ty} {d' : Draft} (hi : d.Inv k pend)
    (hv : d.module.Uses d.function d.defined v.operand v.ty)
    (h : convertIn d v ty = some (w, d')) : d'.Placed k :=
  placed_of_inv (convertIn_uses hi hv h).1

theorem lowerCondition_steps (hi : d.Inv k pend) {v : Value} {span : Option Span}
    (hv : d.module.Uses d.function d.defined v.operand v.ty) :
    Steps k (lowerCondition v span (d.builder k))
      (fun c d' => conditionIn d v = some (c.operand, d')) := by
  have hp := placed_of_inv hi
  have hcast : ∀ op, conversion? v.ty .float = some op → v.ty ≠ .float →
      Steps k (cast op v .float (d.builder k)) (fun x d' => convertIn d v .float = some (x, d')) := by
    intro op hop hne
    refine (typedResult_steps hp .float (.cast op v.operand)).mono ?_
    rintro w d' ⟨rfl, rfl, -⟩
    rw [convertIn, if_neg hne, hop]
    rfl
  have hcompare : ∀ x d', convertIn d v .float = some (x, d') →
      Steps k (compare x (.const (.float (.zero false))) (d'.builder k))
        (fun c d'' => conditionIn d v = some (c.operand, d'')) := by
    intro x d' hx
    refine (typedResult_steps (convertIn_placed hi hv hx) .bool _).mono ?_
    rintro c d'' ⟨rfl, rfl, -⟩
    rw [conditionIn, hx]
    rfl
  unfold lowerCondition
  cases ht : v.ty with
  | int => exact (hcast .signedToFloat (by rw [ht]; rfl) (by simp [ht])).bind hcompare
  | char => exact (hcast .unsignedToFloat (by rw [ht]; rfl) (by simp [ht])).bind hcompare
  | float => exact hcompare v d (by rw [convertIn, if_pos ht])
  | _ => exact fail_ends nofun

/-! ## Lists of nodes -/

/-- Nodes of at most height `h` are lowered as `sub` says. -/
structure LowersAs (lower : Lower) (sub : Emission) (h : Nat) : Prop where
  preserves : Preserves sub
  steps : ∀ {n : Node}, n.height ≤ h → ∀ {k : Nat} {pend : List Nat} {scope : ScopeId}
    {locals globals : List (String × Value)} {d : Draft}, d.Inv k pend →
    d.Scoped scope locals globals →
    Steps k (lower n scope (d.builder k)) (fun r d' => sub n scope d r d')

variable {lower : Lower} {sub : Emission} {h : Nat}

theorem lowerValue_steps (hl : LowersAs lower sub h) {n : Node} (hn : n.height ≤ h)
    (hi : d.Inv k pend) (hs : d.Scoped scope locals globals) :
    Steps k (lowerValue lower n scope (d.builder k)) (fun v d' => sub n scope d (.value v) d') := by
  unfold lowerValue
  refine (hl.steps hn hi hs).bind fun r d' hr => ?_
  cases r with
  | value v => exact ⟨d', rfl, hr⟩
  | unit => exact fail_ends nofun
  | function i => exact fail_ends nofun

theorem lowerAll_steps (hl : LowersAs lower sub h) {ns : List Node} :
    ∀ {locals : List (String × Value)} {d : Draft}, (∀ n ∈ ns, n.height ≤ h) → d.Inv k pend →
      d.Scoped scope locals globals →
      Steps k (lowerAll lower scope ns (d.builder k)) (fun _ d' => EmitsAll sub scope ns d d') := by
  induction ns with
  | nil =>
    intro locals d _ _ _
    exact ⟨d, rfl, .nil⟩
  | cons n ns ih =>
    intro locals d hh hi hs
    obtain ⟨hn, hns⟩ := List.forall_mem_cons.1 hh
    unfold lowerAll
    refine (hl.steps hn hi hs).bind fun r d₁ hr => ?_
    obtain ⟨new, hc, -⟩ := hl.preserves.step hr hi hs
    exact (ih hns hc.inv hc.visible).mono fun _ d' ht => .cons hr ht

theorem lowerValues_steps (hl : LowersAs lower sub h) {ns : List Node} :
    ∀ {d : Draft}, (∀ n ∈ ns, n.height ≤ h) → d.Inv k pend → d.Scoped scope locals globals →
      Steps k (lowerValues lower scope ns (d.builder k))
        (fun vs d' => EmitsValues sub scope ns d vs d') := by
  induction ns with
  | nil =>
    intro d _ _ _
    exact ⟨d, rfl, .nil⟩
  | cons n ns ih =>
    intro d hh hi hs
    obtain ⟨hn, hns⟩ := List.forall_mem_cons.1 hh
    unfold lowerValues
    refine (lowerValue_steps hl hn hi hs).bind fun v d₁ hv => ?_
    obtain ⟨new, hc, rfl, -⟩ := hl.preserves.step hv hi hs
    refine (ih hns hc.inv hc.visible).bind fun vs d' hvs => ?_
    exact ⟨d', rfl, .cons hv hvs⟩

/-! ## Declarations -/

theorem put_addFunction {m : Module} {f : Function} (hk : k < m.functions.length) (name : String)
    (sig : Signature) : (m.put k f).addFunction name sig = (m.addFunction name sig).put k f := by
  unfold Module.addFunction Module.put
  rw [List.set_append_left _ _ hk]
  simp only [List.length_set]

/-- Every function that is registered can be looked up, and has the signature it is registered
with. -/
theorem function_eq (hi : d.Inv k pend) {i : Nat} {g : Function}
    (hg : d.module.functions[i]? = some g) :
    ∃ f, Builder.function i (d.builder k) = .ok f (d.builder k) ∧ f.signature = g.signature := by
  by_cases hik : i = k
  · subst hik
    obtain ⟨g', hg', -, hsig⟩ := hi.base
    cases hg.symm.trans hg'
    exact ⟨d.function, Draft.function_builder (placed_of_inv hi).index, hsig.symm⟩
  · refine ⟨g, ?_, rfl⟩
    show present ((d.module.put k d.function).function i) (d.builder k) = _
    rw [Module.function, Draft.getElem?_put_of_ne hik, hg]
    rfl

theorem declareFunction_steps (hi : d.Inv k pend) {name : Node} {sig : Signature} :
    Steps k (declareFunction name sig (d.builder k))
      (fun i d' => ∃ m, d' = { d with module := m } ∧ d.module.Registers name.text sig m i) := by
  have hidx : (d.builder k).module.functionIndex? name.text = d.module.functionIndex? name.text := rfl
  unfold declareFunction
  rw [bind_of_ok (get_run _), hidx]
  cases hgl : d.module.globalIndex? name.text with
  | some j =>
    rw [if_pos (by rw [show (d.builder k).module.globalIndex? name.text = _ from hgl]; rfl)]
    exact fail_ends nofun
  | none =>
    rw [if_neg (by rw [show (d.builder k).module.globalIndex? name.text = _ from hgl]; simp)]
    cases hf : d.module.functionIndex? name.text with
    | none =>
      have hk := (placed_of_inv hi).index
      refine ⟨{ d with module := d.module.addFunction name.text sig }, ?_, _, rfl, ?_⟩
      · show { d.builder k with module := (d.module.put k d.function).addFunction name.text sig } = _
        rw [put_addFunction hk]
        rfl
      · have hlen : (d.builder k).module.functions.length = d.module.functions.length := by
          simp [Draft.builder, Module.put]
        rw [hlen]
        exact .new hgl hf ((Module.functionIndex?_none hi.sane.indexed).1 hf)
    | some i =>
      obtain ⟨f, hf', hname⟩ := Module.functionIndex?_some hi.sane.indexed hf
      obtain ⟨f', hf'', hsig⟩ := function_eq hi hf'
      dsimp only
      rw [bind_of_ok hf'']
      by_cases e : f'.signature ≠ sig
      · rw [if_pos e]
        exact fail_ends (by rintro _ ⟨⟩)
      · rw [if_neg e]
        refine ⟨d, rfl, _, rfl, .known hgl hf hf' ?_ hname⟩
        rw [← hsig]
        exact Decidable.not_not.1 e

theorem bindVariable_steps {name : Node} {address : Value} :
    Steps k (bindVariable name address scope (d.builder k))
      (fun _ d' => ∃ c, d.scopes.define? scope name.text address = some c ∧
        d' = { d with scopes := c }) := by
  unfold bindVariable
  cases hd : d.scopes.define? scope name.text address with
  | none =>
    rw [bind_of_ok (define_of_none hd)]
    exact fail_ends nofun
  | some c =>
    rw [bind_of_ok (define_of_some hd)]
    exact ⟨{ d with scopes := c }, rfl, c, rfl, rfl⟩

theorem lowerPrototype_steps (hi : d.Inv k pend) {ty : Ty} {n : Node}
    (hk : n.kind = .functionDeclarator) :
    Steps k (lowerPrototype ty n (d.builder k))
      (fun _ d' => EmitsDeclarator sub scope ty n d d') := by
  unfold lowerPrototype
  refine (liftError_steps fun e he => functionDeclarator_error he).bind ?_
  rintro decl d' ⟨rfl, hdecl⟩
  refine (declareFunction_steps hi).bind ?_
  rintro i d'' ⟨m, rfl, hr⟩
  exact ⟨_, rfl, .prototype hk hdecl hr⟩

theorem addSlot_inv (hi : d.Inv k pend) {ty : Ty} (hty : ty = .void ∨ ty.isArithmetic = true)
    (hne : ty ≠ .void) (name : Node) : (d.addSlot (varSlot name ty)).Inv k pend :=
  hi.addSlot (s := varSlot name _) (hty.resolve_left hne)

theorem lowerLocal_steps (hl : LowersAs lower sub h) {n name : Node} (hn : n.height ≤ h) {ty : Ty}
    (hk : n.kind ≠ .functionDeclarator) (hid : n.identifier? = some name)
    (hty : ty = .void ∨ ty.isArithmetic = true) (hv : ty ≠ .void) (hi : d.Inv k pend)
    (hs : d.Scoped scope locals globals) :
    Steps k (lowerLocal lower name ty n.initializer? scope (d.builder k))
      (fun _ d' => EmitsDeclarator sub scope ty n d d') := by
  unfold lowerLocal
  rw [bind_of_ok (get_run _)]
  by_cases hb : (d.builder k).scopes.binds scope name.text = true
  · rw [if_pos hb]
    exact fail_ends nofun
  rw [if_neg hb, bind_of_ok (Draft.addSlot_builder (placed_of_inv hi).index _ _ _)]
  cases hinit : n.initializer? with
  | none =>
    refine bindVariable_steps.mono ?_
    rintro _ d' ⟨c, hd, rfl⟩
    exact .bare hk hid hv hinit hd
  | some init =>
    have hi₁ := addSlot_inv hi hty hv name
    have hs₁ : (d.addSlot (varSlot name ty)).Scoped scope locals globals :=
      hs.extend ⟨.addSlot _ _, .refl _⟩ rfl
    have hheight := Node.height_initializer? hinit
    refine (lowerValue_steps hl (by omega) hi₁ hs₁).bind fun v d₁ hval => ?_
    refine expectType_steps.bind ?_
    rintro _ d' ⟨rfl, hvt⟩
    obtain ⟨new, hc, -⟩ := hl.preserves.step hval hi₁ hs₁
    rw [bind_of_ok (store_builder (placed_of_inv hc.inv))]
    refine bindVariable_steps.mono ?_
    rintro _ d'' ⟨c, hd, rfl⟩
    rw [Draft.emit_scopes] at hd
    exact .initialized hk hid hv hinit hval hvt hd

theorem lowerVariable_steps (hl : LowersAs lower sub h) {n : Node} (hn : n.height ≤ h) {ty : Ty}
    (hk : n.kind ≠ .functionDeclarator) (hty : ty = .void ∨ ty.isArithmetic = true)
    (hi : d.Inv k pend) (hs : d.Scoped scope locals globals) :
    Steps k (lowerVariable lower ty n scope (d.builder k))
      (fun _ d' => EmitsDeclarator sub scope ty n d d') := by
  unfold lowerVariable
  cases hid : n.identifier? with
  | none => exact malformed_ends
  | some name =>
    dsimp only
    by_cases hv : ty = .void
    · rw [if_pos hv]
      exact fail_ends nofun
    · rw [if_neg hv, bind_of_ok (get_run _)]
      exact lowerLocal_steps hl hn hk hid hty hv hi hs

theorem lowerDeclarators_steps (hl : LowersAs lower sub h) {ty : Ty}
    (hty : ty = .void ∨ ty.isArithmetic = true) {ns : List Node} :
    ∀ {locals : List (String × Value)} {d : Draft}, (∀ n ∈ ns, n.height ≤ h) → d.Inv k pend →
      d.Scoped scope locals globals →
      Steps k (lowerDeclarators lower ty scope ns (d.builder k))
        (fun _ d' => EmitsDeclarators sub scope ty ns d d') := by
  induction ns with
  | nil =>
    intro locals d _ _ _
    exact ⟨d, rfl, .nil⟩
  | cons n ns ih =>
    intro locals d hh hi hs
    obtain ⟨hn, hns⟩ := List.forall_mem_cons.1 hh
    have hrest : ∀ (_ : Unit) d₁, EmitsDeclarator sub scope ty n d d₁ →
        Steps k (lowerDeclarators lower ty scope ns (d₁.builder k))
          (fun _ d' => EmitsDeclarators sub scope ty (n :: ns) d d') := by
      intro _ d₁ hd
      obtain ⟨new, hc⟩ := emitsDeclarator_preserves hl.preserves hty hd hi hs
      exact (ih hns hc.inv hc.visible).mono fun _ d' ht => .cons hd ht
    unfold lowerDeclarators
    by_cases hk : n.kind = .functionDeclarator
    · rw [if_pos hk]
      exact (lowerPrototype_steps hi hk).bind hrest
    · rw [if_neg hk]
      exact (lowerVariable_steps hl hn hk hty hi hs).bind hrest

/-! ## Control -/

theorem fallThrough_builder (hp : d.Placed k) (target : Nat) :
    fallThrough target (d.builder k) = .ok () ((d.fallThrough target).builder k) := by
  unfold fallThrough
  rw [bind_of_ok (Draft.isTerminated_builder hp.index)]
  unfold Draft.fallThrough
  cases d.function.closedAt d.block with
  | true => rfl
  | false => exact Draft.terminate_builder hp _

/-- The scope that a step runs in is closed when the step is over. -/
theorem inChildScope_steps {α : Type} {body : ScopeId → BuildM α} {P : α → Draft → Prop}
    (hb : Steps k (body d.scopes.opened ((d.enter scope).builder k)) P) :
    Steps k (inChildScope scope body (d.builder k))
      (fun a d' => ∃ d₁, P a d₁ ∧ d' = d₁.leave d.scopes.opened) := by
  cases hr : body d.scopes.opened ((d.enter scope).builder k) with
  | ok a b' =>
    obtain ⟨d₁, rfl, hp⟩ := hb.of_ok hr
    exact .of_eq (inChildScope_of_ok (b := d.builder k) hr) ⟨d₁, hp, rfl⟩
  | error e b' =>
    rw [inChildScope_of_error (b := d.builder k) hr]
    exact hb.of_error hr

theorem lowerArm_steps (hl : LowersAs lower sub h) {arm : Node} (hn : arm.height ≤ h)
    {block merge : Nat} (hi : { d with block }.Inv k pend)
    (hs : { d with block }.Scoped scope locals globals) :
    Steps k (lowerArm lower arm scope block merge (d.builder k))
      (fun _ d' => EmitsArm sub scope arm merge { d with block } d') := by
  unfold lowerArm
  rw [bind_of_ok (Draft.positionAtEnd_builder block)]
  refine (inChildScope_steps (hl.steps hn (hi.rescope _) hs.enter)).bind ?_
  rintro r d' ⟨d₁, hr, rfl⟩
  obtain ⟨new, hc, -⟩ := hl.preserves.step hr (hi.rescope _) hs.enter
  have hp := placed_of_inv (hc.inv.rescope (d₁.scopes.pop d.scopes.opened))
  exact .of_eq (fallThrough_builder hp merge) (.arm hr)

/-! ### Conditionals -/

/-- The blocks of a conditional, created and laid out in the order of `lowerIf`. -/
def conditionalBlocks (d : Draft) (names : List String) : Draft :=
  { d with
    function := names.foldl Function.addBlock
      ((d.function.addBlock "then").place d.function.blocks.length) }

theorem addBlocks_place {names : List String} {i : Nat} : ∀ f : Function,
    names.foldl Function.addBlock (f.place i) = (names.foldl Function.addBlock f).place i := by
  induction names with
  | nil =>
    intro f
    rfl
  | cons name names ih =>
    intro f
    exact ih (f.addBlock name)

theorem addBlocks_layout {names : List String} : ∀ f : Function,
    (names.foldl Function.addBlock f).layout = f.layout := by
  induction names with
  | nil =>
    intro f
    rfl
  | cons name names ih =>
    intro f
    exact ih (f.addBlock name)

theorem addBlocks_length {names : List String} : ∀ f : Function,
    (names.foldl Function.addBlock f).blocks.length = f.blocks.length + names.length := by
  induction names with
  | nil =>
    intro f
    rfl
  | cons name names ih =>
    intro f
    have hlen : (f.addBlock name).blocks.length = f.blocks.length + 1 := by simp [Function.addBlock]
    rw [List.foldl_cons, ih, hlen, List.length_cons]
    omega

theorem conditionalBlocks_length {names : List String} :
    (conditionalBlocks d names).function.blocks.length =
      d.function.blocks.length + 1 + names.length := by
  rw [conditionalBlocks, addBlocks_length]
  simp [Function.place, Function.addBlock]

theorem conditionalBlocks_placed (hp : d.Placed k) (names : List String) :
    (conditionalBlocks d names).Placed k := by
  have hb := hp.block
  refine ⟨hp.index, ?_, fun i hi => ?_⟩
  · rw [conditionalBlocks_length]
    show d.block < _
    omega
  · rw [conditionalBlocks_length]
    rw [conditionalBlocks, addBlocks_layout] at hi
    rcases List.mem_append.1 hi with hi | hi
    · have := hp.layout i hi
      omega
    · rw [List.mem_singleton.1 hi]
      omega

theorem createBlock_conditional (hk : k < d.module.functions.length) (names : List String)
    (name : String) :
    createBlock name ((conditionalBlocks d names).builder k) =
      .ok (d.function.blocks.length + 1 + names.length)
        ((conditionalBlocks d (names ++ [name])).builder k) := by
  have hc := Draft.createBlock_builder (d := conditionalBlocks d names) hk name
  have happ : conditionalBlocks d (names ++ [name]) =
      { conditionalBlocks d names with
        function := (conditionalBlocks d names).function.addBlock name } := by
    rw [conditionalBlocks, List.foldl_append]
    rfl
  rw [conditionalBlocks_length] at hc
  rw [hc, happ]

/-- The order in which blocks are created and laid out does not matter for where writing goes on. -/
theorem conditionalBlocks_close (ho : d.function.closedAt d.block = false) (cond : Operand)
    (names : List String) :
    { (conditionalBlocks d names).close
        (.branch cond d.function.blocks.length (d.function.blocks.length + 1)) with
      block := d.function.blocks.length } = d.fork cond names := by
  have hopen : (d.addBlocks ("then" :: names)).function.closedAt d.block = false :=
    Draft.addBlocks_open ho
  have hopen' : (conditionalBlocks d names).function.closedAt d.block = false := by
    rw [conditionalBlocks, addBlocks_place]
    exact hopen
  rw [Draft.fork, Draft.close_of_open hopen, Draft.close_of_open hopen', conditionalBlocks,
    addBlocks_place]
  rfl

theorem attachBlock_steps {β : Type} {f : Unit → BuildM β} {j : Nat} {Q : β → Draft → Prop}
    (hi : d.Inv k (j :: pend))
    (hf : Steps k (f () ({ d with function := d.function.place j }.builder k)) Q) :
    Steps k ((attachBlock j >>= f) (d.builder k)) Q :=
  .bind_eq (Draft.attachBlock_builder (placed_of_inv hi).index
    (hi.shape.not_layout List.mem_cons_self)) hf

theorem lowerIf_steps (hl : LowersAs lower sub h) {n : Node} (hn : n.height ≤ h + 1)
    (hk : n.kind = .ifElseStatement) (hi : d.Inv k pend) (hs : d.Scoped scope locals globals) :
    Steps k (lowerIf lower n scope (d.builder k)) (fun r d' => EmitsNode sub scope n d r d') := by
  unfold lowerIf
  cases h0 : n.nth? 0 with
  | none => exact malformed_ends
  | some condNode =>
  cases h1 : n.nth? 1 with
  | none => exact malformed_ends
  | some thenNode =>
  have hh0 := Node.height_nth? h0
  have hh1 := Node.height_nth? h1
  refine (lowerValue_steps hl (by omega) hi hs).bind fun v d₁ hv => ?_
  obtain ⟨new, hc₁, rfl, hu, -⟩ := hl.preserves.step hv hi hs
  refine (lowerCondition_steps hc₁.inv hu).bind fun c d₂ hc => ?_
  obtain ⟨hi₂, -, -, -, ho⟩ := conditionIn_uses hc₁.inv hu hc
  have hp₂ := placed_of_inv hi₂
  have hk₂ := hp₂.index
  refine .bind_eq (Draft.appendBlock_builder hp₂ "then") ?_
  cases h2 : n.nth? 2 with
  | none =>
    have hf := fork_preserves hl.preserves hv hc (List.cons_ne_nil "merge" []) hi hs
    have hinv := hf.inv
    have hvis := hf.visible
    rw [← conditionalBlocks_close ho] at hinv hvis
    refine .bind_eq (createBlock_conditional hk₂ [] "merge") ?_
    refine .bind_eq (Draft.terminate_builder (conditionalBlocks_placed hp₂ ["merge"]) _) ?_
    refine (lowerArm_steps hl (by omega) hinv hvis).bind fun _ d₃ harm => ?_
    rw [conditionalBlocks_close ho] at harm
    obtain ⟨hc₃, hclosed⟩ := emitsArm_preserves hl.preserves harm (by simp) hf.inv hf.visible
    refine attachBlock_steps hc₃.inv ⟨d₃.moveTo _, rfl, ?_⟩
    exact .ifThen hk h0 h1 h2 hv hc harm
  | some elseNode =>
    have hh2 := Node.height_nth? h2
    have hf := fork_preserves hl.preserves hv hc (List.cons_ne_nil "else" ["merge"]) hi hs
    have hinv := hf.inv
    have hvis := hf.visible
    rw [← conditionalBlocks_close ho] at hinv hvis
    refine .bind_eq (createBlock_conditional hk₂ [] "else") ?_
    refine .bind_eq (createBlock_conditional hk₂ ["else"] "merge") ?_
    refine .bind_eq (Draft.terminate_builder (conditionalBlocks_placed hp₂ ["else", "merge"]) _) ?_
    refine (lowerArm_steps hl (by omega) hinv hvis).bind fun _ d₃ harm => ?_
    rw [conditionalBlocks_close ho] at harm
    obtain ⟨hc₃, hclosed⟩ := emitsArm_preserves hl.preserves harm (by simp) hf.inv hf.visible
    have hthen := (hf.trans hc₃).moveTo hclosed
    refine attachBlock_steps hc₃.inv ?_
    refine (lowerArm_steps hl (by omega) hthen.inv hthen.visible).bind fun _ d₄ harm' => ?_
    obtain ⟨hc₄, hclosed'⟩ :=
      emitsArm_preserves hl.preserves harm' (by simp) hthen.inv hthen.visible
    refine attachBlock_steps hc₄.inv ⟨d₄.moveTo _, rfl, ?_⟩
    exact .ifElse hk h0 h1 h2 hv hc harm harm'

/-! ### Returns and assignments -/

theorem lowerReturn_steps (hl : LowersAs lower sub h) {n : Node} (hn : n.height ≤ h + 1)
    (hk : n.kind = .returnExpr) (hi : d.Inv k pend) (hs : d.Scoped scope locals globals) :
    Steps k (lowerReturn lower n scope (d.builder k)) (fun r d' => EmitsNode sub scope n d r d') := by
  have hp := placed_of_inv hi
  unfold lowerReturn
  refine .bind_eq (get_run _) ?_
  refine .bind_eq (Draft.function_builder hp.index) ?_
  cases h0 : n.nth? 0 with
  | none =>
    dsimp only
    by_cases hv : d.function.signature.ret = .void
    · rw [if_pos hv]
      refine .bind_eq (Draft.terminate_builder hp (.ret none)) ?_
      exact ⟨_, rfl, .returnNothing hk h0 hv⟩
    · rw [if_neg hv]
      exact fail_ends nofun
  | some e =>
    have hh := Node.height_nth? h0
    refine (lowerValue_steps hl (by omega) hi hs).bind fun v d₁ hv => ?_
    obtain ⟨new, hc₁, rfl, hu, -⟩ := hl.preserves.step hv hi hs
    by_cases hret : d.function.signature.ret = .void
    · rw [if_pos hret]
      exact fail_ends nofun
    · rw [if_neg hret]
      refine (convert_steps (placed_of_inv hc₁.inv)).bind fun w d₂ hw => ?_
      have hp₂ := convertIn_placed hc₁.inv hu hw
      refine .bind_eq (Draft.terminate_builder hp₂ (.ret (some w.operand))) ?_
      exact ⟨_, rfl, .returnValue hk h0 hret hv hw⟩

theorem lowerAssignment_steps (hl : LowersAs lower sub h) {n : Node} (hn : n.height ≤ h + 1)
    (hk : n.kind = .assignmentExpression) (hi : d.Inv k pend)
    (hs : d.Scoped scope locals globals) :
    Steps k (lowerAssignment lower n scope (d.builder k))
      (fun r d' => EmitsNode sub scope n d r d') := by
  unfold lowerAssignment
  cases h0 : n.nth? 0 with
  | none => exact malformed_ends
  | some target =>
  cases h1 : n.nth? 1 with
  | none => exact malformed_ends
  | some e =>
  have hh := Node.height_nth? h1
  dsimp only
  by_cases hid : target.unwrapped.kind ≠ .identifier
  · rw [if_pos hid]
    exact fail_ends nofun
  rw [if_neg hid]
  refine lowerAddress_steps.bind ?_
  rintro a _ ⟨rfl, ha⟩
  refine (lowerValue_steps hl (by omega) hi hs).bind fun v d₁ hv => ?_
  obtain ⟨new, hc₁, -⟩ := hl.preserves.step hv hi hs
  refine expectType_steps.bind ?_
  rintro _ _ ⟨rfl, hty⟩
  refine .bind_eq (store_builder (placed_of_inv hc₁.inv)) ?_
  refine ⟨_, rfl, .assignment hk h0 h1 (Decidable.not_not.1 hid) ha hv ?_⟩
  obtain ⟨t, ht, -⟩ := hs.address hi ha []
  rw [hty, ht]
  rfl

/-! ## Calls -/

theorem expectTypes_steps {call : Option Span} {vs : List Value} :
    ∀ {tys : List Ty} {ns : List Node}, vs.length = tys.length → ns.length = vs.length →
      Steps k (expectTypes call vs tys ns (d.builder k))
        (fun _ d' => d' = d ∧ vs.map (·.ty) = tys) := by
  induction vs with
  | nil =>
    intro tys ns ht _
    cases tys with
    | nil => exact ⟨d, rfl, rfl, rfl⟩
    | cons ty tys => cases ht
  | cons v vs ih =>
    intro tys ns ht hn
    cases tys with
    | nil => cases ht
    | cons ty tys =>
      cases ns with
      | nil => cases hn
      | cons n ns =>
        unfold expectTypes
        refine expectType_steps.bind ?_
        rintro _ _ ⟨rfl, hv⟩
        refine (ih (Nat.succ.inj ht) (Nat.succ.inj hn)).mono ?_
        rintro _ _ ⟨rfl, hvs⟩
        exact ⟨rfl, by rw [List.map_cons, hv, hvs]⟩

theorem emitsValues_length {ns : List Node} {vs : List Value} {d' : Draft}
    (hv : EmitsValues sub scope ns d vs d') : ns.length = vs.length := by
  induction hv with
  | nil => rfl
  | cons head tail ih => rw [List.length_cons, List.length_cons, ih]

theorem lowerCall_steps (hl : LowersAs lower sub h) {n : Node} (hn : n.height ≤ h + 1)
    (hk : n.kind = .functionCall) (hi : d.Inv k pend) (hs : d.Scoped scope locals globals) :
    Steps k (lowerCall lower n scope (d.builder k)) (fun r d' => EmitsNode sub scope n d r d') := by
  unfold lowerCall
  cases hc : (n.nth? 0).bind Node.identifier? with
  | none => exact malformed_ends
  | some callee =>
  have hidx : (d.builder k).module.functionIndex? callee.text =
      d.module.functionIndex? callee.text := rfl
  refine .bind_eq (get_run _) ?_
  rw [hidx]
  cases hf : d.module.functionIndex? callee.text with
  | none => exact fail_ends nofun
  | some i =>
  have hheight : ∀ c ∈ n.arguments, c.height ≤ h := by
    intro c hc
    have := Node.height_arguments hc
    omega
  refine (lowerValues_steps hl hheight hi hs).bind fun vs d₁ hvs => ?_
  obtain ⟨hc₁, -⟩ := emitsValues_preserves hl.preserves hvs hi hs
  obtain ⟨g, hg, -⟩ := Module.functionIndex?_some hi.sane.indexed hf
  have hg₁ := hc₁.grows.module.getElem? hg
  obtain ⟨f, hf₁, hsig⟩ := function_eq hc₁.inv hg₁
  refine .bind_eq hf₁ ?_
  rw [hsig]
  by_cases hlen : vs.length ≠ g.signature.params.length
  · rw [if_pos hlen]
    exact fail_ends nofun
  rw [if_neg hlen]
  refine (expectTypes_steps (Decidable.not_not.1 hlen) (emitsValues_length hvs)).bind ?_
  rintro _ d₁ ⟨rfl, htys⟩
  have hemit := EmitsNode.call hk hc hf hvs hg₁ htys
  have hcall : Builder.call i (vs.map (·.operand)) (d₁.builder k) =
      .ok (if g.signature.ret = .void then none
        else some ⟨.temp d₁.function.nextValue, g.signature.ret⟩)
        ((d₁.emit g.signature.ret (.call i (vs.map (·.operand)))).builder k) := by
    unfold Builder.call
    rw [bind_of_ok hf₁, hsig, bind_of_ok (Draft.pushInst_builder (placed_of_inv hc₁.inv) _ _)]
    by_cases hv : g.signature.ret = .void <;> simp [hv]
  refine .bind_eq hcall ?_
  unfold callResult at hemit
  by_cases hv : g.signature.ret = .void
  · rw [if_pos hv] at hemit ⊢
    exact ⟨_, rfl, hemit⟩
  · rw [if_neg hv] at hemit ⊢
    exact ⟨_, rfl, hemit⟩

/-! ## Nodes -/

/-- A body has no definitions inside. -/
theorem lowerDefinition_steps (hi : d.Inv k pend) {n : Node} {P : Lowered → Draft → Prop} :
    Steps k (lowerDefinition lower n scope (d.builder k)) P := by
  unfold lowerDefinition
  rcases n.nth? 0 with _ | specifiers
  · exact malformed_ends
  rcases n.child? .functionDeclarator with _ | declaratorNode
  · exact malformed_ends
  rcases n.child? .compoundStatement with _ | body
  · exact malformed_ends
  refine (liftError_steps fun e he => specifiedType_error he).bind ?_
  rintro ret _ ⟨rfl, -⟩
  refine (liftError_steps fun e he => functionDeclarator_error he).bind ?_
  rintro decl _ ⟨rfl, -⟩
  refine .bind_eq (get_run _) ?_
  refine .bind_eq (Draft.function_builder (placed_of_inv hi).index) ?_
  exact malformed_ends

theorem lowerNode_steps (hl : LowersAs lower sub h) {n : Node} (hn : n.height ≤ h + 1)
    (hi : d.Inv k pend) (hs : d.Scoped scope locals globals) :
    Steps k (lowerNode lower n scope (d.builder k)) (fun r d' => EmitsNode sub scope n d r d') := by
  have hheight : ∀ c ∈ n.children, c.height ≤ h := by
    intro c hc
    have := Node.height_lt_of_mem hc
    omega
  have hseq : n.kind.isSequence = true → Steps k (lowerSequence lower n scope (d.builder k))
      (fun r d' => EmitsNode sub scope n d r d') := by
    intro hkind
    unfold lowerSequence
    refine (lowerAll_steps hl hheight hi hs).bind fun _ d' hall => ?_
    exact ⟨d', rfl, .sequence hkind hall⟩
  unfold lowerNode
  cases hk : n.kind with
  | translationUnit | statementList | compoundStatement | declarationList =>
    exact hseq (by rw [hk]; rfl)
  | functionDefinition => exact lowerDefinition_steps hi
  | declaration =>
    refine (liftError_steps fun e he => specifiedType_error he).bind ?_
    rintro ty _ ⟨rfl, hty⟩
    have hdecl : ∀ c ∈ n.declarators, c.height ≤ h := by
      intro c hc
      have := Node.height_declarators hc
      omega
    refine (lowerDeclarators_steps hl (Node.specifiedType_ok hty) hdecl hi hs).bind ?_
    exact fun _ d' hall => ⟨d', rfl, .declaration hk hty hall⟩
  | ifElseStatement => exact lowerIf_steps hl hn hk hi hs
  | returnExpr => exact lowerReturn_steps hl hn hk hi hs
  | assignmentExpression => exact lowerAssignment_steps hl hn hk hi hs
  | functionCall => exact lowerCall_steps hl hn hk hi hs
  | expression =>
    rcases hc : n.children with _ | ⟨inner, _ | ⟨c, cs⟩⟩
    · exact malformed_ends
    · refine (hl.steps (hheight inner (by simp [hc])) hi hs).mono ?_
      exact fun r d' hr => .wrapper hk hc hr
    · exact malformed_ends
  | int => exact ⟨d, rfl, .literal (by simp [Node.literal?, hk])⟩
  | float => exact ⟨d, rfl, .literal (by simp [Node.literal?, hk])⟩
  | char => exact ⟨d, rfl, .literal (by simp [Node.literal?, hk])⟩
  | identifier =>
    refine (lowerIdentifier_steps (placed_of_inv hi)).bind ?_
    rintro v d' ⟨o, ty, hl, hne, rfl, rfl⟩
    exact ⟨_, rfl, .identifier hk hl hne⟩
  | _ => exact malformed_ends

/-- In a body, a tree is lowered to what `Emits` says, unless it has an error. -/
theorem lowerWithin_lowersAs : ∀ h : Nat, LowersAs (lowerWithin h) (Emits h) h
  | 0 => by
    refine ⟨emits_preserves 0, fun {n} hn => ?_⟩
    obtain ⟨_, _, _, _⟩ := n
    simp [Node.height] at hn
  | h + 1 => ⟨emits_preserves (h + 1), fun hn _ _ _ _ _ _ hi hs =>
      lowerNode_steps (lowerWithin_lowersAs h) hn hi hs⟩

end body

end SlotIR.Lowering
