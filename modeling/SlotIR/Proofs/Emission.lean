import SlotIR.Lowering
import SlotIR.Proofs.Draft
import SlotIR.Proofs.SourceProgram

/-!
# What lowering writes

`Emits` relates a node of a body, the draft before it and the draft after it. It says which
instructions and blocks each construct adds, with no state and no errors in the way. Every draft that
it leads to is as good as the one it started from (`emits_preserves`): the invariants hold, the new
bindings are slots of their own, and a value that was yielded can be used at the cursor.
-/

namespace SlotIR.Lowering

open Syntax (Node)

/-! ## Conversions -/

/-- The draft after a value was converted, and the converted value. -/
def convertIn (d : Draft) (v : Value) (ty : Ty) : Option (Value × Draft) :=
  if v.ty = ty then some (v, d)
  else
    (conversion? v.ty ty).map fun op =>
      (⟨.temp d.function.nextValue, ty⟩, d.emit ty (.cast op v.operand))

/-- The draft after the test of a value, and the condition. -/
def conditionIn (d : Draft) (v : Value) : Option (Operand × Draft) :=
  (convertIn d v .float).map fun (x, d') =>
    (.temp d'.function.nextValue,
      d'.emit .bool (.compare x.operand (.const (.float (.zero false)))))

/-! ## Emission -/

/-- A relation between a node in a scope, a draft, what the node yields and the draft after it. -/
abbrev Emission := Node → ScopeId → Draft → Lowered → Draft → Prop

section emission

variable (sub : Emission) (scope : ScopeId)

/-- Nodes in order. -/
inductive EmitsAll : List Node → Draft → Draft → Prop
  | nil {d : Draft} : EmitsAll [] d d
  | cons {n : Node} {ns : List Node} {r : Lowered} {d d₁ d' : Draft}
    (head : sub n scope d r d₁) (tail : EmitsAll ns d₁ d') : EmitsAll (n :: ns) d d'

/-- Nodes that yield values, in order. -/
inductive EmitsValues : List Node → Draft → List Value → Draft → Prop
  | nil {d : Draft} : EmitsValues [] d [] d
  | cons {n : Node} {ns : List Node} {v : Value} {vs : List Value} {d d₁ d' : Draft}
    (head : sub n scope d (.value v) d₁) (tail : EmitsValues ns d₁ vs d') :
    EmitsValues (n :: ns) d (v :: vs) d'

/-- The slot that a variable of a function gets. -/
def varSlot (name : Node) (ty : Ty) : Slot := { name := some name.text, ty, origin := .var }

/-- The address of the slot that comes next. -/
def nextSlot (d : Draft) (ty : Ty) : Value := ⟨.slot d.function.slots.length, .ptr ty⟩

/-- A declarator of a declaration with type `ty`. -/
inductive EmitsDeclarator (ty : Ty) (n : Node) (d : Draft) : Draft → Prop
  | prototype {decl : Syntax.FunctionDeclarator} {m : Module} {i : Nat}
    (kind : n.kind = .functionDeclarator) (reads : n.functionDeclarator = .ok decl)
    (registers : d.module.Registers decl.name.text (decl.signature ty) m i) :
    EmitsDeclarator ty n d { d with module := m }
  | bare {name : Node} {c : ScopeChain} (kind : n.kind ≠ .functionDeclarator)
    (named : n.identifier? = some name) (object : ty ≠ .void) (bare : n.initializer? = none)
    (defines : d.scopes.define? scope name.text (nextSlot d ty) = some c) :
    EmitsDeclarator ty n d { d.addSlot (varSlot name ty) with scopes := c }
  | initialized {name init : Node} {v : Value} {d₁ : Draft} {c : ScopeChain}
    (kind : n.kind ≠ .functionDeclarator) (named : n.identifier? = some name)
    (object : ty ≠ .void) (initializer : n.initializer? = some init)
    (value : sub init scope (d.addSlot (varSlot name ty)) (.value v) d₁) (fits : v.ty = ty)
    (defines : d₁.scopes.define? scope name.text (nextSlot d ty) = some c) :
    EmitsDeclarator ty n d
      { d₁.emit .void (.store (nextSlot d ty).operand v.operand) with scopes := c }

/-- Declarators in order. -/
inductive EmitsDeclarators (ty : Ty) : List Node → Draft → Draft → Prop
  | nil {d : Draft} : EmitsDeclarators ty [] d d
  | cons {n : Node} {ns : List Node} {d d₁ d' : Draft} (head : EmitsDeclarator sub scope ty n d d₁)
    (tail : EmitsDeclarators ty ns d₁ d') : EmitsDeclarators ty (n :: ns) d d'

/-- An arm of a conditional, in a scope of its own; afterwards control goes to `merge`. -/
inductive EmitsArm (arm : Node) (merge : Nat) (d : Draft) : Draft → Prop
  | arm {r : Lowered} {d' : Draft} (body : sub arm d.scopes.opened (d.enter scope) r d') :
    EmitsArm arm merge d ((d'.leave d.scopes.opened).fallThrough merge)

/-- What a call of a function yields. -/
def callResult (d : Draft) (ret : Ty) : Lowered :=
  if ret = .void then .unit else .value ⟨.temp d.function.nextValue, ret⟩

/-- One node, where `sub` is for the nodes below it. -/
inductive EmitsNode (n : Node) (d : Draft) : Lowered → Draft → Prop
  | sequence {d' : Draft} (kind : n.kind.isSequence = true)
    (all : EmitsAll sub scope n.children d d') : EmitsNode n d .unit d'
  | wrapper {inner : Node} {r : Lowered} {d' : Draft} (kind : n.kind = .expression)
    (children : n.children = [inner]) (body : sub inner scope d r d') : EmitsNode n d r d'
  | literal {v : Scalar} (reads : n.literal? = some v) : EmitsNode n d (.value (.const v)) d
  | identifier {o : Operand} {ty : Ty} (kind : n.kind = .identifier)
    (bound : d.scopes.lookup? scope n.text = some ⟨o, .ptr ty⟩) (object : ty ≠ .void) :
    EmitsNode n d (.value ⟨.temp d.function.nextValue, ty⟩) (d.emit ty (.load o))
  | declaration {ty : Ty} {d' : Draft} (kind : n.kind = .declaration)
    (type : n.specifiedType = .ok ty)
    (all : EmitsDeclarators sub scope ty n.declarators d d') : EmitsNode n d .unit d'
  | ifThen {condNode thenNode : Node} {v : Value} {cond : Operand} {d₁ d₂ d₃ : Draft}
    (kind : n.kind = .ifElseStatement) (first : n.nth? 0 = some condNode)
    (second : n.nth? 1 = some thenNode) (third : n.nth? 2 = none)
    (value : sub condNode scope d (.value v) d₁) (test : conditionIn d₁ v = some (cond, d₂))
    (arm : EmitsArm sub scope thenNode (d₂.function.blocks.length + 1) (d₂.fork cond ["merge"]) d₃) :
    EmitsNode n d .unit (d₃.moveTo (d₂.function.blocks.length + 1))
  | ifElse {condNode thenNode elseNode : Node} {v : Value} {cond : Operand} {d₁ d₂ d₃ d₄ : Draft}
    (kind : n.kind = .ifElseStatement) (first : n.nth? 0 = some condNode)
    (second : n.nth? 1 = some thenNode) (third : n.nth? 2 = some elseNode)
    (value : sub condNode scope d (.value v) d₁) (test : conditionIn d₁ v = some (cond, d₂))
    (arm : EmitsArm sub scope thenNode (d₂.function.blocks.length + 2)
      (d₂.fork cond ["else", "merge"]) d₃)
    (other : EmitsArm sub scope elseNode (d₂.function.blocks.length + 2)
      (d₃.moveTo (d₂.function.blocks.length + 1)) d₄) :
    EmitsNode n d .unit (d₄.moveTo (d₂.function.blocks.length + 2))
  | returnNothing (kind : n.kind = .returnExpr) (nothing : n.nth? 0 = none)
    (void : d.function.signature.ret = .void) : EmitsNode n d .unit (d.close (.ret none))
  | returnValue {e : Node} {v w : Value} {d₁ d₂ : Draft} (kind : n.kind = .returnExpr)
    (operand : n.nth? 0 = some e) (object : d.function.signature.ret ≠ .void)
    (value : sub e scope d (.value v) d₁)
    (converts : convertIn d₁ v d.function.signature.ret = some (w, d₂)) :
    EmitsNode n d .unit (d₂.close (.ret (some w.operand)))
  | assignment {target e : Node} {a v : Value} {d₁ : Draft} (kind : n.kind = .assignmentExpression)
    (first : n.nth? 0 = some target) (second : n.nth? 1 = some e)
    (identifier : target.unwrapped.kind = .identifier)
    (bound : d.scopes.lookup? scope target.unwrapped.text = some a)
    (value : sub e scope d (.value v) d₁) (fits : a.ty = .ptr v.ty) :
    EmitsNode n d (.value v) (d₁.emit .void (.store a.operand v.operand))
  | call {callee : Node} {i : Nat} {vs : List Value} {g : Function} {d₁ : Draft}
    (kind : n.kind = .functionCall) (named : (n.nth? 0).bind Node.identifier? = some callee)
    (known : d.module.functionIndex? callee.text = some i)
    (values : EmitsValues sub scope n.arguments d vs d₁)
    (function : d₁.module.functions[i]? = some g) (fits : vs.map (·.ty) = g.signature.params) :
    EmitsNode n d (callResult d₁ g.signature.ret)
      (d₁.emit g.signature.ret (.call i (vs.map (·.operand))))

end emission

/-- A tree of at most the given height. -/
def Emits : Nat → Emission
  | 0 => fun _ _ _ _ _ => False
  | h + 1 => fun n scope d r d' => EmitsNode (Emits h) scope n d r d'

/-! ## What emission preserves -/

/-- The draft `d'` goes on from `d` with the bindings `new` added to the scope. -/
structure Continues (k : Nat) (pend : List Nat) (scope : ScopeId)
    (locals globals new : List (String × Value)) (d d' : Draft) : Prop where
  inv : d'.Inv k pend
  visible : d'.Scoped scope (new ++ locals) globals
  grows : d.Extends d'
  widens : ∀ (s : Scope) (outer : List (ScopeId × Scope)), d.scopes.Nested scope s outer →
    d'.scopes.Nested scope { s with symbols := new ++ s.symbols } outer
  fresh : ∀ p ∈ new, ∀ i, p.2.operand = .slot i → d.function.slots.length ≤ i

/-- A value that was yielded can be used, and nothing that could be used before is lost. -/
def Yields (d d' : Draft) (new : List (String × Value)) : Lowered → Prop
  | .unit => True
  | .value v => new = [] ∧ d'.module.Uses d'.function d'.defined v.operand v.ty ∧
      ∀ id ∈ d.defined, id ∈ d'.defined
  | .function _ => False

/-- Every emission goes on from where it started. -/
structure Preserves (sub : Emission) : Prop where
  step : ∀ {n : Node} {scope : ScopeId} {d d' : Draft} {r : Lowered}, sub n scope d r d' →
    ∀ {k : Nat} {pend : List Nat} {locals globals : List (String × Value)}, d.Inv k pend →
      d.Scoped scope locals globals →
      ∃ new, Continues k pend scope locals globals new d d' ∧ Yields d d' new r

section preserves

variable {k : Nat} {pend : List Nat} {scope : ScopeId} {locals globals : List (String × Value)}
  {d d' : Draft}

theorem Continues.of_writes (hs : d.Scoped scope locals globals) (hi : d'.Inv k pend)
    (he : d.Extends d') (hc : d'.scopes = d.scopes) :
    Continues k pend scope locals globals [] d d' :=
  ⟨hi, hs.extend he hc, he, fun s outer h => hc ▸ h, by simp⟩

theorem Continues.trans {new new' : List (String × Value)} {pend' : List Nat} {d'' : Draft}
    (h : Continues k pend' scope locals globals new d d')
    (h' : Continues k pend scope (new ++ locals) globals new' d' d'') :
    Continues k pend scope locals globals (new' ++ new) d d'' where
  inv := h'.inv
  visible := by
    rw [List.append_assoc]
    exact h'.visible
  grows := h.grows.trans h'.grows
  widens s outer hn := by
    rw [List.append_assoc]
    exact h'.widens _ _ (h.widens s outer hn)
  fresh p hp i hi := by
    rcases List.mem_append.1 hp with hp | hp
    · exact Nat.le_trans h.grows.function.slots.length_le (h'.fresh p hp i hi)
    · exact h.fresh p hp i hi

/-! ### Conversions -/

theorem conversion?_allows {s t : Ty} {op : CastOp} (h : conversion? s t = some op) :
    op.allows s t = true ∧ t ≠ .void := by
  unfold conversion? at h
  split at h <;> cases h <;> simp [CastOp.allows, Ty.isFloat, Ty.intWidth?]

theorem convertIn_uses {v w : Value} {ty : Ty} (hi : d.Inv k pend)
    (hv : d.module.Uses d.function d.defined v.operand v.ty)
    (h : convertIn d v ty = some (w, d')) :
    d'.Inv k pend ∧ d.Extends d' ∧ d'.scopes = d.scopes ∧ w.ty = ty ∧
      d'.module.Uses d'.function d'.defined w.operand w.ty ∧ ∀ id ∈ d.defined, id ∈ d'.defined := by
  unfold convertIn at h
  split at h
  · rename_i e
    cases h
    exact ⟨hi, .refl d, rfl, e, hv, fun _ h => h⟩
  · obtain ⟨op, hop, e⟩ := Option.map_eq_some_iff.1 h
    cases e
    obtain ⟨ha, hne⟩ := conversion?_allows hop
    have hinst : (d.function.nextInst ty (.cast op v.operand)).Typed d.module
        (d.module.Uses d.function d.defined) := by
      refine ⟨fun _ => ?_, v.ty, hv, ha⟩
      simp [Function.nextInst, hne]
    have hi' := hi.emit hinst
    refine ⟨hi', .emit, Draft.emit_scopes, rfl, hi.uses_emit hi' hne, fun id hid => ?_⟩
    rw [hi.defined_emit]
    exact List.mem_append_left _ hid

theorem conditionIn_uses {v : Value} {cond : Operand} (hi : d.Inv k pend)
    (hv : d.module.Uses d.function d.defined v.operand v.ty)
    (h : conditionIn d v = some (cond, d')) :
    d'.Inv k pend ∧ d.Extends d' ∧ d'.scopes = d.scopes ∧
      d'.module.Uses d'.function d'.defined cond .bool ∧
      d'.function.closedAt d'.block = false := by
  obtain ⟨⟨x, d₁⟩, hc, e⟩ := Option.map_eq_some_iff.1 h
  cases e
  obtain ⟨hi₁, he₁, hs₁, hty, hx, -⟩ := convertIn_uses hi hv hc
  have hinst : (d₁.function.nextInst .bool
      (.compare x.operand (.const (.float (.zero false))))).Typed d₁.module
      (d₁.module.Uses d₁.function d₁.defined) := by
    refine ⟨by simp [Function.nextInst], ?_, .const _, rfl⟩
    rw [hty] at hx
    exact hx
  have hi' := hi₁.emit hinst
  exact ⟨hi', he₁.trans .emit, Draft.emit_scopes.trans hs₁, hi₁.uses_emit hi' (by simp),
    Draft.emit_open⟩

/-! ### Lists of nodes -/

variable {sub : Emission}

theorem emitsAll_preserves (hsub : Preserves sub) {ns : List Node} (h : EmitsAll sub scope ns d d') :
    ∀ {locals : List (String × Value)}, d.Inv k pend → d.Scoped scope locals globals →
      ∃ new, Continues k pend scope locals globals new d d' := by
  induction h with
  | @nil d =>
    intro locals hi hs
    exact ⟨[], .of_writes hs hi (.refl d) rfl⟩
  | cons head tail ih =>
    intro locals hi hs
    obtain ⟨new, hc, -⟩ := hsub.step head hi hs
    obtain ⟨new', hc'⟩ := ih hc.inv hc.visible
    exact ⟨new' ++ new, hc.trans hc'⟩

theorem emitsValues_preserves (hsub : Preserves sub) {ns : List Node} {vs : List Value}
    (h : EmitsValues sub scope ns d vs d') :
    d.Inv k pend → d.Scoped scope locals globals →
      Continues k pend scope locals globals [] d d' ∧
      (∀ v ∈ vs, d'.module.Uses d'.function d'.defined v.operand v.ty) ∧
      ∀ id ∈ d.defined, id ∈ d'.defined := by
  induction h with
  | @nil d =>
    intro hi hs
    exact ⟨.of_writes hs hi (.refl d) rfl, by simp, fun _ h => h⟩
  | @cons n ns v vs d d₁ d' head tail ih =>
    intro hi hs
    obtain ⟨new, hc, rfl, hv, hd⟩ := hsub.step head hi hs
    obtain ⟨hc', hvs, hd'⟩ := ih hc.inv hc.visible
    refine ⟨hc.trans hc', List.forall_mem_cons.2 ⟨?_, hvs⟩, fun id hid => hd' id (hd id hid)⟩
    exact (hc'.inv.uses hc'.grows hv).weaken hd'

/-! ### Declarations -/

theorem Continues.addSlot (hi : d.Inv k pend) (hs : d.Scoped scope locals globals) {s : Slot}
    (ht : s.ty.isArithmetic = true) : Continues k pend scope locals globals [] d (d.addSlot s) :=
  .of_writes hs (hi.addSlot ht) ⟨.addSlot _ _, .refl _⟩ rfl

/-- The name of a variable is bound to the slot that it got earlier. -/
theorem Continues.bind {name : String} {s : Slot} {d₁ : Draft} {c : ScopeChain}
    (hs : d.Scoped scope locals globals)
    (h : Continues k pend scope locals globals [] d d₁)
    (hslot : d₁.function.slots[d.function.slots.length]? = some s)
    (hd : d₁.scopes.define? scope name (nextSlot d s.ty) = some c) :
    Continues k pend scope locals globals [(name, nextSlot d s.ty)] d { d₁ with scopes := c } where
  inv := h.inv.rescope c
  visible := by
    refine h.visible.bind hslot (fun p hp e => ?_) hd
    exact hs.unbound p hp (congrArg Value.operand e)
  grows := ⟨h.grows.function, h.grows.module⟩
  widens t outer hn := ((h.widens t outer hn).define hd).2
  fresh p hp i hi := by
    rw [List.mem_singleton.1 hp] at hi
    cases hi
    exact Nat.le_refl _

theorem getElem?_addSlot (d : Draft) (s : Slot) :
    (d.addSlot s).function.slots[d.function.slots.length]? = some s := by
  simp [Draft.addSlot, Function.addSlot]

/-- A variable with an initializer: its slot comes first and its name last. -/
theorem initialized_continues (hsub : Preserves sub) {ty : Ty} {name init : Node} {v : Value}
    {d₁ : Draft} {c : ScopeChain} (hty : ty.isArithmetic = true)
    (value : sub init scope (d.addSlot (varSlot name ty)) (.value v) d₁) (fits : v.ty = ty)
    (defines : d₁.scopes.define? scope name.text (nextSlot d ty) = some c) (hi : d.Inv k pend)
    (hs : d.Scoped scope locals globals) :
    Continues k pend scope locals globals [] (d.addSlot (varSlot name ty)) d₁ ∧
      Continues k pend scope locals globals [(name.text, nextSlot d ty)] d
        { d₁.emit .void (.store (nextSlot d ty).operand v.operand) with scopes := c } := by
  have hc := Continues.addSlot hi hs (s := varSlot name ty) hty
  obtain ⟨new, hc₁, rfl, hv, -⟩ := hsub.step value hc.inv hc.visible
  have hslot := hc₁.grows.function.slot (getElem?_addSlot d (varSlot name ty))
  have hinst : (d₁.function.nextInst .void (.store (nextSlot d ty).operand v.operand)).Typed
      d₁.module (d₁.module.Uses d₁.function d₁.defined) := by
    refine ⟨by simp [Function.nextInst], ⟨ty, .slot hslot, ?_⟩, by simp [Function.nextInst]⟩
    rw [fits] at hv
    exact hv
  have hc₂ := hc₁.trans (.of_writes hc₁.visible (hc₁.inv.emit hinst) .emit Draft.emit_scopes)
  refine ⟨hc₁, (hc.trans hc₂).bind (s := varSlot name ty) hs ?_ ?_⟩
  · rw [Draft.emit_slots]
    exact hslot
  · rw [Draft.emit_scopes]
    exact defines

theorem emitsDeclarator_preserves (hsub : Preserves sub) {ty : Ty} {n : Node}
    (hty : ty = .void ∨ ty.isArithmetic = true) (h : EmitsDeclarator sub scope ty n d d')
    (hi : d.Inv k pend) (hs : d.Scoped scope locals globals) :
    ∃ new, Continues k pend scope locals globals new d d' := by
  cases h with
  | prototype kind reads registers =>
    have hp := Syntax.FunctionDeclarator.signature_plain (Node.functionDeclarator_ok reads) hty
    have hm := registers.declares
    exact ⟨[], .of_writes hs (hi.declare hm (registers.sane hi.sane hp)) ⟨.refl _, hm⟩ rfl⟩
  | @bare name c kind named object bare defines =>
    have hc := Continues.addSlot hi hs (s := varSlot name ty) (hty.resolve_left object)
    exact ⟨_, hc.bind hs (getElem?_addSlot d _) defines⟩
  | initialized kind named object initializer value fits defines =>
    exact ⟨_, (initialized_continues hsub (hty.resolve_left object) value fits defines hi hs).2⟩

theorem emitsDeclarators_preserves (hsub : Preserves sub) {ty : Ty} {ns : List Node}
    (hty : ty = .void ∨ ty.isArithmetic = true) (h : EmitsDeclarators sub scope ty ns d d') :
    ∀ {locals : List (String × Value)}, d.Inv k pend → d.Scoped scope locals globals →
      ∃ new, Continues k pend scope locals globals new d d' := by
  induction h with
  | @nil d =>
    intro locals hi hs
    exact ⟨[], .of_writes hs hi (.refl d) rfl⟩
  | cons head tail ih =>
    intro locals hi hs
    obtain ⟨new, hc⟩ := emitsDeclarator_preserves hsub hty head hi hs
    obtain ⟨new', hc'⟩ := ih hc.inv hc.visible
    exact ⟨new' ++ new, hc.trans hc'⟩

/-! ### Arms -/

/-- An arm leaves no bindings behind, and its last block is closed. -/
theorem emitsArm_preserves (hsub : Preserves sub) {arm : Node} {merge : Nat}
    (h : EmitsArm sub scope arm merge d d') (hm : merge ∈ pend) (hi : d.Inv k pend)
    (hs : d.Scoped scope locals globals) :
    Continues k pend scope locals globals [] d d' ∧ d'.function.closedAt d'.block = true := by
  cases h with
  | @arm r d₁ body =>
    obtain ⟨new, hc, -⟩ := hsub.step body (hi.rescope _) hs.enter
    have hpop : ∀ (s : Scope) (outer : List (ScopeId × Scope)), d.scopes.Nested scope s outer →
        (d₁.leave d.scopes.opened).scopes.Nested scope s outer := fun s outer hn =>
      (hc.widens _ _ hn.push).pop
    obtain ⟨hi', hclosed⟩ := (hc.inv.rescope (d₁.scopes.pop d.scopes.opened)).fallThrough hm
    have hleave : d.Extends (d₁.leave d.scopes.opened) := ⟨hc.grows.function, hc.grows.module⟩
    have he := hleave.trans (.fallThrough merge)
    have hscopes : ((d₁.leave d.scopes.opened).fallThrough merge).scopes =
        (d₁.leave d.scopes.opened).scopes := by
      unfold Draft.fallThrough
      split
      · rfl
      · exact Draft.close_scopes
    have hlive : (d₁.leave d.scopes.opened).scopes.live = d.scopes.live := by
      obtain ⟨s, outer, hn⟩ := hs.nested
      rw [(hpop s outer hn).live, hn.live]
    refine ⟨⟨hi', ⟨?_, ?_, ?_, hs.distinct, ?_⟩, he, ?_, by simp⟩, hclosed⟩
    · obtain ⟨s, outer, hn⟩ := hs.nested
      rw [hscopes]
      exact ⟨s, outer, hpop s outer hn⟩
    · rw [hscopes, hlive]
      exact hs.bindings
    · intro p hp
      obtain ⟨i, s, hv, hslot⟩ := hs.slots p hp
      exact ⟨i, s, hv, he.function.slot hslot⟩
    · intro p hp
      obtain ⟨i, g, hv, hg⟩ := hs.globals p hp
      exact ⟨i, g, hv, he.module.globals ▸ hg⟩
    · intro s outer hn
      rw [hscopes]
      exact hpop s outer hn

/-! ### Nodes -/

theorem Continues.moveTo {j : Nat} {new : List (String × Value)}
    (h : Continues k (j :: pend) scope locals globals new d d')
    (hc : d'.function.closedAt d'.block = true) :
    Continues k pend scope locals globals new d (d'.moveTo j) where
  inv := h.inv.moveTo hc
  visible := h.visible.extend .moveTo rfl
  grows := h.grows.trans .moveTo
  widens := h.widens
  fresh := h.fresh

/-- The test of a conditional, and the branch. -/
theorem fork_preserves (hsub : Preserves sub) {condNode : Node} {v : Value} {cond : Operand}
    {d₁ d₂ : Draft} {names : List String} (value : sub condNode scope d (.value v) d₁)
    (test : conditionIn d₁ v = some (cond, d₂)) (hn : names ≠ []) (hi : d.Inv k pend)
    (hs : d.Scoped scope locals globals) :
    Continues k (List.range' (d₂.function.blocks.length + 1) names.length ++ pend) scope locals
      globals [] d (d₂.fork cond names) := by
  obtain ⟨new, hc₁, rfl, hv, -⟩ := hsub.step value hi hs
  obtain ⟨hi₂, he₂, hs₂, hcond, ho⟩ := conditionIn_uses hc₁.inv hv test
  have hc₂ := Continues.of_writes hc₁.visible hi₂ he₂ hs₂
  have hi₃ := hi₂.fork ho hcond hn
  exact hc₁.trans (hc₂.trans (.of_writes hc₂.visible hi₃ .fork Draft.fork_scopes))

theorem nextInst_result {f : Function} {ty : Ty} {a : Action} (h : ty ≠ .void) :
    (f.nextInst ty a).result ≠ none := by
  simp [Function.nextInst, h]

/-- An instruction that yields a value. -/
theorem emit_preserves {ty : Ty} {a : Action} (hi : d.Inv k pend)
    (hs : d.Scoped scope locals globals) (hne : ty ≠ .void)
    (hinst : (d.function.nextInst ty a).Typed d.module (d.module.Uses d.function d.defined)) :
    Continues k pend scope locals globals [] d (d.emit ty a) ∧
      Yields d (d.emit ty a) [] (.value ⟨.temp d.function.nextValue, ty⟩) := by
  have hi' := hi.emit hinst
  refine ⟨.of_writes hs hi' .emit Draft.emit_scopes, rfl, hi.uses_emit hi' hne, fun id hid => ?_⟩
  rw [hi.defined_emit]
  exact List.mem_append_left _ hid

theorem emitsNode_preserves (hsub : Preserves sub) : Preserves (fun n scope d r d' =>
    EmitsNode sub scope n d r d') := by
  refine ⟨fun {n scope d d' r} h {k pend locals globals} hi hs => ?_⟩
  cases h with
  | sequence kind all =>
    obtain ⟨new, hc⟩ := emitsAll_preserves hsub all hi hs
    exact ⟨new, hc, trivial⟩
  | wrapper kind children body => exact hsub.step body hi hs
  | literal reads =>
    exact ⟨[], .of_writes hs hi (.refl d) rfl, rfl, .const _, fun _ h => h⟩
  | @identifier o ty kind bound object =>
    obtain ⟨t, -, -, hu⟩ := hs.address hi bound d.defined
    exact ⟨[], emit_preserves hi hs object ⟨fun _ => nextInst_result object, hu⟩⟩
  | declaration kind type all =>
    obtain ⟨new, hc⟩ := emitsDeclarators_preserves hsub (Node.specifiedType_ok type) all hi hs
    exact ⟨new, hc, trivial⟩
  | ifThen kind first second third value test arm =>
    have hf := fork_preserves hsub value test (List.cons_ne_nil "merge" []) hi hs
    obtain ⟨hc, hclosed⟩ := emitsArm_preserves hsub arm (by simp) hf.inv hf.visible
    exact ⟨[], (hf.trans hc).moveTo hclosed, trivial⟩
  | ifElse kind first second third value test arm other =>
    have hf := fork_preserves hsub value test (List.cons_ne_nil "else" ["merge"]) hi hs
    obtain ⟨hc, hclosed⟩ := emitsArm_preserves hsub arm (by simp) hf.inv hf.visible
    have hthen := (hf.trans hc).moveTo hclosed
    obtain ⟨hc', hclosed'⟩ := emitsArm_preserves hsub other (by simp) hthen.inv hthen.visible
    exact ⟨[], (hthen.trans hc').moveTo hclosed', trivial⟩
  | returnNothing kind nothing void =>
    have hi' := hi.close (t := .ret none) void (by simp [Terminator.successors]) (by simp)
    exact ⟨[], .of_writes hs hi' .close Draft.close_scopes, trivial⟩
  | @returnValue e v w d₁ d₂ kind operand object value converts =>
    obtain ⟨new, hc₁, rfl, hv, -⟩ := hsub.step value hi hs
    obtain ⟨hi₂, he₂, hs₂, hty, hw, -⟩ := convertIn_uses hc₁.inv hv converts
    have hc₂ := hc₁.trans (.of_writes hc₁.visible hi₂ he₂ hs₂)
    have hret : d₂.function.signature = d.function.signature := hc₂.grows.function.signature
    have ht : (Terminator.ret (some w.operand)).Typed d₂.module d₂.function d₂.defined := by
      refine ⟨?_, ?_⟩
      · rw [hret, ← hty]
        exact hw
      · rw [hret]
        exact object
    have hi' := hi₂.close ht (by simp [Terminator.successors]) (by simp)
    exact ⟨[], hc₂.trans (.of_writes hc₂.visible hi' .close Draft.close_scopes), trivial⟩
  | @assignment target e a v d₁ kind first second identifier bound value fits =>
    obtain ⟨new, hc₁, rfl, hv, hd⟩ := hsub.step value hi hs
    obtain ⟨t, -, -, ha⟩ := hs.address hi bound d₁.defined
    have ha := hc₁.inv.uses hc₁.grows ha
    rw [fits] at ha
    have hinst : (d₁.function.nextInst .void (.store a.operand v.operand)).Typed d₁.module
        (d₁.module.Uses d₁.function d₁.defined) :=
      ⟨by simp [Function.nextInst], ⟨v.ty, ha, hv⟩, by simp [Function.nextInst]⟩
    have hi' := hc₁.inv.emit hinst
    have hsub' : ∀ id ∈ d₁.defined, id ∈ (d₁.emit .void (.store a.operand v.operand)).defined := by
      intro id hid
      rw [hc₁.inv.defined_emit]
      exact List.mem_append_left _ hid
    refine ⟨[], hc₁.trans (.of_writes hc₁.visible hi' .emit Draft.emit_scopes), rfl, ?_, ?_⟩
    · exact (hi'.uses .emit hv).weaken hsub'
    · exact fun id hid => hsub' id (hd id hid)
  | @call callee i vs g d₁ kind named known values function fits =>
    obtain ⟨hc₁, hvs, hd⟩ := emitsValues_preserves hsub values hi hs
    have hargs : List.Forall₂ (d₁.module.Uses d₁.function d₁.defined) (vs.map (·.operand))
        g.signature.params := by
      rw [← fits, List.forall₂_map_left_iff, List.forall₂_map_right_iff, List.forall₂_same]
      exact hvs
    by_cases hret : g.signature.ret = .void
    · have hinst : (d₁.function.nextInst g.signature.ret (.call i (vs.map (·.operand)))).Typed
          d₁.module (d₁.module.Uses d₁.function d₁.defined) :=
        ⟨by simp [Function.nextInst, hret], g, function, hargs, rfl,
          by simp [Function.nextInst, hret]⟩
      refine ⟨[], hc₁.trans (.of_writes hc₁.visible (hc₁.inv.emit hinst) .emit Draft.emit_scopes), ?_⟩
      rw [callResult, if_pos hret]
      trivial
    · have hinst : (d₁.function.nextInst g.signature.ret (.call i (vs.map (·.operand)))).Typed
          d₁.module (d₁.module.Uses d₁.function d₁.defined) :=
        ⟨fun _ => nextInst_result hret, g, function, hargs, rfl, fun e => absurd e hret⟩
      obtain ⟨hc₂, -, hu, hd'⟩ := emit_preserves hc₁.inv hc₁.visible hret hinst
      refine ⟨[], hc₁.trans hc₂, ?_⟩
      rw [callResult, if_neg hret]
      exact ⟨rfl, hu, fun id hid => hd' id (hd id hid)⟩

theorem emits_preserves : ∀ h : Nat, Preserves (Emits h)
  | 0 => ⟨fun he => he.elim⟩
  | h + 1 => emitsNode_preserves (emits_preserves h)

end preserves

end SlotIR.Lowering
