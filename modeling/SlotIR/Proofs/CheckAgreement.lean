import SlotIR.Proofs.Generated
import SlotIR.Proofs.StaticView

/-!
# Building and checking in lockstep

A step of lowering and the step of checking that belongs to it agree (`Checking.Agrees`): where one
goes on, the other does, to the same place, and where lowering stops with an error of the tree,
checking stops with the same one. This module compares the steps that all constructs are made of, in
and outside of bodies alike: instructions, variables, declarations of functions, and scopes.
-/

namespace SlotIR.Checking

open Syntax (Node Span)
open Lowering (Error Cause Malformation TypeContext Lowered Lower)
open Builder

/-! ## Lockstep -/

/-- Building from the module `m` ended in `r` and checking in `c`. Either both went on, with related
results and to the same place, or both stopped with the same error. Where building stops for another
reason than an error of the tree, nothing is said. -/
def Agrees {α β : Type} (p : Place) (m : Module) (R : α → β → Prop)
    (r : EStateM.Result (Fault Error) Builder α)
    (c : EStateM.Result (Fault Error) Static β) : Prop :=
  Ends r (fun a b' => ∃ v s', c = .ok v s' ∧ R a v ∧ Views p b' s' ∧ m.Grows b'.module)
    (fun e _ => ∀ err, e = .error err → err.cause.OfTree → ∃ s', c = .error e s')

section lockstep

variable {α α' β β' : Type} {p : Place} {b : Builder} {s : Static} {R : α → β → Prop}
  {Q : α' → β' → Prop}

theorem Agrees.mono {m : Module} {R' : α → β → Prop} {r : EStateM.Result (Fault Error) Builder α}
    {c : EStateM.Result (Fault Error) Static β} (h : Agrees p m R r c)
    (hR : ∀ a v, R a v → R' a v) : Agrees p m R' r c := by
  refine Ends.mono h ?_ fun _ _ h => h
  rintro a b' ⟨v, s', hc, ha, hv, hg⟩
  exact ⟨v, s', hc, hR a v ha, hv, hg⟩

theorem Agrees.grow {m m' : Module} {r : EStateM.Result (Fault Error) Builder α}
    {c : EStateM.Result (Fault Error) Static β} (hm : m.Grows m') (h : Agrees p m' R r c) :
    Agrees p m R r c := by
  refine Ends.mono h ?_ fun _ _ h => h
  rintro a b' ⟨v, s', hc, ha, hv, hg⟩
  exact ⟨v, s', hc, ha, hv, hm.trans hg⟩

theorem Agrees.bind {x : BuildM α} {f : α → BuildM α'} {y : CheckM β} {g : β → CheckM β'}
    (hx : Agrees p b.module R (x b) (y s))
    (hf : ∀ a v b' s', R a v → Views p b' s' → b.module.Grows b'.module →
      Agrees p b'.module Q (f a b') (g v s')) :
    Agrees p b.module Q ((x >>= f) b) ((y >>= g) s) := by
  cases hr : x b with
  | ok a b' =>
    obtain ⟨v, s', hy, ha, hv, hg⟩ := Ends.of_ok hx hr
    rw [bind_of_ok hr, bind_of_ok hy]
    exact (hf a v b' s' ha hv hg).grow hg
  | error e b' =>
    rw [bind_of_error hr]
    intro err he ht
    obtain ⟨s', hy⟩ := Ends.of_error hx hr err he ht
    exact ⟨s', bind_of_error hy⟩

theorem agrees_pure {a : α} {v : β} (hv : Views p b s) (ha : R a v) :
    Agrees p b.module R ((pure a : BuildM α) b) ((pure v : CheckM β) s) :=
  ⟨v, s, rfl, ha, hv, .refl _⟩

/-- Both read their own state. -/
theorem Agrees.get {m : Module} {f : Builder → BuildM α} {g : Static → CheckM β}
    (h : Agrees p m R (f b b) (g s s)) : Agrees p m R ((get >>= f) b) ((get >>= g) s) := h

theorem fail_agrees {m : Module} {span : Option Span} {cause : Cause} :
    Agrees p m R (fail span cause b) (reject span cause s) :=
  fun _ _ _ => ⟨s, rfl⟩

theorem accept_agrees (hv : Views p b s) (x : Except Error α) :
    Agrees p b.module (fun a v => x = .ok a ∧ a = v) (liftError x b) (accept x s) := by
  cases x with
  | ok a => exact ⟨a, s, rfl, ⟨rfl, rfl⟩, hv, .refl _⟩
  | error e => exact fun _ _ _ => ⟨s, rfl⟩

/-! ### Steps on one side only -/

variable {P : α → Prop}

/-- The checker waits while code is written. -/
theorem Agrees.after {x : BuildM α} {f : α → BuildM α'}
    {c : EStateM.Result (Fault Error) Static β'} (hx : Quiet b (x b) P)
    (hf : ∀ a b', P a → Keeps b b' → Agrees p b'.module Q (f a b') c) :
    Agrees p b.module Q ((x >>= f) b) c := by
  cases hr : x b with
  | ok a b' =>
    obtain ⟨ha, hk⟩ := Ends.of_ok hx hr
    rw [bind_of_ok hr]
    exact (hf a b' ha hk).grow hk.grows
  | error e b' =>
    rw [bind_of_error hr]
    exact fun err he => absurd he (Ends.of_error hx hr err)

theorem Agrees.bind_eq {m : Module} {x : BuildM α} {f : α → BuildM α'} {a : α} {b' : Builder}
    {c : EStateM.Result (Fault Error) Static β'} (h : x b = .ok a b')
    (hf : Agrees p m Q (f a b') c) :
    Agrees p m Q ((x >>= f) b) c := by
  rw [bind_of_ok h]
  exact hf

/-- The checker is done, and code is written. -/
theorem Agrees.quiet {x : BuildM α} {v : β} (hx : Quiet b (x b) P) (hv : Views p b s)
    (hR : ∀ a, P a → R a v) : Agrees p b.module R (x b) (.ok v s) := by
  refine Ends.mono hx ?_ fun e _ h err he => absurd he (h err)
  rintro a b' ⟨ha, hk⟩
  exact ⟨v, s, rfl, hR a ha, hv.keep hk, hk.grows⟩

theorem Agrees.then_quiet {x : BuildM α} {f : α → BuildM α'} {Q : α' → β → Prop}
    {c : EStateM.Result (Fault Error) Static β} (hx : Agrees p b.module R (x b) c)
    (hf : ∀ a v b' s', R a v → Views p b' s' → Quiet b' (f a b') (fun a' => Q a' v)) :
    Agrees p b.module Q ((x >>= f) b) c := by
  cases hr : x b with
  | ok a b' =>
    obtain ⟨v, s', hc, ha, hv, hg⟩ := Ends.of_ok hx hr
    rw [bind_of_ok hr, hc]
    exact (Agrees.quiet (hf a v b' s' ha hv) hv fun _ h => h).grow hg
  | error e b' =>
    rw [bind_of_error hr]
    intro err he ht
    exact Ends.of_error hx hr err he ht

end lockstep

/-! ## Instructions -/

section instructions

variable {p : Place} {b : Builder} {s : Static}

theorem emit_of_some {f : String × Ty} (h : s.enclosing = some f) : emit s = .ok () s := by
  unfold emit
  rw [bind_of_ok (get_run _), h]
  rfl

/-- Outside of bodies there is no place for an instruction, on either side. -/
theorem pushInst_agrees (hv : Views p b s) {ty : Ty} {a : Action} :
    Agrees p b.module (fun r _ => (r = none ↔ ty = .void) ∧ p.enclosing ≠ none)
      (pushInst ty a b) (emit s) := by
  cases he : p.enclosing with
  | some f =>
    rw [emit_of_some (hv.enclosing.trans he)]
    have hb := hv.inBody (by simp [he])
    exact (Agrees.quiet (pushInst_quiet hb) hv fun r hr => ⟨hr, by simp⟩)
  | none =>
    have hs : s.enclosing = none := hv.enclosing.trans he
    have hc := hv.cursor_of_none he
    obtain ⟨m, scopes, cursor⟩ := b
    cases hc
    intro _ _ _
    refine ⟨s, ?_⟩
    unfold emit
    rw [bind_of_ok (get_run _), hs]
    rfl

/-- An instruction that must have a result. -/
theorem typedResult_agrees (hv : Views p b s) {ty : Ty} {a : Action} (ht : ty ≠ .void) :
    Agrees p b.module (fun v _ => v.ty = ty ∧ p.enclosing ≠ none)
      ((pushInst ty a >>= fun r => typedResult r ty) b) (emit s) := by
  refine (pushInst_agrees hv).then_quiet ?_
  rintro r _ b' s' ⟨hr, he⟩ -
  cases r with
  | none => exact absurd (hr.1 rfl) ht
  | some o => exact quiet_pure ⟨rfl, he⟩

theorem store_agrees (hv : Views p b s) {a v : Value} :
    Agrees p b.module (fun _ _ => p.enclosing ≠ none) (store a v b) (emit s) := by
  refine (pushInst_agrees hv).then_quiet ?_
  rintro r _ b' s' ⟨-, he⟩ -
  exact quiet_pure he

theorem ne_void_of_isArithmetic {ty : Ty} (h : ty.isArithmetic = true) : ty ≠ .void := by
  rintro rfl
  cases h

theorem lowerAddress_agrees (hv : Views p b s) {n : Node} :
    Agrees p b.module (fun a ty => a.ty = .ptr ty ∧ ty.isArithmetic = true)
      (Lowering.lowerAddress n p.scope b) (variableType n s) := by
  unfold Lowering.lowerAddress variableType
  refine Agrees.get ?_
  rw [hv.typeOf?_eq]
  cases hl : b.scopes.lookup? p.scope n.text with
  | none => exact fail_agrees
  | some a =>
    obtain ⟨ty, ht, ha⟩ := hv.address hl
    have e : a.ty.pointee?.getD .void = ty := by
      rw [ht]
      rfl
    rw [Option.map_some, e]
    exact agrees_pure hv ⟨ht, ha⟩

theorem lowerIdentifier_agrees (hv : Views p b s) {n : Node} :
    Agrees p b.module (fun v ty => v.ty = ty) (Lowering.lowerIdentifier n p.scope b)
      (checkIdentifier n s) := by
  unfold Lowering.lowerIdentifier checkIdentifier
  refine (lowerAddress_agrees hv).bind ?_
  rintro ⟨o, t⟩ ty b₁ s₁ ⟨ht, ha⟩ hv₁ -
  cases ht
  have hl := typedResult_agrees hv₁ (a := .load o) (ne_void_of_isArithmetic ha)
  have hload : Agrees p b₁.module (fun v ty' => v.ty = ty')
      ((load ⟨o, .ptr ty⟩ >>= pure) b₁) ((emit >>= fun _ => pure ty) s₁) := by
    refine Agrees.bind hl ?_
    rintro v _ b₂ s₂ ⟨hv', -⟩ hv₂ -
    exact agrees_pure hv₂ hv'
  rwa [bind_pure] at hload

theorem conversion?_isSome {t u : Ty} (h : t ≠ u) :
    (Lowering.conversion? t u).isSome = (t.isArithmetic && u.isArithmetic) := by
  cases t <;> cases u <;> first | rfl | exact absurd rfl h

theorem convert_agrees (hv : Views p b s) {v : Value} {ty : Ty} {context : TypeContext}
    {span : Option Span} :
    Agrees p b.module (fun _ _ => True) (Lowering.convert v ty context span b)
      (checkConversion v.ty ty context span s) := by
  unfold Lowering.convert checkConversion
  by_cases e : v.ty = ty
  · rw [if_pos e, if_pos e]
    exact agrees_pure hv trivial
  rw [if_neg e, if_neg e, ← conversion?_isSome e]
  cases hc : Lowering.conversion? v.ty ty with
  | none => exact fail_agrees
  | some op =>
    have hsome := conversion?_isSome e
    rw [hc] at hsome
    have ha : ty.isArithmetic = true := (Bool.and_eq_true_iff.1 hsome.symm).2
    exact (typedResult_agrees hv (ne_void_of_isArithmetic ha)).mono fun _ _ _ => trivial

theorem compare_quiet (hb : InBody b) {x y : Value} : Quiet b (compare x y b) (fun _ => True) := by
  refine (pushInst_quiet hb).bind fun r b' hr _ => ?_
  cases r with
  | none => cases hr.1 rfl
  | some o => exact quiet_pure trivial

/-- A condition takes one or two instructions, and the first decides. -/
theorem lowerCondition_agrees (hv : Views p b s) {v : Value} {span : Option Span} :
    Agrees p b.module (fun _ _ => p.enclosing ≠ none) (Lowering.lowerCondition v span b)
      (checkCondition v.ty span s) := by
  have hcast : ∀ op, Agrees p b.module (fun _ _ => p.enclosing ≠ none)
      ((cast op v .float >>= fun x => compare x (.const (.float (.zero false)))) b) (emit s) := by
    intro op
    refine (typedResult_agrees hv (by simp)).then_quiet ?_
    rintro x _ b' s' ⟨-, he⟩ hv'
    exact (compare_quiet (hv'.inBody he)).mono (fun _ _ h => ⟨he, h.2⟩) fun _ _ h => h
  unfold Lowering.lowerCondition checkCondition
  cases ht : v.ty with
  | int => exact hcast .signedToFloat
  | char => exact hcast .unsignedToFloat
  | float => exact (typedResult_agrees hv (by simp)).mono fun _ _ h => h.2
  | _ => exact fail_agrees

theorem expectType_agrees (hv : Views p b s) {v : Value} {ty : Ty} {context : TypeContext}
    {span : Option Span} :
    Agrees p b.module (fun _ _ => True) (Lowering.expectType v ty context span b)
      (expectType v.ty ty context span s) := by
  unfold Lowering.expectType expectType
  by_cases e : v.ty = ty
  · rw [if_pos e, if_pos e]
    exact agrees_pure hv trivial
  · rw [if_neg e, if_neg e]
    exact fail_agrees

theorem expectTypes_agrees {call : Option Span} {vs : List Value} :
    ∀ {tys : List Ty} {ns : List Node} {b : Builder} {s : Static}, Views p b s →
      Agrees p b.module (fun _ _ => True) (Lowering.expectTypes call vs tys ns b)
        (expectTypes call (vs.map (·.ty)) tys ns s) := by
  induction vs with
  | nil =>
    intro tys ns b s hv
    exact agrees_pure hv trivial
  | cons v vs ih =>
    intro tys ns b s hv
    rcases tys with _ | ⟨ty, tys⟩
    · exact agrees_pure hv trivial
    rcases ns with _ | ⟨n, ns⟩
    · exact agrees_pure hv trivial
    rw [List.map_cons]
    unfold Lowering.expectTypes expectTypes
    exact (expectType_agrees hv).bind fun _ _ _ _ _ hv₁ _ => ih hv₁

end instructions

/-! ## Variables -/

section bindings

variable {p : Place} {b : Builder} {s : Static}

theorem bindVariable_agrees (hv : Views p b s) {name : Node} {address : Value} {ty : Ty}
    (ht : address.ty = .ptr ty) (ha : ty.isArithmetic = true) :
    Agrees p b.module (fun _ _ => True) (Lowering.bindVariable name address p.scope b)
      (bindVariable name ty s) := by
  obtain ⟨top, outer, hn, -⟩ := hv.nested
  unfold Lowering.bindVariable bindVariable
  rw [bind_of_ok (get_run s), hv.binds_eq]
  cases hd : b.scopes.define? p.scope name.text address with
  | some c =>
    obtain ⟨hfree, -⟩ := hn.define hd
    have hbinds : b.scopes.binds p.scope name.text = false := by
      rw [ScopeChain.binds, hn.get?_eq]
      exact hfree
    rw [bind_of_ok (define_of_some hd), hbinds]
    exact ⟨(), _, rfl, trivial, hv.bind ht ha hd, .refl _⟩
  | none =>
    have hbinds : b.scopes.binds p.scope name.text = true := by
      rw [ScopeChain.define?, hn.get?_eq] at hd
      rw [ScopeChain.binds, hn.get?_eq]
      simpa using hd
    rw [bind_of_ok (define_of_none hd), hbinds]
    exact fail_agrees

theorem literal?_type (n : Node) : n.literal?.map Scalar.ty = literalType? n := by
  unfold Node.literal? literalType?
  cases n.kind <;> rfl

/-- The initial value of a global is refused for the same reason as its type. -/
theorem globalInit_eq {name : Node} {ty : Ty} (ha : ty.isArithmetic = true) {init : Option Node} :
    globalInit name ty init = (Lowering.globalInit name ty init).map fun _ => () := by
  unfold globalInit Lowering.globalInit
  cases init with
  | none =>
    rw [if_pos ha]
    cases ty <;> first | rfl | cases ha
  | some init =>
    dsimp only
    rw [← literal?_type]
    cases init.unwrapped.literal? with
    | none => rfl
    | some v =>
      dsimp only [Option.map_some]
      by_cases e : v.ty = ty
      · rw [if_pos e, if_pos e]
        rfl
      · rw [if_neg e, if_neg e]
        rfl

theorem addGlobal_views (hv : Views p b s) (x : Global) :
    Views p { b with module := b.module.addGlobal x }
      { s with globals := s.globals ++ [x.name] } := by
  refine ⟨hv.nested, hv.scopes, hv.addresses, ?_, hv.functions, hv.names, hv.indexed.addGlobal x,
    hv.enclosing, hv.outside, hv.inside⟩
  show s.globals ++ [x.name] = (b.module.globals ++ [x]).map (·.name)
  rw [hv.globals, List.map_append]
  rfl

theorem lookup_isSome (hv : Views p b s) {name : String} :
    (s.functions.lookup name).isSome = (b.module.functionIndex? name).isSome := by
  cases hf : b.module.functionIndex? name with
  | none =>
    rw [hv.lookup_of_noIndex hf]
    rfl
  | some i =>
    obtain ⟨f, -, -, hl⟩ := hv.lookup_of_index hf
    rw [hl]
    rfl

theorem lowerGlobal_agrees (hv : Views p b s) {name : Node} {ty : Ty} (ha : ty.isArithmetic = true)
    {init : Option Node} :
    Agrees p b.module (fun _ _ => True) (Lowering.lowerGlobal name ty init p.scope b)
      (checkGlobal name ty init s) := by
  unfold Lowering.lowerGlobal checkGlobal
  refine Agrees.get ?_
  rw [lookup_isSome hv]
  by_cases hdup : (b.module.globalIndex? name.text).isSome = true ∨
      (b.module.functionIndex? name.text).isSome = true
  · rw [if_pos hdup, if_pos (hdup.imp_left hv.mem_globals.2)]
    exact fail_agrees
  rw [if_neg hdup, if_neg fun h => hdup (h.imp_left hv.mem_globals.1)]
  -- reading the initial value changes neither state
  cases hi : Lowering.globalInit name ty init with
  | error e =>
    rw [globalInit_eq ha, hi]
    exact fun _ _ _ => ⟨s, rfl⟩
  | ok v =>
    rw [globalInit_eq ha, hi]
    have hv' := addGlobal_views hv { name := name.text, ty, init := v }
    exact (bindVariable_agrees hv' rfl ha).grow Lowering.addGlobal_grows

end bindings

/-! ## Functions -/

section functions

variable {α β : Type} {R : α → β → Prop} {p : Place} {b : Builder} {s : Static}

theorem addFunction_views (hv : Views p b s) {name : String} {sig : Signature}
    (hf : b.module.functionIndex? name = none) :
    Views p { b with module := b.module.addFunction name sig }
      { s with functions := s.functions ++ [(name, { signature := sig, hasBody := false })] } := by
  refine ⟨hv.nested, hv.scopes, hv.addresses, hv.globals, ?_, ?_, hv.indexed.addFunction name sig,
    hv.enclosing, hv.outside, ?_⟩
  · show s.functions ++ _ = (b.module.functions ++ _).map entry
    rw [hv.functions, List.map_append]
    rfl
  · show ((b.module.functions ++ _).map (·.name)).Nodup
    rw [List.map_append]
    refine List.nodup_append.2 ⟨hv.names, by simp, fun x hx y hy => ?_⟩
    rw [List.map_singleton, List.mem_singleton] at hy
    subst hy
    rintro rfl
    exact (Module.functionIndex?_none hv.indexed).1 hf hx
  · intro c hc
    obtain ⟨f, hi, he, hbody⟩ := hv.inside c hc
    refine ⟨f, ?_, he, hbody⟩
    show (b.module.functions ++ _)[c.function]? = some f
    rw [List.getElem?_append_left (List.getElem?_eq_some_iff.1 hi).1]
    exact hi

/-- A declaration is refused on both sides, or gives the same function on both. -/
theorem declareFunction_cases (hv : Views p b s) (name : Node) (sig : Signature) :
    (∃ e, Lowering.declareFunction name sig b = .error e b ∧ declare name sig s = .error e s) ∨
    ∃ i f b' s', Lowering.declareFunction name sig b = .ok i b' ∧
      declare name sig s = .ok (known f) s' ∧ b'.module.functions[i]? = some f ∧
      f.name = name.text ∧ f.signature = sig ∧ Views p b' s' ∧ b.module.Grows b'.module := by
  unfold Lowering.declareFunction declare
  rw [bind_of_ok (get_run b), bind_of_ok (get_run s)]
  by_cases hg : (b.module.globalIndex? name.text).isSome = true
  · rw [if_pos hg, if_pos (hv.mem_globals.2 hg)]
    exact .inl ⟨_, rfl, rfl⟩
  rw [if_neg hg, if_neg fun h => hg (hv.mem_globals.1 h)]
  cases hf : b.module.functionIndex? name.text with
  | none =>
    rw [hv.lookup_of_noIndex hf]
    have hreg : b.module.Registers name.text sig _ _ :=
      .new (Option.not_isSome_iff_eq_none.1 hg) hf ((Module.functionIndex?_none hv.indexed).1 hf)
    refine .inr ⟨_, { name := name.text, signature := sig }, _, _, rfl, rfl, ?_, rfl, rfl,
      addFunction_views hv hf, hreg.declares.grows⟩
    show (b.module.functions ++ _)[b.module.functions.length]? = _
    simp
  | some i =>
    obtain ⟨f, hi, hn, hl⟩ := hv.lookup_of_index hf
    rw [hl]
    dsimp only
    rw [bind_of_ok (function_of_some hi)]
    by_cases hs : f.signature ≠ sig
    · rw [if_pos hs, if_pos (show (known f).signature ≠ sig from hs)]
      exact .inl ⟨_, rfl, rfl⟩
    · rw [if_neg hs, if_neg (show ¬ (known f).signature ≠ sig from hs)]
      exact .inr ⟨i, f, b, s, rfl, rfl, hi, hn, Decidable.not_not.1 hs, hv, .refl _⟩

theorem declareFunction_agrees (hv : Views p b s) {name : Node} {sig : Signature}
    {k : Nat → BuildM α}
    {g : Known → CheckM β}
    (hk : ∀ i f b' s', b'.module.functions[i]? = some f → f.name = name.text → f.signature = sig →
      Views p b' s' → Agrees p b'.module R (k i b') (g (known f) s')) :
    Agrees p b.module R ((Lowering.declareFunction name sig >>= k) b)
      ((declare name sig >>= g) s) := by
  rcases declareFunction_cases hv name sig with ⟨e, hb, hs⟩ |
    ⟨i, f, b', s', hb, hs, hi, hn, hsig, hv', hgrows⟩
  · rw [bind_of_error hb, bind_of_error hs]
    exact fun _ _ _ => ⟨s, rfl⟩
  · rw [bind_of_ok hb, bind_of_ok hs]
    exact (hk i f b' s' hi hn hsig hv').grow hgrows

theorem lowerPrototype_agrees (hv : Views p b s) {ret : Ty} {d : Node} :
    Agrees p b.module (fun _ _ => True) (Lowering.lowerPrototype ret d b)
      (checkPrototype ret d s) := by
  unfold Lowering.lowerPrototype checkPrototype
  refine (accept_agrees hv _).bind ?_
  rintro decl _ b₁ s₁ ⟨-, rfl⟩ hv₁ -
  exact declareFunction_agrees hv₁ fun i f b₂ s₂ _ _ _ hv₂ => agrees_pure hv₂ trivial

/-! ### Scopes and bodies -/

theorem inScope_of_ok {y : CheckM β} {v : β} {s' : Static}
    (h : y { s with scopes := [] :: s.scopes } = .ok v s') :
    inScope y s = .ok v { s' with scopes := s'.scopes.tail } := by
  unfold inScope
  rw [bind_of_ok (modify_run _ s), bind_of_ok h]
  rfl

theorem inScope_of_error {y : CheckM β} {e : Fault Error} {s' : Static}
    (h : y { s with scopes := [] :: s.scopes } = .error e s') : inScope y s = .error e s' := by
  unfold inScope
  rw [bind_of_ok (modify_run _ s), bind_of_error h]

theorem inChildScope_agrees {x : ScopeId → BuildM α} {y : CheckM β}
    (h : Agrees (p.inner b.scopes.opened) b.module R
      (x b.scopes.opened { b with scopes := (b.scopes.push (some p.scope)).2 })
      (y { s with scopes := [] :: s.scopes })) :
    Agrees p b.module R (inChildScope p.scope x b) (inScope y s) := by
  cases hr : x b.scopes.opened { b with scopes := (b.scopes.push (some p.scope)).2 } with
  | ok a b' =>
    obtain ⟨v, s', hy, ha, hv, hg⟩ := Ends.of_ok h hr
    rw [inChildScope_of_ok (b := b) hr, inScope_of_ok hy]
    exact ⟨v, _, rfl, ha, hv.pop, hg⟩
  | error e b' =>
    rw [inChildScope_of_error (b := b) hr]
    intro err he ht
    obtain ⟨s', hy⟩ := Ends.of_error h hr err he ht
    exact ⟨s', inScope_of_error hy⟩

/-- The body of a function is entered on both sides. -/
theorem Views.enter (hv : Views p b s) {k : Nat} {f g : Function}
    (hf : b.module.functions[k]? = some f) (hn : g.name = f.name) (hs : g.signature = f.signature)
    (hbody : g.hasBody = true) (block : Nat) :
    Views (p.within (f.name, f.signature.ret))
      { b with module := b.module.put k g, cursor := some { function := k, block } }
      { s.define f.name with enclosing := some (f.name, f.signature.ret) } := by
  have hk := (List.getElem?_eq_some_iff.1 hf).1
  refine ⟨hv.nested, hv.scopes, hv.addresses, hv.globals, ?_, ?_, hv.indexed.put hf hn.symm, rfl,
    nofun, ?_⟩
  · show s.functions.map _ = (b.module.functions.set k g).map entry
    rw [hv.functions]
    apply List.ext_getElem?
    intro j
    by_cases hj : j = k
    · subst hj
      rw [List.getElem?_map, List.getElem?_map, List.getElem?_map, hf, List.getElem?_set_self hk]
      simp [entry, known, hn, hs, hbody]
    · -- no other function has this name
      rw [List.getElem?_map, List.getElem?_map, List.getElem?_map,
        List.getElem?_set_ne (Ne.symm hj)]
      cases he : b.module.functions[j]? with
      | none => rfl
      | some e =>
        have hne : e.name ≠ f.name := fun h => hj (index_eq_of_nodup hv.names he hf h)
        simp [entry, hne]
  · rw [Module.put_names hf hn.symm]
    exact hv.names
  · rintro c ⟨⟩
    refine ⟨g, Draft.getElem?_put hk, ?_, hbody⟩
    rw [hn, hs]
    rfl

/-- And left again. -/
theorem Views.leave {f : String × Ty} (hv : Views (p.within f) b s) (he : p.enclosing = none) :
    Views p { b with cursor := none } { s with enclosing := none } :=
  ⟨hv.nested, hv.scopes, hv.addresses, hv.globals, hv.functions, hv.names, hv.indexed, he.symm,
    fun _ => he, nofun⟩

/-- The builder takes back its cursor when a body is over. -/
theorem leave_agrees {f : String × Ty} {x : BuildM Unit} {y : CheckM Unit} {m : Module}
    (he : p.enclosing = none)
    (h : Agrees (p.within f) m (fun _ _ => True) (x b) (y s)) :
    Agrees p m (fun _ _ => True)
      (match x b with
        | .ok _ b' => .ok () { b' with cursor := none }
        | .error e b' => .error e { b' with cursor := none })
      ((y >>= fun _ => modify fun s => { s with enclosing := none }) s) := by
  cases hr : x b with
  | ok a b' =>
    obtain ⟨v, s', hy, -, hv, hg⟩ := Ends.of_ok h hr
    rw [bind_of_ok hy]
    exact ⟨(), _, rfl, trivial, hv.leave he, hg⟩
  | error e b' =>
    intro err herr ht
    obtain ⟨s', hy⟩ := Ends.of_error h hr err herr ht
    exact ⟨s', bind_of_error hy⟩

/-- Verification has no say in what the checker finds. -/
theorem verifyLowered_agrees (hv : Views p b s) {k : Nat} {a : α} {v : β} (ha : R a v) :
    Agrees p b.module R ((Lowering.verifyLowered k >>= fun _ => pure a) b) (.ok v s) := by
  have hrun : Lowering.verifyLowered k b = .ok () b ∨ ∃ e, Lowering.verifyLowered k b = .error e b ∧
      ∀ err, e = .error err → ¬ err.cause.OfTree := by
    unfold Lowering.verifyLowered
    rw [bind_of_ok (get_run b)]
    rcases b.module.verifyFunction k with (e | what | _) | _
    · exact .inr ⟨_, rfl, by rintro _ ⟨⟩ h; exact h e rfl⟩
    · exact .inr ⟨_, rfl, nofun⟩
    · exact .inr ⟨_, rfl, nofun⟩
    · exact .inl rfl
  rcases hrun with h | ⟨e, h, hne⟩
  · rw [bind_of_ok h]
    exact ⟨v, s, rfl, ha, hv, .refl _⟩
  · rw [bind_of_error h]
    exact fun err he ht => absurd ht (hne err he)

end functions

end SlotIR.Checking
