import SlotIR.Proofs.Building
import SlotIR.Proofs.Renaming

/-!
# Building under other names

Two computations mirror each other if they do the same under other names: from a builder and from
the same builder with other names both end in related values, or both stop for the same cause, told
with other names; and the builders that are left differ in their names only (`Mirrors`). Places in
the source do not matter. Every step of building mirrors itself, with its names replaced.
-/

namespace SlotIR

open Lowering (Error Cause Malformation)
open Syntax (Span)

/-! ## Computations -/

/-- Two ways to stop that are the same but for names and for the place in the source. -/
inductive FaultMirrors (r : String → String) : Fault Error → Fault Error → Prop
  | error (span span' : Option Span) (cause : Cause) :
    FaultMirrors r (.error ⟨span, cause⟩) (.error ⟨span', cause.rename r⟩)
  | missing (what : Missing) : FaultMirrors r (.missing what) (.missing what)
  | exhausted : FaultMirrors r .exhausted .exhausted

section mirrors

variable {α β α' β' : Type}

/-- Two ends of building that are the same but for names. -/
inductive EndsMirrored (r : String → String) (R : α → β → Prop) :
    EStateM.Result (Fault Error) Builder α → EStateM.Result (Fault Error) Builder β → Prop
  | ok {a : α} {a' : β} {b : Builder} (related : R a a') :
    EndsMirrored r R (.ok a b) (.ok a' (b.rename r))
  | error {e e' : Fault Error} {b : Builder} (fault : FaultMirrors r e e') :
    EndsMirrored r R (.error e b) (.error e' (b.rename r))

/-- The second computation does under other names what the first one does. -/
def Mirrors (r : String → String) (R : α → β → Prop) (x : BuildM α) (y : BuildM β) : Prop :=
  ∀ b, EndsMirrored r R (x b) (y (b.rename r))

variable {r : String → String} {R : α → β → Prop} {Q : α' → β' → Prop} {x : BuildM α} {y : BuildM β}

namespace Mirrors

theorem bind {f : α → BuildM α'} {g : β → BuildM β'} (h : Mirrors r R x y)
    (hf : ∀ a a', R a a' → Mirrors r Q (f a) (g a')) : Mirrors r Q (x >>= f) (y >>= g) := by
  intro b
  have hb := h b
  cases hx : x b <;> cases hy : y (b.rename r) <;> rw [hx, hy] at hb <;> cases hb
  · rw [bind_of_ok hx, bind_of_ok hy]
    exact hf _ _ ‹_› _
  · rw [bind_of_error hx, bind_of_error hy]
    exact .error ‹_›

/-- Both compute the same value and go on with it. -/
theorem bind_eq {x y : BuildM α} {f : α → BuildM α'} {g : α → BuildM β'} (h : Mirrors r Eq x y)
    (hf : ∀ a, Mirrors r Q (f a) (g a)) : Mirrors r Q (x >>= f) (y >>= g) := by
  refine h.bind ?_
  rintro a _ rfl
  exact hf a

/-- Both read their own builder. -/
theorem get {f : Builder → BuildM α'} {g : Builder → BuildM β'}
    (h : ∀ b, Mirrors r Q (f b) (g (b.rename r))) : Mirrors r Q (get >>= f) (get >>= g) :=
  fun b => h b b

theorem ite {p : Prop} [Decidable p] {d' : Decidable p} {x₁ x₂ : BuildM α} {y₁ y₂ : BuildM β}
    (h₁ : Mirrors r R x₁ y₁) (h₂ : Mirrors r R x₂ y₂) :
    Mirrors r R (if p then x₁ else x₂) (@ite _ p d' y₁ y₂) := by
  by_cases hp : p
  · rw [if_pos hp, if_pos hp]
    exact h₁
  · rw [if_neg hp, if_neg hp]
    exact h₂

end Mirrors

theorem mirrors_pure {a : α} {a' : β} (h : R a a') : Mirrors r R (pure a) (pure a') :=
  fun _ => .ok h

theorem mirrors_modifyGet {g : Builder → α × Builder} {g' : Builder → β × Builder}
    (h : ∀ b, R (g b).1 (g' (b.rename r)).1) (hb : ∀ b, (g' (b.rename r)).2 = (g b).2.rename r) :
    Mirrors r R (modifyGet g) (modifyGet g') := by
  intro b
  rw [modifyGet_run, modifyGet_run, hb b]
  exact .ok (h b)

theorem mirrors_modify {g g' : Builder → Builder} (h : ∀ b, g' (b.rename r) = (g b).rename r) :
    Mirrors r Eq (modify g) (modify g') := by
  intro b
  rw [modify_run, modify_run, h b]
  exact .ok rfl

end mirrors

/-! ## Stopping -/

namespace Builder

section stopping

variable {α β : Type} {r : String → String} {R : α → β → Prop} {span span' : Option Span}

theorem fail_mirrors {cause cause' : Cause} (h : cause' = cause.rename r) :
    Mirrors r R (fail span cause) (fail span' cause') := by
  subst h
  exact fun _ => .error (.error ..)

theorem malformed_mirrors {how how' : Malformation} (h : how' = how.rename r) :
    Mirrors r R (malformed span how) (malformed span' how') :=
  fail_mirrors (congrArg Cause.malformed h)

/-- Two results that are read off trees: related values, or the same cause under other names. -/
inductive ReadsMirrored (r : String → String) (R : α → β → Prop) :
    Except Error α → Except Error β → Prop
  | ok {a : α} {a' : β} (related : R a a') : ReadsMirrored r R (.ok a) (.ok a')
  | error (span span' : Option Span) (cause : Cause) :
    ReadsMirrored r R (.error ⟨span, cause⟩) (.error ⟨span', cause.rename r⟩)

theorem ReadsMirrored.bind {α' β' : Type} {Q : α' → β' → Prop} {x : Except Error α}
    {y : Except Error β} {f : α → Except Error α'} {g : β → Except Error β'}
    (h : ReadsMirrored r R x y) (hf : ∀ a a', R a a' → ReadsMirrored r Q (f a) (g a')) :
    ReadsMirrored r Q (x >>= f) (y >>= g) := by
  cases h with
  | ok related => exact hf _ _ related
  | error span span' cause => exact .error span span' cause

theorem liftError_mirrors {x : Except Error α} {y : Except Error β} (h : ReadsMirrored r R x y) :
    Mirrors r R (liftError x) (liftError y) := by
  cases h with
  | ok related => exact mirrors_pure related
  | error span span' cause => exact fun _ => .error (.error ..)

theorem present_mirrors (g : α → β) (x : Except Missing α) :
    Mirrors r (fun a a' => a' = g a) (present x) (present (x.map g)) := by
  cases x with
  | ok a => exact mirrors_pure rfl
  | error e => exact fun _ => .error (.missing e)

end stopping

/-! ## Functions and blocks -/

theorem modify_map_comm {α β : Type} {g : α → β} {c : α → α} {c' : β → β}
    (h : ∀ a, c' (g a) = g (c a)) (l : List α) (i : Nat) :
    (l.map g).modify i c' = (l.modify i c).map g := by
  induction l generalizing i with
  | nil => cases i <;> rfl
  | cons a l ih => cases i <;> simp [h, ih]

section steps

variable {r : String → String}

theorem function_mirrors (i : Nat) :
    Mirrors r (fun f f' => f' = f.rename r) (function i) (function i) := by
  refine Mirrors.get fun b => ?_
  have e : (b.rename r).module.function i = (b.module.function i).map (Function.rename r) := by
    unfold Module.function
    rw [show (b.rename r).module = b.module.rename r from rfl, Module.getElem?_rename]
    cases b.module.functions[i]? <;> rfl
  rw [e]
  exact present_mirrors _ _

theorem modifyFunction_mirrors (i : Nat) {change change' : Function → Function}
    (h : ∀ f, change' (f.rename r) = (change f).rename r) :
    Mirrors r Eq (modifyFunction i change) (modifyFunction i change') := by
  refine (function_mirrors i).bind fun _ _ _ => mirrors_modify fun b => ?_
  have e : (b.module.functions.map (Function.rename r)).modify i change' =
      (b.module.functions.modify i change).map (Function.rename r) := modify_map_comm h _ _
  simp only [Builder.rename, Module.rename, Module.modifyFunction, e]

theorem addFunction_mirrors (name : String) (signature : Signature) :
    Mirrors r Eq (addFunction name signature) (addFunction (r name) signature) := by
  refine mirrors_modifyGet (fun b => ?_) fun b => ?_
  · simp [Builder.rename, Module.rename]
  · simp [Builder.rename, Module.rename, Module.addFunction, Function.rename, NameTable.rename]

theorem addGlobal_mirrors (g : Global) :
    Mirrors r Eq (addGlobal g) (addGlobal (g.rename r)) := by
  refine mirrors_modifyGet (fun b => ?_) fun b => ?_
  · simp [Builder.rename, Module.rename]
  · simp [Builder.rename, Module.rename, Module.addGlobal, NameTable.rename, Global.rename]

theorem setCursor_mirrors (cursor : Option Cursor) :
    Mirrors r Eq (setCursor cursor) (setCursor cursor) :=
  mirrors_modifyGet (fun _ => rfl) fun _ => rfl

theorem current_mirrors : Mirrors r Eq current current := by
  refine Mirrors.get fun b => ?_
  rw [b.rename_cursor r]
  cases b.cursor with
  | some c => exact mirrors_pure rfl
  | none => exact malformed_mirrors rfl

theorem enterFunction_mirrors (i : Nat) (name : String) :
    Mirrors r Eq (enterFunction i (entryLabel name)) (enterFunction i (entryLabel (r name))) := by
  refine (function_mirrors i).bind ?_
  rintro f _ rfl
  have hlen : (f.rename r).blocks.length = f.blocks.length := List.length_map ..
  rw [hlen]
  refine Mirrors.bind_eq (modifyFunction_mirrors i fun g => ?_) fun _ => setCursor_mirrors _
  simp [Function.rename, Block.rename, relabel_entryLabel]

theorem positionAtEnd_mirrors (block : Nat) :
    Mirrors r Eq (positionAtEnd block) (positionAtEnd block) :=
  current_mirrors.bind_eq fun _ => mirrors_modify fun _ => rfl

theorem createBlock_mirrors {label : String} (h : label ∈ innerLabels) :
    Mirrors r Eq (createBlock label) (createBlock label) := by
  refine current_mirrors.bind_eq fun c => (function_mirrors c.function).bind ?_
  rintro f _ rfl
  refine Mirrors.bind_eq (modifyFunction_mirrors _ fun g => ?_) fun _ => mirrors_pure ?_
  · simp [Function.rename, Block.rename, relabel_inner r h]
  · simp [Function.rename]

theorem attachBlock_mirrors (block : Nat) :
    Mirrors r Eq (attachBlock block) (attachBlock block) := by
  refine current_mirrors.bind_eq fun c => modifyFunction_mirrors _ fun f => ?_
  show (if f.isAttached block then _ else _) = _
  split <;> rfl

theorem appendBlock_mirrors {label : String} (h : label ∈ innerLabels) :
    Mirrors r Eq (appendBlock label) (appendBlock label) :=
  (createBlock_mirrors h).bind_eq fun block => (attachBlock_mirrors block).bind_eq fun _ =>
    mirrors_pure rfl

theorem addSlot_mirrors (name : Option String) (ty : Ty) (origin : SlotOrigin) :
    Mirrors r Eq (addSlot name ty origin) (addSlot (name.map r) ty origin) := by
  refine current_mirrors.bind_eq fun c => (function_mirrors c.function).bind ?_
  rintro f _ rfl
  refine Mirrors.bind_eq (modifyFunction_mirrors _ fun g => ?_) fun _ => mirrors_pure ?_
  · simp [Function.rename, Slot.rename]
  · simp [Function.rename]

/-! ## Instructions -/

theorem isTerminated_mirrors : Mirrors r Eq isTerminated isTerminated := by
  refine Mirrors.get fun b => ?_
  rw [b.rename_cursor r]
  cases b.cursor with
  | none => exact mirrors_pure rfl
  | some c =>
    refine (function_mirrors c.function).bind ?_
    rintro f _ rfl
    refine mirrors_pure ?_
    rw [Function.getElem?_rename]
    cases f.blocks[c.block]? <;> rfl

theorem openBlock_mirrors : Mirrors r Eq openBlock openBlock := by
  refine isTerminated_mirrors.bind_eq fun closed => ?_
  cases closed with
  | false => exact current_mirrors
  | true =>
    refine (appendBlock_mirrors (by decide)).bind_eq fun block => ?_
    exact (positionAtEnd_mirrors block).bind_eq fun _ => current_mirrors

theorem modifyBlock_mirrors (c : Cursor) {change : Block → Block}
    (h : ∀ b, change (b.rename r) = (change b).rename r) :
    Mirrors r Eq (modifyBlock c change) (modifyBlock c change) := by
  refine (function_mirrors c.function).bind ?_
  rintro f _ rfl
  rw [f.block_rename r]
  refine (present_mirrors (Block.rename r) _).bind fun _ _ _ => modifyFunction_mirrors _ fun g => ?_
  have e : (g.blocks.map (Block.rename r)).modify c.block change =
      (g.blocks.modify c.block change).map (Block.rename r) := modify_map_comm h _ _
  simp only [Function.rename, e]

theorem pushInst_mirrors (ty : Ty) (action : Action) :
    Mirrors r Eq (pushInst ty action) (pushInst ty action) := by
  refine openBlock_mirrors.bind_eq fun c => (function_mirrors c.function).bind ?_
  rintro f _ rfl
  refine Mirrors.ite ?_ ?_
  · refine Mirrors.bind_eq (modifyBlock_mirrors c ?_) fun _ => mirrors_pure rfl
    exact fun _ => rfl
  · refine Mirrors.bind_eq (modifyBlock_mirrors c ?_) fun _ => ?_
    · exact fun _ => rfl
    refine Mirrors.bind_eq (modifyFunction_mirrors _ ?_) fun _ => mirrors_pure rfl
    exact fun _ => rfl

theorem terminate_mirrors (t : Terminator) : Mirrors r Eq (terminate t) (terminate t) :=
  openBlock_mirrors.bind_eq fun c => modifyBlock_mirrors c fun _ => rfl

theorem typedResult_mirrors (result : Option Operand) (ty : Ty) :
    Mirrors r Eq (typedResult result ty) (typedResult result ty) := by
  cases result with
  | some operand => exact mirrors_pure rfl
  | none => exact malformed_mirrors rfl

theorem load_mirrors (address : Value) : Mirrors r Eq (load address) (load address) := by
  unfold load
  cases address.ty.pointee? with
  | none => exact malformed_mirrors rfl
  | some ty => exact (pushInst_mirrors ty _).bind_eq fun result => typedResult_mirrors result ty

theorem store_mirrors (address value : Value) :
    Mirrors r Eq (store address value) (store address value) :=
  (pushInst_mirrors .void _).bind_eq fun _ => mirrors_pure rfl

theorem cast_mirrors (op : CastOp) (value : Value) (ty : Ty) :
    Mirrors r Eq (cast op value ty) (cast op value ty) :=
  (pushInst_mirrors ty _).bind_eq fun result => typedResult_mirrors result ty

theorem compare_mirrors (lhs rhs : Value) : Mirrors r Eq (compare lhs rhs) (compare lhs rhs) :=
  (pushInst_mirrors .bool _).bind_eq fun result => typedResult_mirrors result .bool

theorem call_mirrors (i : Nat) (args : List Operand) :
    Mirrors r Eq (call i args) (call i args) := by
  refine (function_mirrors i).bind ?_
  rintro f _ rfl
  exact (pushInst_mirrors f.signature.ret _).bind_eq fun _ => mirrors_pure rfl

/-! ## Scopes -/

theorem define_mirrors (hr : Function.Injective r) (id : ScopeId) (name : String) (v : Value) :
    Mirrors r Eq (define id name v) (define id (r name) v) := by
  have e : ∀ b : Builder, (b.rename r).scopes.define? id (r name) v =
      (b.scopes.define? id name v).map (ScopeChain.rename r) := fun b =>
    b.scopes.define?_rename hr id name v
  refine mirrors_modifyGet (fun b => ?_) fun b => ?_
  · rw [e]
    cases b.scopes.define? id name v <;> rfl
  · rw [e]
    cases b.scopes.define? id name v <;> rfl

theorem inChildScope_mirrors {α β : Type} {R : α → β → Prop} (parent : ScopeId)
    {body : ScopeId → BuildM α} {body' : ScopeId → BuildM β}
    (h : ∀ id, Mirrors r R (body id) (body' id)) :
    Mirrors r R (inChildScope parent body) (inChildScope parent body') := by
  intro b
  have hpop : ∀ (b' : Builder) (id : ScopeId),
      { b'.rename r with scopes := (b'.rename r).scopes.pop id } =
        ({ b' with scopes := b'.scopes.pop id } : Builder).rename r := fun b' id =>
    congrArg (Builder.mk _ · _) (b'.scopes.pop_rename r id)
  have hb : EndsMirrored r R (body _ { b with scopes := (b.scopes.push (some parent)).2 })
      (body' _ { b.rename r with scopes := ((b.rename r).scopes.push (some parent)).2 }) :=
    h (b.scopes.push (some parent)).1 _
  cases hx : body _ { b with scopes := (b.scopes.push (some parent)).2 } <;>
    cases hy : body' _ { b.rename r with scopes := ((b.rename r).scopes.push (some parent)).2 } <;>
    rw [hx, hy] at hb <;> cases hb
  · rw [inChildScope_of_ok hx, inChildScope_of_ok hy, hpop]
    exact .ok ‹_›
  · rw [inChildScope_of_error hx, inChildScope_of_error hy, hpop]
    exact .error ‹_›

end steps

end Builder

end SlotIR
