import SlotIR.Proofs.BodyLowering
import SlotIR.Proofs.Correspondence
import SlotIR.Proofs.StaticCheck

/-!
# What a checker sees of a builder

A checker and a builder that walk the same tree are at the same place if the checker knows what the
builder's scopes, tables and cursor say (`Checking.Views`). Most of what a builder does inside of a
body writes code, which a checker does not see: such a step keeps every view (`Checking.Keeps`), and
it cannot be refused, though it may still be stopped by a fault (`Checking.Quiet`).
-/

namespace SlotIR.Checking

open Syntax (Node Span)
open Lowering (Error)
open Builder

/-- What is known of a function of a module. -/
def known (f : Function) : Known := { signature := f.signature, hasBody := f.hasBody }

def entry (f : Function) : String × Known := (f.name, known f)

/-- A variable with the type of what is stored at its address. -/
def typedName (p : String × Value) : String × Ty := (p.1, p.2.ty.pointee?.getD .void)

/-! ## Steps that write code -/

/-- Nothing changed that a checker can see. -/
structure Keeps (b b' : Builder) : Prop where
  scopes : b'.scopes = b.scopes
  globals : b'.module.globals = b.module.globals
  functions : b'.module.functions.map entry = b.module.functions.map entry
  functionTable : b'.module.functionTable = b.module.functionTable
  globalTable : b'.module.globalTable = b.module.globalTable
  cursor : b'.cursor.map (·.function) = b.cursor.map (·.function)

namespace Keeps

variable {b b' b'' : Builder}

theorem refl (b : Builder) : Keeps b b := ⟨rfl, rfl, rfl, rfl, rfl, rfl⟩

theorem trans (h : Keeps b b') (h' : Keeps b' b'') : Keeps b b'' :=
  ⟨h'.scopes.trans h.scopes, h'.globals.trans h.globals, h'.functions.trans h.functions,
    h'.functionTable.trans h.functionTable, h'.globalTable.trans h.globalTable,
    h'.cursor.trans h.cursor⟩

theorem function (h : Keeps b b') {i : Nat} {f : Function} (hf : b.module.functions[i]? = some f) :
    ∃ f', b'.module.functions[i]? = some f' ∧ entry f' = entry f := by
  have e := congrArg (fun l => l[i]?) h.functions
  rw [List.getElem?_map, List.getElem?_map, hf] at e
  exact Option.map_eq_some_iff.1 e

theorem grows (h : Keeps b b') : b.module.Grows b'.module := by
  refine ⟨fun hg => h.globals ▸ hg, fun hf => ?_⟩
  obtain ⟨f', hf', e⟩ := h.function hf
  exact ⟨f', hf', congrArg (·.1) e, congrArg (·.2.signature) e⟩

end Keeps

/-- The cursor is in the body of a function. -/
def InBody (b : Builder) : Prop :=
  ∃ c f, b.cursor = some c ∧ b.module.functions[c.function]? = some f ∧ f.hasBody = true

theorem Keeps.inBody {b b' : Builder} (h : Keeps b b') (hb : InBody b) : InBody b' := by
  obtain ⟨c, f, hc, hf, hbody⟩ := hb
  have e := h.cursor
  rw [hc] at e
  obtain ⟨c', hc', hi⟩ := Option.map_eq_some_iff.1 e
  obtain ⟨f', hf', ef⟩ := h.function hf
  refine ⟨c', f', hc', hi ▸ hf', ?_⟩
  rw [← hbody]
  exact congrArg (·.2.hasBody) ef

/-- A way to stop that is not an error of the tree or of the module. -/
def IsFault (e : Fault Error) : Prop := ∀ err, e ≠ .error err

/-- A step that a checker does not see. -/
def Quiet {α : Type} (b : Builder) (r : EStateM.Result (Fault Error) Builder α) (P : α → Prop) :
    Prop :=
  Ends r (fun a b' => P a ∧ Keeps b b') (fun e _ => IsFault e)

section quiet

variable {α β : Type} {b : Builder} {P : α → Prop} {Q : β → Prop}

theorem Quiet.bind {x : BuildM α} {f : α → BuildM β} (hx : Quiet b (x b) P)
    (hf : ∀ a b', P a → Keeps b b' → Quiet b' (f a b') Q) : Quiet b ((x >>= f) b) Q := by
  refine Ends.bind hx ?_
  rintro a b' ⟨ha, hk⟩
  exact (hf a b' ha hk).mono (fun _ _ h => ⟨h.1, hk.trans h.2⟩) fun _ _ h => h

theorem quiet_pure {a : α} (ha : P a) : Quiet b ((pure a : BuildM α) b) P := ⟨ha, .refl b⟩

theorem present_quiet {x : Except Missing α} : Quiet b (present x b) (fun a => x = .ok a) := by
  cases x with
  | ok a => exact ⟨rfl, .refl b⟩
  | error e => exact nofun

theorem function_quiet {i : Nat} :
    Quiet b (Builder.function i b) (fun f => b.module.functions[i]? = some f) := by
  cases hf : b.module.functions[i]? with
  | some f =>
    rw [function_of_some hf]
    exact ⟨rfl, .refl b⟩
  | none =>
    rw [function_of_none hf]
    exact nofun

theorem map_modify_entry {fs : List Function} {i : Nat} {g : Function → Function}
    (hg : ∀ f, fs[i]? = some f → entry (g f) = entry f) :
    (fs.modify i g).map entry = fs.map entry := by
  apply List.ext_getElem?
  intro j
  rw [List.getElem?_map, List.getElem?_map, List.getElem?_modify]
  by_cases hij : i = j
  · subst hij
    cases hf : fs[i]? with
    | none => simp
    | some f => simp [hg f hf]
  · simp [hij]

theorem modifyFunction_quiet {i : Nat} {g : Function → Function}
    (hg : ∀ f, b.module.functions[i]? = some f → entry (g f) = entry f) :
    Quiet b (modifyFunction i g b) (fun _ => True) := by
  unfold modifyFunction
  cases hf : b.module.functions[i]? with
  | none =>
    rw [bind_of_error (function_of_none hf)]
    exact nofun
  | some f =>
    rw [bind_of_ok (function_of_some hf)]
    exact ⟨trivial, rfl, rfl, map_modify_entry hg, rfl, rfl, rfl⟩

section body

variable (hb : InBody b)
include hb

theorem current_quiet : Quiet b (current b) (fun c => b.cursor = some c) := by
  obtain ⟨c, f, hc, -⟩ := hb
  unfold current
  rw [bind_of_ok (get_run _), hc]
  exact ⟨rfl, .refl b⟩

theorem positionAtEnd_quiet {i : Nat} : Quiet b (positionAtEnd i b) (fun _ => True) := by
  unfold positionAtEnd
  refine (current_quiet hb).bind fun c b' hc hk => ?_
  refine ⟨trivial, rfl, rfl, rfl, rfl, rfl, ?_⟩
  rw [hk.cursor, hc]
  rfl

theorem createBlock_quiet {name : String} : Quiet b (createBlock name b) (fun _ => True) := by
  unfold createBlock
  refine (current_quiet hb).bind fun c b₁ _ _ => ?_
  refine function_quiet.bind fun f b₂ _ _ => ?_
  refine Quiet.bind (modifyFunction_quiet ?_) fun _ b₃ _ _ => ?_
  · exact fun _ _ => rfl
  · exact quiet_pure trivial

/-- A body that is there already stays one, whatever is added to it. -/
theorem attachBlock_quiet {i : Nat} : Quiet b (attachBlock i b) (fun _ => True) := by
  obtain ⟨c, f, hc, hf, hbody⟩ := hb
  unfold attachBlock
  refine (current_quiet ⟨c, f, hc, hf, hbody⟩).bind fun c' b₁ hc' hk => ?_
  cases hc.symm.trans hc'
  refine modifyFunction_quiet fun f₁ hf₁ => ?_
  obtain ⟨f₂, hf₂, e⟩ := hk.function hf
  cases hf₁.symm.trans hf₂
  have hbody₁ : f₁.hasBody = true := (congrArg (·.2.hasBody) e).trans hbody
  split
  · rfl
  · have hlayout : f₁.layout.isEmpty = false := by simpa [Function.hasBody] using hbody₁
    have hlonger : (f₁.layout ++ [i]).isEmpty = false := by simp
    simp only [entry, known, Function.hasBody, hlayout, hlonger]

theorem appendBlock_quiet {name : String} : Quiet b (appendBlock name b) (fun _ => True) := by
  unfold appendBlock
  refine (createBlock_quiet hb).bind fun i b₁ _ hk => ?_
  refine (attachBlock_quiet (hk.inBody hb)).bind fun _ b₂ _ _ => ?_
  exact quiet_pure trivial

theorem addSlot_quiet {name : Option String} {ty : Ty} {origin : SlotOrigin} :
    Quiet b (Builder.addSlot name ty origin b) (fun v => v.ty = .ptr ty) := by
  unfold Builder.addSlot
  refine (current_quiet hb).bind fun c b₁ _ _ => ?_
  refine function_quiet.bind fun f b₂ _ _ => ?_
  refine Quiet.bind (modifyFunction_quiet ?_) fun _ b₃ _ _ => ?_
  · exact fun _ _ => rfl
  · exact quiet_pure rfl

theorem isTerminated_quiet : Quiet b (isTerminated b) (fun _ => True) := by
  obtain ⟨c, f, hc, -⟩ := hb
  unfold isTerminated
  rw [bind_of_ok (get_run _), hc]
  exact function_quiet.bind fun f b₁ _ _ => quiet_pure trivial

theorem openBlock_quiet : Quiet b (openBlock b) (fun _ => True) := by
  unfold openBlock
  refine (isTerminated_quiet hb).bind fun closed b₁ _ hk => ?_
  have hb₁ := hk.inBody hb
  cases closed with
  | false => exact (current_quiet hb₁).mono (fun _ _ h => ⟨trivial, h.2⟩) fun _ _ h => h
  | true =>
    refine (appendBlock_quiet hb₁).bind fun i b₂ _ hk₂ => ?_
    have hb₂ := hk₂.inBody hb₁
    refine (positionAtEnd_quiet hb₂).bind fun _ b₃ _ hk₃ => ?_
    exact (current_quiet (hk₃.inBody hb₂)).mono (fun _ _ h => ⟨trivial, h.2⟩) fun _ _ h => h

omit hb in
theorem modifyBlock_quiet {c : Cursor} {g : Block → Block} :
    Quiet b (modifyBlock c g b) (fun _ => True) := by
  unfold modifyBlock
  refine function_quiet.bind fun f b₁ _ _ => ?_
  refine present_quiet.bind fun _ b₂ _ _ => ?_
  exact modifyFunction_quiet fun f _ => rfl

/-- An instruction has a result unless its type is `void`. -/
theorem pushInst_quiet {ty : Ty} {a : Action} :
    Quiet b (pushInst ty a b) (fun r => r = none ↔ ty = .void) := by
  unfold pushInst
  refine (openBlock_quiet hb).bind fun c b₁ _ _ => ?_
  refine function_quiet.bind fun f b₂ _ _ => ?_
  by_cases hv : ty = .void
  · rw [if_pos hv]
    exact modifyBlock_quiet.bind fun _ b₃ _ _ => quiet_pure (by simp [hv])
  · rw [if_neg hv]
    refine modifyBlock_quiet.bind fun _ b₃ _ _ => ?_
    refine Quiet.bind (modifyFunction_quiet ?_) fun _ b₄ _ _ => ?_
    · exact fun _ _ => rfl
    · exact quiet_pure (by simp [hv])

theorem terminate_quiet {t : Terminator} : Quiet b (terminate t b) (fun _ => True) := by
  unfold terminate
  exact (openBlock_quiet hb).bind fun c b₁ _ _ => modifyBlock_quiet

theorem fallThrough_quiet {target : Nat} : Quiet b (Lowering.fallThrough target b)
    (fun _ => True) := by
  unfold Lowering.fallThrough
  refine (isTerminated_quiet hb).bind fun closed b₁ _ hk => ?_
  cases closed with
  | true => exact quiet_pure trivial
  | false => exact terminate_quiet (hk.inBody hb)

theorem closeBody_quiet {ret : Ty} : Quiet b (Lowering.closeBody ret b) (fun _ => True) := by
  unfold Lowering.closeBody
  refine (isTerminated_quiet hb).bind fun closed b₁ _ hk => ?_
  have hb₁ := hk.inBody hb
  cases closed with
  | true => exact quiet_pure trivial
  | false =>
    simp only [Bool.false_eq_true, ↓reduceIte]
    by_cases hv : ret = .void
    · rw [if_pos hv]
      exact terminate_quiet hb₁
    · obtain ⟨c, f, hc, -⟩ := hb₁
      rw [if_neg hv, bind_of_ok (get_run _), hc]
      refine function_quiet.bind fun f b₂ _ hk₂ => ?_
      by_cases he : f.entry? ≠ some c.block
      · rw [if_pos he]
        refine present_quiet.bind fun ps b₃ _ hk₃ => ?_
        cases ps with
        | nil => exact terminate_quiet (hk₃.inBody (hk₂.inBody (hk.inBody hb)))
        | cons q qs => exact quiet_pure trivial
      · rw [if_neg he]
        exact quiet_pure trivial

end body

end quiet

/-! ## Views -/

/-- A place in a tree: the scopes that are open there, and the function around it. -/
structure Place where
  scope : ScopeId
  outer : List ScopeId
  enclosing : Option (String × Ty)

namespace Place

/-- The place in a new scope. -/
def inner (p : Place) (id : ScopeId) : Place :=
  { p with scope := id, outer := p.scope :: p.outer }

/-- The place in the body of a function. -/
def within (p : Place) (f : String × Ty) : Place :=
  { p with enclosing := some f }

end Place

/-- The checker in state `s` knows what the builder `b` holds at a place. -/
structure Views (p : Place) (b : Builder) (s : Static) : Prop where
  nested : ∃ top outer, b.scopes.Nested p.scope top outer ∧ outer.map (·.1) = p.outer
  scopes : s.scopes = b.scopes.live.map fun scope => scope.2.symbols.map typedName
  addresses : ∀ q ∈ bindingsOf b.scopes.live, ∃ ty : Ty, q.2.ty = .ptr ty ∧ ty.isArithmetic = true
  globals : s.globals = b.module.globals.map (·.name)
  functions : s.functions = b.module.functions.map entry
  names : (b.module.functions.map (·.name)).Nodup
  indexed : b.module.Indexed
  enclosing : s.enclosing = p.enclosing
  outside : b.cursor = none → p.enclosing = none
  inside : ∀ c, b.cursor = some c → ∃ f, b.module.functions[c.function]? = some f ∧
    p.enclosing = some (f.name, f.signature.ret) ∧ f.hasBody = true

namespace Views

variable {p : Place} {b b' : Builder} {s : Static} {name : String}

theorem inBody (hv : Views p b s) (he : p.enclosing ≠ none) : InBody b := by
  cases hc : b.cursor with
  | none => exact absurd (hv.outside hc) he
  | some c =>
    obtain ⟨f, hf, -, hbody⟩ := hv.inside c hc
    exact ⟨c, f, hc, hf, hbody⟩

theorem cursor_of_none (hv : Views p b s) (he : p.enclosing = none) : b.cursor = none := by
  cases hc : b.cursor with
  | none => rfl
  | some c =>
    obtain ⟨f, -, hf, -⟩ := hv.inside c hc
    rw [he] at hf
    cases hf

theorem names_entries (fs : List Function) : (fs.map entry).map (·.1) = fs.map (·.name) := by
  rw [List.map_map]
  rfl

/-- What a checker knows stays right while code is written. -/
theorem keep (hv : Views p b s) (hk : Keeps b b') : Views p b' s where
  nested := hk.scopes ▸ hv.nested
  scopes := hk.scopes ▸ hv.scopes
  addresses := hk.scopes ▸ hv.addresses
  globals := hk.globals ▸ hv.globals
  functions := hk.functions ▸ hv.functions
  names := by
    rw [← names_entries, hk.functions, names_entries]
    exact hv.names
  indexed := by
    refine ⟨?_, ?_⟩
    · rw [← names_entries, hk.functions, names_entries, hk.functionTable]
      exact hv.indexed.functions
    · rw [hk.globals, hk.globalTable]
      exact hv.indexed.globals
  enclosing := hv.enclosing
  outside := by
    intro hc
    have e := hk.cursor
    rw [hc] at e
    exact hv.outside (Option.map_eq_none_iff.1 e.symm)
  inside := by
    intro c' hc'
    have e := hk.cursor
    rw [hc'] at e
    obtain ⟨c, hc, hi⟩ := Option.map_eq_some_iff.1 e.symm
    obtain ⟨f, hf, he, hbody⟩ := hv.inside c hc
    obtain ⟨f', hf', ef⟩ := hk.function hf
    rw [show c.function = c'.function from hi] at hf'
    refine ⟨f', hf', ?_, (congrArg (·.2.hasBody) ef).trans hbody⟩
    rw [he, show f'.name = f.name from congrArg (·.1) ef,
      show f'.signature = f.signature from congrArg (·.2.signature) ef]

/-! ### Names -/

theorem mem_globals (hv : Views p b s) :
    name ∈ s.globals ↔ (b.module.globalIndex? name).isSome = true := by
  rw [hv.globals, ← not_iff_not, ← Module.globalIndex?_none hv.indexed, Option.not_isSome_iff_eq_none]

theorem lookup_of_index (hv : Views p b s) {i : Nat} (h : b.module.functionIndex? name = some i) :
    ∃ f, b.module.functions[i]? = some f ∧ f.name = name ∧
      s.functions.lookup name = some (known f) := by
  obtain ⟨f, hf, hn⟩ := Module.functionIndex?_some hv.indexed h
  refine ⟨f, hf, hn, lookup_of_nodup (i := i) ?_ ?_⟩
  · rw [hv.functions, names_entries]
    exact hv.names
  · rw [hv.functions, List.getElem?_map, hf, ← hn]
    rfl

theorem lookup_of_noIndex (hv : Views p b s) (h : b.module.functionIndex? name = none) :
    s.functions.lookup name = none := by
  rw [List.lookup_eq_none_iff, hv.functions]
  intro q hq
  obtain ⟨f, hf, rfl⟩ := List.mem_map.1 hq
  rw [bne_iff_ne]
  rintro rfl
  exact (Module.functionIndex?_none hv.indexed).1 h (List.mem_map_of_mem hf)

/-! ### Variables -/

theorem lookup_typedName (l : List (String × Value)) :
    (l.map typedName).lookup name = (l.lookup name).map fun v => v.ty.pointee?.getD .void := by
  induction l with
  | nil => rfl
  | cons q l ih =>
    obtain ⟨x, v⟩ := q
    rw [List.map_cons, typedName, List.lookup_cons, List.lookup_cons]
    cases name == x with
    | true => rfl
    | false => exact ih

theorem typeOf?_eq (hv : Views p b s) : s.typeOf? name =
    (b.scopes.lookup? p.scope name).map fun v => v.ty.pointee?.getD .void := by
  obtain ⟨top, outer, hn, -⟩ := hv.nested
  have hflat : s.scopes.flatten = (bindingsOf b.scopes.live).map typedName := by
    rw [hv.scopes, bindingsOf, List.map_flatMap]
    rfl
  rw [Static.typeOf?, hflat, lookup_typedName, hn.lookup?_eq]

theorem address (hv : Views p b s) {v : Value} (h : b.scopes.lookup? p.scope name = some v) :
    ∃ ty : Ty, v.ty = .ptr ty ∧ ty.isArithmetic = true := by
  obtain ⟨top, outer, hn, -⟩ := hv.nested
  rw [hn.lookup?_eq] at h
  exact hv.addresses _ (mem_of_lookup h)

theorem binds_eq (hv : Views p b s) : s.binds name = b.scopes.binds p.scope name := by
  obtain ⟨top, outer, hn, -⟩ := hv.nested
  rw [ScopeChain.binds, hn.get?_eq, Static.binds, hv.scopes, hn.live]
  simp [Scope.binds, lookup_typedName]

/-- A variable that was bound on both sides. -/
theorem bind (hv : Views p b s) {v : Value} {ty : Ty} {c : ScopeChain} (ht : v.ty = .ptr ty)
    (ha : ty.isArithmetic = true) (hd : b.scopes.define? p.scope name v = some c) :
    Views p { b with scopes := c } (s.bind name ty) := by
  obtain ⟨top, outer, hn, ho⟩ := hv.nested
  obtain ⟨-, hn'⟩ := hn.define hd
  have hs := hv.scopes
  rw [hn.live, List.map_cons] at hs
  have hbind : s.bind name ty = { s with
      scopes := ((name, ty) :: top.symbols.map typedName) ::
        outer.map fun scope => scope.2.symbols.map typedName } := by
    rw [Static.bind, hs]
  rw [hbind]
  refine ⟨⟨_, outer, hn', ho⟩, ?_, ?_, hv.globals, hv.functions, hv.names, hv.indexed, hv.enclosing,
    hv.outside, hv.inside⟩
  · rw [hn'.live, List.map_cons]
    simp [Scope.bind, typedName, ht, Ty.pointee?]
  · show ∀ q ∈ bindingsOf c.live, _
    rw [hn.bindings_define hd]
    exact List.forall_mem_cons.2 ⟨⟨ty, ht, ha⟩, hv.addresses⟩

/-- A scope that was opened on both sides. -/
theorem push (hv : Views p b s) :
    Views (p.inner b.scopes.opened) { b with scopes := (b.scopes.push (some p.scope)).2 }
      { s with scopes := [] :: s.scopes } := by
  obtain ⟨top, outer, hn, ho⟩ := hv.nested
  refine ⟨⟨_, _, hn.push, ?_⟩, ?_, ?_, hv.globals, hv.functions, hv.names, hv.indexed, hv.enclosing,
    hv.outside, hv.inside⟩
  · rw [List.map_cons, ho]
    rfl
  · rw [hv.scopes]
    rfl
  · exact hv.addresses

/-- A scope that was closed on both sides. -/
theorem pop {id : ScopeId} (hv : Views (p.inner id) b s) :
    Views p { b with scopes := b.scopes.pop id } { s with scopes := s.scopes.tail } := by
  obtain ⟨top, outer, hn, ho⟩ := hv.nested
  obtain ⟨q, rest, rfl, hq, hrest⟩ := List.map_eq_cons_iff.1 ho
  obtain ⟨i, parent⟩ := q
  cases hq
  have hpop : (b.scopes.pop id).Nested p.scope parent rest := ScopeChain.Nested.pop hn
  refine ⟨⟨parent, rest, hpop, hrest⟩, ?_, ?_, hv.globals, hv.functions, hv.names, hv.indexed,
    hv.enclosing, hv.outside, hv.inside⟩
  · show s.scopes.tail = (b.scopes.pop id).live.map _
    rw [hv.scopes, hn.live, hpop.live]
    rfl
  · show ∀ q ∈ bindingsOf (b.scopes.pop id).live, _
    rw [hpop.live]
    intro q hq
    refine hv.addresses q ?_
    rw [hn.live, bindingsOf_cons]
    exact List.mem_append_right _ hq

end Views

end SlotIR.Checking
