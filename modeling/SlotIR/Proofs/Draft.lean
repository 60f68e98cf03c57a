import SlotIR.Proofs.Body
import SlotIR.Proofs.Registry
import SlotIR.Proofs.ScopeStack

/-!
# Drafts

While a body is built, all changes are made to one function, at the end of one block. A draft is that
function with the block and with what is around it. `Inv` is what holds between any two steps, and
`Scoped` says where the visible names have their storage; each step on drafts keeps both.
-/

namespace SlotIR

/-- A function under construction. In the module around it the function may stand as it was
earlier; only its name and signature count there. -/
structure Draft where
  module : Module
  scopes : ScopeChain
  function : Function
  block : Nat

namespace Draft

/-- The temporaries that can be used at the cursor. -/
def defined (d : Draft) : List Nat :=
  if d.function.closedAt d.block then [] else d.function.idsAt d.block

/-! ## Steps -/

def addSlot (d : Draft) (s : Slot) : Draft :=
  { d with function := d.function.addSlot s }

/-- Writing goes on in the block `i`, which is laid out now. -/
def moveTo (d : Draft) (i : Nat) : Draft :=
  { d with function := d.function.place i, block := i }

/-- Code after a terminator goes to a block of its own. -/
def reopen (d : Draft) : Draft :=
  if d.function.closedAt d.block then
    { d with function := d.function.addBlock "dead" }.moveTo d.function.blocks.length
  else d

/-- Appends an instruction at the cursor. -/
def emit (d : Draft) (ty : Ty) (a : Action) : Draft :=
  { d.reopen with function := d.reopen.function.emit d.reopen.block ty a }

/-- Ends the block at the cursor. -/
def close (d : Draft) (t : Terminator) : Draft :=
  { d.reopen with function := d.reopen.function.close d.reopen.block t }

/-- Goes to a block, unless the block at the cursor is closed. -/
def fallThrough (d : Draft) (target : Nat) : Draft :=
  if d.function.closedAt d.block then d else d.close (.jump target)

/-- Opens a scope inside of the one with a number. -/
def enter (d : Draft) (scope : ScopeId) : Draft :=
  { d with scopes := (d.scopes.push (some scope)).2 }

def leave (d : Draft) (inner : ScopeId) : Draft :=
  { d with scopes := d.scopes.pop inner }

/-- Creates blocks that wait for their place. -/
def addBlocks (d : Draft) (names : List String) : Draft :=
  { d with function := names.foldl Function.addBlock d.function }

/-- Branches to a new block, where writing goes on, and past it. The first of the other new blocks is
where the branch goes otherwise. -/
def fork (d : Draft) (cond : Operand) (names : List String) : Draft :=
  let n := d.function.blocks.length
  ((d.addBlocks ("then" :: names)).close (.branch cond n (n + 1))).moveTo n

/-! ## Reopening -/

variable {d : Draft} {k : Nat} {pend : List Nat}

theorem reopen_of_open (h : d.function.closedAt d.block = false) : d.reopen = d := by
  simp [reopen, h]

theorem reopen_of_closed (h : d.function.closedAt d.block = true) :
    d.reopen = { d with function := d.function.addBlock "dead" }.moveTo d.function.blocks.length := by
  simp [reopen, h]

/-! ## Invariants -/

/-- What holds of a draft of the function with index `k` while the blocks in `pend` wait. -/
structure Inv (k : Nat) (pend : List Nat) (d : Draft) : Prop where
  sane : d.module.Sane
  base : ∃ g, d.module.functions[k]? = some g ∧ g.name = d.function.name ∧
    g.signature = d.function.signature
  shape : d.function.Shape d.block pend
  typed : d.function.TypedIn d.module
  reachable : ∀ (i : Nat) (b : Block), d.function.blocks[i]? = some b →
    b.terminator ≠ some .unreachable

/-- What later drafts keep of an earlier one. -/
structure Extends (d d' : Draft) : Prop where
  function : d.function.Extends d'.function
  module : d.module.Declares d'.module

theorem Extends.refl (d : Draft) : d.Extends d := ⟨.refl _, .refl _⟩

theorem Extends.trans {d' d'' : Draft} (h : d.Extends d') (h' : d'.Extends d'') : d.Extends d'' :=
  ⟨h.function.trans h'.function, h.module.trans h'.module⟩

namespace Inv

/-- An operand that can be used keeps its type in every later draft that has its temporary. -/
theorem uses {d' : Draft} {k' : Nat} {pend' : List Nat} (h : d'.Inv k' pend') (he : d.Extends d')
    {defined : List Nat} {o : Operand} {t : Ty} (ho : d.module.Uses d.function defined o t) :
    d'.module.Uses d'.function defined o t :=
  ho.mono he.module.grows (he.function.keepsTypes h.shape)

theorem addSlot (h : d.Inv k pend) {s : Slot} (hs : s.ty.isArithmetic = true) :
    (d.addSlot s).Inv k pend :=
  ⟨h.sane, h.base, h.shape.addSlot s, h.typed.addSlot h.shape hs, h.reachable⟩

theorem declare (h : d.Inv k pend) {m' : Module} (hm : d.module.Declares m') (hs : m'.Sane) :
    { d with module := m' }.Inv k pend := by
  obtain ⟨g, hg, hn⟩ := h.base
  exact ⟨hs, ⟨g, hm.getElem? hg, hn⟩, h.shape, h.typed.grow hm.grows, h.reachable⟩

theorem rescope (h : d.Inv k pend) (c : ScopeChain) : { d with scopes := c }.Inv k pend :=
  ⟨h.sane, h.base, h.shape, h.typed, h.reachable⟩

theorem permute {pend' : List Nat} (h : d.Inv k pend) (hp : pend.Perm pend') : d.Inv k pend' :=
  ⟨h.sane, h.base, h.shape.permute hp, h.typed, h.reachable⟩

theorem addBlock (h : d.Inv k pend) (name : String) :
    { d with function := d.function.addBlock name }.Inv k (d.function.blocks.length :: pend) := by
  refine ⟨h.sane, h.base, h.shape.addBlock name, h.typed.addBlock h.shape name, fun i b hb => ?_⟩
  rcases Function.getElem?_addBlock hb with hb | ⟨-, rfl⟩
  · exact h.reachable i b hb
  · nofun

theorem addBlocks (names : List String) :
    ∀ {d : Draft} {pend : List Nat}, d.Inv k pend →
      (d.addBlocks names).Inv k
        (List.range' d.function.blocks.length names.length ++ pend) := by
  induction names with
  | nil =>
    intro d pend h
    exact h
  | cons name names ih =>
    intro d pend h
    have hlen : (d.function.addBlock name).blocks.length = d.function.blocks.length + 1 := by
      simp [Function.addBlock]
    have h' := ih (h.addBlock name)
    dsimp only at h'
    rw [hlen] at h'
    exact h'.permute List.perm_middle

theorem moveTo {j : Nat} (h : d.Inv k (j :: pend)) (hc : d.function.closedAt d.block = true) :
    (d.moveTo j).Inv k pend :=
  ⟨h.sane, h.base, h.shape.place hc, h.typed.place h.shape hc, h.reachable⟩

theorem reopen (h : d.Inv k pend) : d.reopen.Inv k pend := by
  cases hc : d.function.closedAt d.block with
  | false =>
    rw [reopen_of_open hc]
    exact h
  | true =>
    rw [reopen_of_closed hc]
    refine (h.addBlock "dead").moveTo ?_
    rw [← hc]
    exact Function.closedAt_addBlock _

end Inv

theorem Extends.reopen (d : Draft) : d.Extends d.reopen := by
  cases hc : d.function.closedAt d.block with
  | false =>
    rw [reopen_of_open hc]
    exact .refl d
  | true =>
    rw [reopen_of_closed hc]
    exact ⟨(Function.Extends.addBlock _ _).trans (.place _ _), .refl _⟩

@[simp] theorem reopen_module (d : Draft) : d.reopen.module = d.module := by
  unfold Draft.reopen
  split <;> rfl

@[simp] theorem reopen_scopes (d : Draft) : d.reopen.scopes = d.scopes := by
  unfold Draft.reopen
  split <;> rfl

@[simp] theorem reopen_nextValue (d : Draft) :
    d.reopen.function.nextValue = d.function.nextValue := by
  unfold Draft.reopen
  split <;> rfl

@[simp] theorem reopen_slots (d : Draft) : d.reopen.function.slots = d.function.slots := by
  unfold Draft.reopen
  split <;> rfl

@[simp] theorem reopen_signature (d : Draft) :
    d.reopen.function.signature = d.function.signature := by
  unfold Draft.reopen
  split <;> rfl

theorem reopen_open (d : Draft) : d.reopen.function.closedAt d.reopen.block = false := by
  cases hc : d.function.closedAt d.block with
  | false =>
    rw [reopen_of_open hc]
    exact hc
  | true =>
    rw [reopen_of_closed hc]
    exact Function.closedAt_of_some Function.getElem?_addBlock_length

/-- At an open block the results of its instructions can be used. -/
theorem defined_of_open (h : d.function.closedAt d.block = false) :
    d.defined = d.function.idsAt d.block := by
  simp [defined, h]

theorem defined_reopen (d : Draft) : d.reopen.defined = d.defined := by
  cases hc : d.function.closedAt d.block with
  | false => rw [reopen_of_open hc]
  | true =>
    have hn : d.defined = [] := by simp [defined, hc]
    rw [defined_of_open d.reopen_open, hn, reopen_of_closed hc]
    exact Function.idsAt_of_some Function.getElem?_addBlock_length

/-! ## Instructions -/

section emit

variable {ty : Ty} {a : Action}

@[simp] theorem emit_module : (d.emit ty a).module = d.module := reopen_module d

@[simp] theorem emit_scopes : (d.emit ty a).scopes = d.scopes := reopen_scopes d

@[simp] theorem emit_slots : (d.emit ty a).function.slots = d.function.slots := reopen_slots d

theorem emit_open : (d.emit ty a).function.closedAt (d.emit ty a).block = false :=
  (Function.closedAt_emit _).trans d.reopen_open

theorem Extends.emit : d.Extends (d.emit ty a) :=
  (Extends.reopen d).trans ⟨.emit d.reopen_open ty a, .refl _⟩

theorem nextInst_reopen : d.reopen.function.nextInst ty a = d.function.nextInst ty a := by
  simp [Function.nextInst]

theorem Inv.emit (h : d.Inv k pend)
    (hi : (d.function.nextInst ty a).Typed d.module (d.module.Uses d.function d.defined)) :
    (d.emit ty a).Inv k pend := by
  have hr := h.reopen
  have hi' : (d.reopen.function.nextInst ty a).Typed d.reopen.module
      (d.reopen.module.Uses d.reopen.function (d.reopen.function.idsAt d.reopen.block)) := by
    rw [nextInst_reopen, ← defined_of_open d.reopen_open, defined_reopen]
    exact hi.mono (Extends.reopen d).module.grows fun o t ho => hr.uses (.reopen d) ho
  refine ⟨hr.sane, hr.base, hr.shape.emit ty a, hr.typed.emit hr.shape d.reopen_open hi', ?_⟩
  intro i b hb
  by_cases hcur : i = d.reopen.block
  · subst hcur
    obtain ⟨c, hc⟩ := hr.shape.cur_block
    rw [show (d.emit ty a).function.blocks[d.reopen.block]? = _ from
      Function.getElem?_emit_self hc] at hb
    cases hb
    exact hr.reachable _ c hc
  · rw [show (d.emit ty a).function.blocks[i]? = _ from Function.getElem?_emit_of_ne hcur] at hb
    exact hr.reachable i b hb

theorem Inv.defined_emit (h : d.Inv k pend) :
    (d.emit ty a).defined = d.defined ++ (d.function.nextInst ty a).result.toList := by
  obtain ⟨b, hb⟩ := h.reopen.shape.cur_block
  rw [defined_of_open emit_open, ← defined_reopen, defined_of_open d.reopen_open,
    ← nextInst_reopen]
  exact Function.idsAt_emit_self hb

/-- The result of the instruction that was just appended can be used. -/
theorem Inv.uses_emit (h : d.Inv k pend) (h' : (d.emit ty a).Inv k pend) (ht : ty ≠ .void) :
    (d.emit ty a).module.Uses (d.emit ty a).function (d.emit ty a).defined
      (.temp d.function.nextValue) ty := by
  obtain ⟨b, hb⟩ := h.reopen.shape.cur_block
  have hres : (d.function.nextInst ty a).result = some d.function.nextValue := by
    simp [Function.nextInst, ht]
  refine .temp (h'.shape.resultType? (Function.mem_results.2 ?_)) ?_
  · refine ⟨d.reopen.block, _, Function.getElem?_emit_self hb, d.function.nextInst ty a, ?_, hres, rfl⟩
    simp [nextInst_reopen]
  · rw [h.defined_emit, hres]
    simp

end emit

/-! ## Ends of blocks -/

section close

variable {t : Terminator}

@[simp] theorem close_module : (d.close t).module = d.module := reopen_module d

@[simp] theorem close_scopes : (d.close t).scopes = d.scopes := reopen_scopes d

@[simp] theorem close_slots : (d.close t).function.slots = d.function.slots := reopen_slots d

theorem close_of_open (h : d.function.closedAt d.block = false) :
    d.close t = { d with function := d.function.close d.block t } := by
  rw [Draft.close, reopen_of_open h]

theorem Extends.close : d.Extends (d.close t) :=
  (Extends.reopen d).trans ⟨.close d.reopen_open t, .refl _⟩

theorem Inv.closedAt_close (h : d.Inv k pend) :
    (d.close t).function.closedAt (d.close t).block = true := by
  obtain ⟨b, hb⟩ := h.reopen.shape.cur_block
  exact Function.closedAt_close_self hb

theorem Inv.close (h : d.Inv k pend) (ht : t.Typed d.module d.function d.defined)
    (hp : ∀ j ∈ t.successors, j ∈ pend) (hu : t ≠ .unreachable) : (d.close t).Inv k pend := by
  have hr := h.reopen
  have ht' : t.Typed d.reopen.module d.reopen.function
      (d.reopen.function.idsAt d.reopen.block) := by
    have he := Extends.reopen d
    rw [← defined_of_open d.reopen_open, defined_reopen]
    exact ht.mono he.module.grows (he.function.keepsTypes hr.shape) (by rw [he.function.signature])
  refine ⟨hr.sane, hr.base, hr.shape.close hp, hr.typed.close hr.shape d.reopen_open hp ht', ?_⟩
  intro i b hb
  by_cases hcur : i = d.reopen.block
  · subst hcur
    obtain ⟨c, hc⟩ := hr.shape.cur_block
    rw [show (d.close t).function.blocks[d.reopen.block]? = _ from
      Function.getElem?_close_self hc] at hb
    cases hb
    simpa using hu
  · rw [show (d.close t).function.blocks[i]? = _ from Function.getElem?_close_of_ne hcur] at hb
    exact hr.reachable i b hb

theorem Extends.fallThrough (target : Nat) : d.Extends (d.fallThrough target) := by
  unfold Draft.fallThrough
  split
  · exact .refl d
  · exact .close

@[simp] theorem fallThrough_slots (d : Draft) (target : Nat) :
    (d.fallThrough target).function.slots = d.function.slots := by
  unfold Draft.fallThrough
  split
  · rfl
  · exact close_slots

theorem Inv.fallThrough (h : d.Inv k pend) {target : Nat} (ht : target ∈ pend) :
    (d.fallThrough target).Inv k pend ∧
      (d.fallThrough target).function.closedAt (d.fallThrough target).block = true := by
  unfold Draft.fallThrough
  split
  · rename_i hc
    exact ⟨h, hc⟩
  · refine ⟨h.close trivial (fun j hj => ?_) (by simp), h.closedAt_close⟩
    rw [List.mem_singleton.1 hj]
    exact ht

end close

/-! ## Branches -/

section fork

variable {cond : Operand} {names : List String}

theorem closedAt_addBlocks (i : Nat) : ∀ (f : Function),
    (names.foldl Function.addBlock f).closedAt i = f.closedAt i := by
  induction names with
  | nil =>
    intro f
    rfl
  | cons name names ih =>
    intro f
    rw [List.foldl_cons, ih, Function.closedAt_addBlock]

theorem idsAt_addBlocks (i : Nat) : ∀ (f : Function),
    (names.foldl Function.addBlock f).idsAt i = f.idsAt i := by
  induction names with
  | nil =>
    intro f
    rfl
  | cons name names ih =>
    intro f
    rw [List.foldl_cons, ih, Function.idsAt_addBlock]

theorem slots_addBlocks : ∀ (f : Function), (names.foldl Function.addBlock f).slots = f.slots := by
  induction names with
  | nil =>
    intro f
    rfl
  | cons name names ih =>
    intro f
    exact ih (f.addBlock name)

theorem extends_addBlocks : ∀ (f : Function), f.Extends (names.foldl Function.addBlock f) := by
  induction names with
  | nil =>
    intro f
    exact .refl f
  | cons name names ih =>
    intro f
    exact (Function.Extends.addBlock f name).trans (ih _)

theorem addBlocks_open (ho : d.function.closedAt d.block = false) :
    (d.addBlocks names).function.closedAt (d.addBlocks names).block = false :=
  (closedAt_addBlocks ..).trans ho

theorem Extends.addBlocks : d.Extends (d.addBlocks names) :=
  ⟨extends_addBlocks _, .refl _⟩

theorem Extends.moveTo {i : Nat} : d.Extends (d.moveTo i) :=
  ⟨.place _ _, .refl _⟩

@[simp] theorem fork_scopes : (d.fork cond names).scopes = d.scopes :=
  (d.addBlocks ("then" :: names)).reopen_scopes

@[simp] theorem fork_slots : (d.fork cond names).function.slots = d.function.slots :=
  (d.addBlocks ("then" :: names)).reopen_slots.trans (slots_addBlocks _)

theorem Extends.fork : d.Extends (d.fork cond names) :=
  (Extends.addBlocks.trans .close).trans .moveTo

/-- A block that ends in a branch to new blocks. -/
theorem Inv.branch (h : d.Inv k pend) (ho : d.function.closedAt d.block = false)
    (hc : d.module.Uses d.function d.defined cond .bool) (hn : names ≠ []) :
    ((d.addBlocks ("then" :: names)).close (.branch cond d.function.blocks.length
      (d.function.blocks.length + 1))).Inv k (d.function.blocks.length ::
        (List.range' (d.function.blocks.length + 1) names.length ++ pend)) := by
  have hb := h.addBlocks ("then" :: names)
  refine hb.close ?_ ?_ (by simp)
  · have hd : (d.addBlocks ("then" :: names)).defined = d.defined := by
      rw [defined_of_open ho, defined_of_open (addBlocks_open ho)]
      exact idsAt_addBlocks _ _
    rw [hd]
    exact hb.uses .addBlocks hc
  · intro j hj
    have hpos : 0 < names.length := List.length_pos_iff.2 hn
    simp only [Terminator.successors, List.mem_cons, List.not_mem_nil, or_false] at hj
    refine List.mem_append_left _ (List.mem_range'_1.2 ?_)
    rw [List.length_cons]
    omega

/-- After a branch the blocks that were created besides the one that is written now wait. -/
theorem Inv.fork (h : d.Inv k pend) (ho : d.function.closedAt d.block = false)
    (hc : d.module.Uses d.function d.defined cond .bool) (hn : names ≠ []) :
    (d.fork cond names).Inv k
      (List.range' (d.function.blocks.length + 1) names.length ++ pend) :=
  (h.branch ho hc hn).moveTo (h.addBlocks _).closedAt_close

end fork

/-! ## Visible names -/

/-- Where the names that are visible from a scope have their storage: those in `locals` in slots of
the function, each in its own, and those in `globals` in globals. -/
structure Scoped (d : Draft) (scope : ScopeId) (locals globals : List (String × Value)) : Prop where
  nested : ∃ s outer, d.scopes.Nested scope s outer
  bindings : bindingsOf d.scopes.live = locals ++ globals
  slots : ∀ p ∈ locals, ∃ (i : Nat) (s : Slot), p.2 = ⟨.slot i, .ptr s.ty⟩ ∧
    d.function.slots[i]? = some s
  distinct : (locals.map (·.2)).Nodup
  globals : ∀ p ∈ globals, ∃ (i : Nat) (g : Global), p.2 = ⟨.global i, .ptr g.ty⟩ ∧
    d.module.globals[i]? = some g

namespace Scoped

variable {scope : ScopeId} {locals globals : List (String × Value)} {d' : Draft}

theorem lookup?_eq (h : d.Scoped scope locals globals) (name : String) :
    d.scopes.lookup? scope name = (locals ++ globals).lookup name := by
  obtain ⟨s, outer, hn⟩ := h.nested
  rw [hn.lookup?_eq, h.bindings]

/-- What a name is bound to is the address of a variable. -/
theorem address (h : d.Scoped scope locals globals) (hi : d.Inv k pend) {name : String}
    {v : Value} (hl : d.scopes.lookup? scope name = some v) (defined : List Nat) :
    ∃ t, v.ty = .ptr t ∧ t.isArithmetic = true ∧ d.module.Uses d.function defined v.operand v.ty := by
  rw [h.lookup?_eq] at hl
  obtain ⟨_, _, e, -⟩ := List.lookup_eq_some_iff.1 hl
  have hm : (name, v) ∈ locals ++ globals := by simp [e]
  rcases List.mem_append.1 hm with hm | hm
  · obtain ⟨i, s, hv, hs⟩ := h.slots _ hm
    cases hv
    exact ⟨s.ty, rfl, hi.typed.slots s (List.mem_of_getElem? hs), .slot hs⟩
  · obtain ⟨i, g, hv, hg⟩ := h.globals _ hm
    cases hv
    exact ⟨g.ty, rfl, (hi.sane.globals g (List.mem_of_getElem? hg)).1, .global hg⟩

/-- No name is bound to the slot that comes next. -/
theorem unbound (h : d.Scoped scope locals globals) :
    ∀ p ∈ locals, p.2.operand ≠ .slot d.function.slots.length := by
  intro p hp e
  obtain ⟨i, s, hv, hi⟩ := h.slots p hp
  rw [hv] at e
  cases e
  exact absurd (List.getElem?_eq_some_iff.1 hi).1 (Nat.lt_irrefl _)

theorem extend (h : d.Scoped scope locals globals) (he : d.Extends d')
    (hs : d'.scopes = d.scopes) : d'.Scoped scope locals globals where
  nested := hs ▸ h.nested
  bindings := hs ▸ h.bindings
  slots p hp := by
    obtain ⟨i, s, hv, hi⟩ := h.slots p hp
    exact ⟨i, s, hv, he.function.slot hi⟩
  distinct := h.distinct
  globals p hp := by
    obtain ⟨i, g, hv, hg⟩ := h.globals p hp
    exact ⟨i, g, hv, he.module.globals ▸ hg⟩

theorem enter (h : d.Scoped scope locals globals) :
    (d.enter scope).Scoped d.scopes.opened locals globals := by
  obtain ⟨s, outer, hn⟩ := h.nested
  refine ⟨⟨_, _, hn.push⟩, ?_, h.slots, h.distinct, h.globals⟩
  rw [← h.bindings]
  show bindingsOf ((d.scopes.opened, { parent := some scope }) :: d.scopes.live) = _
  rw [bindingsOf_cons, List.nil_append]

/-- A variable gets its name: a slot that no other name stands for. -/
theorem bind (h : d.Scoped scope locals globals) {name : String} {i : Nat} {s : Slot}
    {c : ScopeChain} (hs : d.function.slots[i]? = some s)
    (hf : ∀ p ∈ locals, p.2 ≠ ⟨.slot i, .ptr s.ty⟩)
    (hd : d.scopes.define? scope name ⟨.slot i, .ptr s.ty⟩ = some c) :
    { d with scopes := c }.Scoped scope ((name, ⟨.slot i, .ptr s.ty⟩) :: locals) globals := by
  obtain ⟨t, outer, hn⟩ := h.nested
  obtain ⟨-, hn'⟩ := hn.define hd
  refine ⟨⟨_, _, hn'⟩, ?_, ?_, ?_, h.globals⟩
  · show bindingsOf c.live = _
    rw [hn.bindings_define hd, h.bindings]
    rfl
  · intro p hp
    rcases List.mem_cons.1 hp with rfl | hp
    · exact ⟨i, s, rfl, hs⟩
    · exact h.slots p hp
  · rw [List.map_cons, List.nodup_cons]
    refine ⟨fun hm => ?_, h.distinct⟩
    obtain ⟨p, hp, e⟩ := List.mem_map.1 hm
    exact hf p hp e

end Scoped

end Draft

end SlotIR
