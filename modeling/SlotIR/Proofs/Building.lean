import SlotIR.Builder
import SlotIR.Proofs.Draft
import SlotIR.Proofs.Ending

/-!
# Steps of building

A builder whose cursor is in a function holds a draft of that function. Every step of building that
does not fail is a step on drafts, and the equations below give it.
-/

namespace SlotIR

/-- Puts a function in the place of the one with an index. -/
def Module.put (m : Module) (k : Nat) (f : Function) : Module :=
  { m with functions := m.functions.set k f }

theorem set_eq_self {α : Type} {l : List α} {i : Nat} {a : α} (h : l[i]? = some a) :
    l.set i a = l := by
  obtain ⟨hlt, rfl⟩ := List.getElem?_eq_some_iff.1 h
  exact List.set_getElem_self hlt

theorem Module.put_names {m : Module} {k : Nat} {f g : Function} (hg : m.functions[k]? = some g)
    (hn : g.name = f.name) : (m.put k f).functions.map (·.name) = m.functions.map (·.name) := by
  rw [Module.put, List.map_set]
  exact set_eq_self (by rw [List.getElem?_map, hg, ← hn]; rfl)

theorem Module.Indexed.put {m : Module} (hm : m.Indexed) {k : Nat} {f g : Function}
    (hg : m.functions[k]? = some g) (hn : g.name = f.name) : (m.put k f).Indexed := by
  refine ⟨?_, hm.globals⟩
  rw [put_names hg hn]
  exact hm.functions

namespace Draft

variable {k : Nat}

theorem getElem?_put {m : Module} {f : Function} (hk : k < m.functions.length) :
    (m.put k f).functions[k]? = some f := by
  simp [Module.put, hk]

theorem getElem?_put_of_ne {m : Module} {f : Function} {j : Nat} (h : j ≠ k) :
    (m.put k f).functions[j]? = m.functions[j]? := by
  simp [Module.put, Ne.symm h]

theorem put_put (m : Module) (f g : Function) : (m.put k f).put k g = m.put k g := by
  simp [Module.put]

theorem modifyFunction_eq_put {m : Module} {f : Function} (hf : m.functions[k]? = some f)
    (g : Function → Function) : m.modifyFunction k g = m.put k (g f) := by
  obtain ⟨hlt, rfl⟩ := List.getElem?_eq_some_iff.1 hf
  have e : m.functions.modify k g = m.functions.set k (g m.functions[k]) := by
    apply List.ext_getElem?
    intro j
    by_cases hj : j = k
    · subst hj
      simp [hlt]
    · simp [Ne.symm hj]
  rw [Module.modifyFunction, Module.put, e]

end Draft

namespace Builder

variable {b : Builder} {id : ScopeId} {name : String} {v : Value}

theorem liftError_ok {α : Type} (a : α) (b : Builder) : liftError (.ok a) b = .ok a b := rfl

theorem define_of_some {c : ScopeChain} (h : b.scopes.define? id name v = some c) :
    define id name v b = .ok true { b with scopes := c } := by
  unfold define
  rw [modifyGet_run, h]

theorem define_of_none (h : b.scopes.define? id name v = none) :
    define id name v b = .ok false b := by
  unfold define
  rw [modifyGet_run, h]

section inChildScope

variable {α : Type} {parent : ScopeId} {body : ScopeId → BuildM α} {b' : Builder}

theorem inChildScope_of_ok {a : α} (h : body (b.scopes.push (some parent)).1
    { b with scopes := (b.scopes.push (some parent)).2 } = .ok a b') :
    inChildScope parent body b =
      .ok a { b' with scopes := b'.scopes.pop (b.scopes.push (some parent)).1 } := by
  simp only [inChildScope, h]

theorem inChildScope_of_error {e : Fault Lowering.Error} (h : body (b.scopes.push (some parent)).1
    { b with scopes := (b.scopes.push (some parent)).2 } = .error e b') :
    inChildScope parent body b =
      .error e { b' with scopes := b'.scopes.pop (b.scopes.push (some parent)).1 } := by
  simp only [inChildScope, h]

end inChildScope

section function

variable {k : Nat} {f : Function}

theorem function_of_some (hf : b.module.functions[k]? = some f) :
    Builder.function k b = .ok f b := by
  show present (b.module.function k) b = _
  rw [Module.function, hf]
  rfl

theorem function_of_none (hf : b.module.functions[k]? = none) :
    Builder.function k b = .error (.missing (.function k)) b := by
  show present (b.module.function k) b = _
  rw [Module.function, hf]
  rfl

theorem modifyFunction_of_some (hf : b.module.functions[k]? = some f) (g : Function → Function) :
    modifyFunction k g b = .ok () { b with module := b.module.put k (g f) } := by
  unfold modifyFunction
  rw [bind_of_ok (function_of_some hf), modify_run, Draft.modifyFunction_eq_put hf]

theorem enterFunction_of_some (hf : b.module.functions[k]? = some f) (name : String) :
    enterFunction k name b = .ok b.cursor
      { b with
        module := b.module.put k
          { f with blocks := f.blocks ++ [{ name }], layout := f.layout ++ [f.blocks.length] }
        cursor := some { function := k, block := f.blocks.length } } := by
  unfold enterFunction
  rw [bind_of_ok (function_of_some hf), bind_of_ok (modifyFunction_of_some hf _)]
  rfl

end function

end Builder

namespace Draft

/-- The builder whose cursor is in the function with index `k`. -/
def builder (d : Draft) (k : Nat) : Builder where
  module := d.module.put k d.function
  scopes := d.scopes
  cursor := some { function := k, block := d.block }

variable {d : Draft} {k : Nat}

open Builder

theorem function_builder (hk : k < d.module.functions.length) :
    Builder.function k (d.builder k) = .ok d.function (d.builder k) :=
  function_of_some (getElem?_put hk)

theorem modifyFunction_builder (hk : k < d.module.functions.length) (g : Function → Function) :
    modifyFunction k g (d.builder k) = .ok () ({ d with function := g d.function }.builder k) := by
  rw [modifyFunction_of_some (getElem?_put hk), show (d.builder k).module.put k (g d.function) =
    d.module.put k (g d.function) from put_put ..]
  rfl

theorem current_builder : current (d.builder k) = .ok ⟨k, d.block⟩ (d.builder k) := rfl

theorem createBlock_builder (hk : k < d.module.functions.length) (name : String) :
    createBlock name (d.builder k) =
      .ok d.function.blocks.length ({ d with function := d.function.addBlock name }.builder k) := by
  unfold createBlock
  rw [bind_of_ok current_builder, bind_of_ok (function_builder hk),
    bind_of_ok (modifyFunction_builder hk _)]
  rfl

theorem attachBlock_builder (hk : k < d.module.functions.length) {i : Nat}
    (hi : i ∉ d.function.layout) :
    attachBlock i (d.builder k) = .ok () ({ d with function := d.function.place i }.builder k) := by
  unfold attachBlock
  rw [bind_of_ok current_builder]
  show modifyFunction k _ (d.builder k) = _
  rw [modifyFunction_builder hk]
  have ha : ¬ d.function.isAttached i = true := by simpa [Function.isAttached] using hi
  rw [if_neg ha]
  rfl

theorem positionAtEnd_builder (i : Nat) :
    positionAtEnd i (d.builder k) = .ok () ({ d with block := i }.builder k) := rfl

theorem addSlot_builder (hk : k < d.module.functions.length) (name : Option String) (ty : Ty)
    (origin : SlotOrigin) :
    Builder.addSlot name ty origin (d.builder k) =
      .ok ⟨.slot d.function.slots.length, .ptr ty⟩ ((d.addSlot ⟨name, ty, origin⟩).builder k) := by
  unfold Builder.addSlot
  rw [bind_of_ok current_builder, bind_of_ok (function_builder hk),
    bind_of_ok (modifyFunction_builder hk _)]
  rfl

theorem isTerminated_builder (hk : k < d.module.functions.length) :
    isTerminated (d.builder k) = .ok (d.function.closedAt d.block) (d.builder k) := by
  unfold isTerminated
  rw [bind_of_ok (get_run _)]
  show (Builder.function k >>= _) (d.builder k) = _
  rw [bind_of_ok (function_builder hk)]
  rfl

/-- What the steps below need to know about a draft. -/
structure Placed (d : Draft) (k : Nat) : Prop where
  index : k < d.module.functions.length
  block : d.block < d.function.blocks.length
  layout : ∀ i ∈ d.function.layout, i < d.function.blocks.length

theorem Placed.reopen (h : d.Placed k) : d.reopen.Placed k := by
  cases hc : d.function.closedAt d.block with
  | false =>
    rw [reopen_of_open hc]
    exact h
  | true =>
    rw [reopen_of_closed hc]
    refine ⟨h.index, by simp [moveTo, Function.place, Function.addBlock], fun i hi => ?_⟩
    have hlen : (d.function.addBlock "dead").blocks.length = d.function.blocks.length + 1 := by
      simp [Function.addBlock]
    show i < (d.function.addBlock "dead").blocks.length
    rw [hlen]
    rcases List.mem_append.1 hi with hi | hi
    · exact Nat.lt_succ_of_lt (h.layout i hi)
    · rw [List.mem_singleton.1 hi]
      exact Nat.lt_succ_self _

theorem not_attached_length (h : d.Placed k) : d.function.blocks.length ∉ d.function.layout :=
  fun hi => Nat.lt_irrefl _ (h.layout _ hi)

theorem appendBlock_builder (h : d.Placed k) (name : String) :
    appendBlock name (d.builder k) = .ok d.function.blocks.length
      ({ d with function := (d.function.addBlock name).place d.function.blocks.length }.builder k) := by
  unfold appendBlock
  rw [bind_of_ok (createBlock_builder h.index name)]
  exact bind_of_ok (attachBlock_builder (d := { d with function := d.function.addBlock name })
    h.index (not_attached_length h))

theorem openBlock_builder (h : d.Placed k) :
    openBlock (d.builder k) = .ok ⟨k, d.reopen.block⟩ (d.reopen.builder k) := by
  unfold openBlock
  rw [bind_of_ok (isTerminated_builder h.index)]
  cases hc : d.function.closedAt d.block with
  | false =>
    rw [reopen_of_open hc]
    exact current_builder
  | true =>
    rw [reopen_of_closed hc]
    rw [if_pos rfl]
    exact bind_of_ok (appendBlock_builder h "dead")

theorem modifyBlock_builder (h : d.Placed k) (g : Block → Block) :
    modifyBlock ⟨k, d.block⟩ g (d.builder k) = .ok ()
      ({ d with
          function := { d.function with blocks := d.function.blocks.modify d.block g } }.builder k) := by
  unfold modifyBlock
  rw [bind_of_ok (function_builder h.index)]
  obtain ⟨b, hb⟩ : ∃ b, d.function.blocks[d.block]? = some b :=
    ⟨_, List.getElem?_eq_getElem h.block⟩
  rw [Function.block_ok.2 hb]
  exact modifyFunction_builder h.index _

theorem pushInst_builder (h : d.Placed k) (ty : Ty) (a : Action) :
    pushInst ty a (d.builder k) =
      .ok (if ty = .void then none else some (.temp d.function.nextValue))
        ((d.emit ty a).builder k) := by
  have hr := h.reopen
  unfold pushInst
  rw [bind_of_ok (openBlock_builder h), bind_of_ok (function_builder hr.index)]
  by_cases ht : ty = .void
  · rw [if_pos ht, if_pos ht, bind_of_ok (modifyBlock_builder hr _)]
    simp [emit, Function.emit, Function.nextInst, ht]
  · rw [if_neg ht, if_neg ht]
    show (modifyBlock ⟨k, d.reopen.block⟩ _ >>= _) (d.reopen.builder k) = _
    rw [bind_of_ok (modifyBlock_builder hr _)]
    refine (bind_of_ok (modifyFunction_builder ?_ _)).trans ?_
    · exact hr.index
    · simp [emit, Function.emit, Function.nextInst, ht]

theorem terminate_builder (h : d.Placed k) (t : Terminator) :
    terminate t (d.builder k) = .ok () ((d.close t).builder k) := by
  unfold terminate
  rw [bind_of_ok (openBlock_builder h)]
  exact modifyBlock_builder h.reopen _

end Draft

end SlotIR
