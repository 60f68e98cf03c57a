import SlotIR.Lowering
import SlotIR.Proofs.ScopeHistory

/-!
# The context of lowering

Lowering a tree opens scopes and moves the cursor, and takes both back however it ends. Afterwards the
live scopes are those from before, only the scope that the tree was lowered in may bind more names,
and the cursor is in the same function; inside of a function, no other function changes
(`KeepsContext`). Each step of lowering keeps its context from any builder it starts in (`Steady`), so
nothing has to be known about the tree.
-/

namespace SlotIR

/-! ## Changes of one function -/

/-- The function with index `k` may change in all but its name, and functions without a body may be
declared; all else stays. -/
structure Module.ChangesOnly (k : Nat) (m m' : Module) : Prop where
  name : m'.name = m.name
  globals : m'.globals = m.globals
  globalTable : m'.globalTable = m.globalTable
  others : ∀ (i : Nat) (f : Function), i ≠ k → m.functions[i]? = some f → m'.functions[i]? = some f
  declared : ∀ (i : Nat) (f : Function), i ≠ k → m.functions.length ≤ i →
    m'.functions[i]? = some f → f.hasBody = false
  names : ∀ name i, m.functionIndex? name = some i → m'.functionIndex? name = some i

namespace Module.ChangesOnly

variable {k : Nat} {m m' m'' : Module}

theorem refl (k : Nat) (m : Module) : m.ChangesOnly k m := by
  refine ⟨rfl, rfl, rfl, fun _ _ _ h => h, fun i f _ hi hf => ?_, fun _ _ h => h⟩
  exact absurd (List.getElem?_eq_some_iff.1 hf).1 (Nat.not_lt.2 hi)

theorem trans (h : m.ChangesOnly k m') (h' : m'.ChangesOnly k m'') : m.ChangesOnly k m'' := by
  refine ⟨h'.name.trans h.name, h'.globals.trans h.globals, h'.globalTable.trans h.globalTable,
    fun i f hi hf => h'.others i f hi (h.others i f hi hf), fun i f hi hle hf => ?_,
    fun name i hi => h'.names name i (h.names name i hi)⟩
  cases hf' : m'.functions[i]? with
  | none => exact h'.declared i f hi (List.getElem?_eq_none_iff.1 hf') hf
  | some f' =>
    cases (h'.others i f' hi hf').symm.trans hf
    exact h.declared i f hi hle hf'

theorem put (f' : Function) : m.ChangesOnly k (m.put k f') := by
  refine ⟨rfl, rfl, rfl, fun i g hi hg => (Draft.getElem?_put_of_ne hi).trans hg,
    fun i g hi hle hg => ?_, fun _ _ hi => hi⟩
  rw [Draft.getElem?_put_of_ne hi] at hg
  exact absurd (List.getElem?_eq_some_iff.1 hg).1 (Nat.not_lt.2 hle)

theorem addFunction {name : String} (h : m.functionIndex? name = none) (signature : Signature) :
    m.ChangesOnly k (m.addFunction name signature) := by
  refine ⟨rfl, rfl, rfl, fun i f _ hf => ?_, fun i f _ hle hf => ?_, fun other i hi => ?_⟩
  · rwa [Module.addFunction, List.getElem?_append_left (List.getElem?_eq_some_iff.1 hf).1]
  · rw [Module.addFunction, List.getElem?_append_right hle] at hf
    rw [List.mem_singleton.1 (List.mem_of_getElem? hf)]
    rfl
  · rw [functionIndex?_addFunction, if_neg ?_, hi]
    rintro rfl
    rw [h] at hi
    cases hi

end Module.ChangesOnly

/-! ## Context -/

namespace Builder

open Lowering (Error Cause Malformation)
open Syntax (Span)

/-- The builder `b'` goes on from `b`, in the same function and in the same scopes. -/
structure KeepsContext (scope : ScopeId) (b b' : Builder) : Prop where
  edits : b.Edits b'
  cursor : b'.cursor.map (·.function) = b.cursor.map (·.function)
  scopes : b.scopes.Numbered → ScopeChain.Widens scope b.scopes b'.scopes
  confined : ∀ c, b.cursor = some c → b.module.ChangesOnly c.function b'.module

namespace KeepsContext

variable {scope : ScopeId} {b b' b'' : Builder}

theorem refl (scope : ScopeId) (b : Builder) : KeepsContext scope b b :=
  ⟨.refl, rfl, fun _ => .refl scope b.scopes, fun c _ => .refl c.function b.module⟩

theorem trans (h : KeepsContext scope b b') (h' : KeepsContext scope b' b'') :
    KeepsContext scope b b'' := by
  refine ⟨h.edits.trans h'.edits, h'.cursor.trans h.cursor,
    fun hn => (h.scopes hn).trans (h'.scopes (h.edits.numbered hn)), fun c hc => ?_⟩
  obtain ⟨c', hc', e⟩ : ∃ c', b'.cursor = some c' ∧ c'.function = c.function :=
    Option.map_eq_some_iff.1 (h.cursor.trans (by rw [hc, Option.map_some]))
  exact (h.confined c hc).trans (e ▸ h'.confined c' hc')

/-- A change of the module alone. -/
theorem of_edit {m : Module} (e : b.Edit { b with module := m })
    (hm : ∀ c, b.cursor = some c → b.module.ChangesOnly c.function m) :
    KeepsContext scope b { b with module := m } :=
  ⟨.single e, rfl, fun _ => .refl scope b.scopes, hm⟩

theorem function {k : Nat} {f f' : Function} (hk : ∀ c, b.cursor = some c → c.function = k)
    (hf : b.module.functions[k]? = some f) (e : f.Edit f') :
    KeepsContext scope b { b with module := b.module.put k f' } := by
  refine of_edit (.function hf e) fun c hc => ?_
  rw [hk c hc]
  exact .put f'

end KeepsContext

/-- The current function has a block with this index. -/
def HasBlock (b : Builder) (i : Nat) : Prop :=
  ∃ c f, b.cursor = some c ∧ b.module.functions[c.function]? = some f ∧ i < f.blocks.length

theorem HasBlock.keep {scope : ScopeId} {b b' : Builder} {i : Nat} (hb : b.HasBlock i)
    (h : KeepsContext scope b b') : b'.HasBlock i := by
  obtain ⟨c, f, hc, hf, hi⟩ := hb
  have e := h.cursor
  rw [hc] at e
  obtain ⟨c', hc', hk⟩ := Option.map_eq_some_iff.1 e
  obtain ⟨f', hf', hp⟩ := h.edits.persists.functions _ f hf
  exact ⟨c', f', hc', hk ▸ hf', Nat.lt_of_lt_of_le hi hp.length_le⟩

/-- A step that keeps its context however it ends, and yields a value that satisfies `P`. -/
def Restores {α : Type} (scope : ScopeId) (b : Builder)
    (r : EStateM.Result (Fault Error) Builder α) (P : α → Builder → Prop) : Prop :=
  Ends r (fun a b' => KeepsContext scope b b' ∧ P a b') (fun _ b' => KeepsContext scope b b')

/-- A step that keeps its context from any builder. -/
def Steady {α : Type} (scope : ScopeId) (x : BuildM α) : Prop :=
  ∀ b, Restores scope b (x b) fun _ _ => True

section rules

variable {α β : Type} {scope : ScopeId} {b : Builder} {P : α → Builder → Prop}
  {Q : β → Builder → Prop}

theorem Restores.bind {x : BuildM α} {f : α → BuildM β} (hx : Restores scope b (x b) P)
    (hf : ∀ a b', KeepsContext scope b b' → P a b' → Restores scope b' (f a b') Q) :
    Restores scope b ((x >>= f) b) Q := by
  refine Ends.bind hx ?_
  rintro a b' ⟨hk, ha⟩
  exact (hf a b' hk ha).mono (fun _ _ h => ⟨hk.trans h.1, h.2⟩) fun _ _ h => hk.trans h

theorem Restores.bind_eq {x : BuildM α} {f : α → BuildM β} {b₁ b₂ : Builder} {a : α}
    (h : x b₁ = .ok a b₂) (hf : Restores scope b (f a b₂) Q) :
    Restores scope b ((x >>= f) b₁) Q :=
  Ends.bind_eq h hf

theorem Restores.forget {r : EStateM.Result (Fault Error) Builder α} (h : Restores scope b r P) :
    Restores scope b r fun _ _ => True :=
  h.mono (fun _ _ h => ⟨h.1, trivial⟩) fun _ _ h => h

theorem Restores.keeps {r : EStateM.Result (Fault Error) Builder α} (h : Restores scope b r P) :
    KeepsContext scope b (finalState r) := by
  cases r with
  | ok a b' => exact h.1
  | error e b' => exact h

theorem restores_error {e : Fault Error} : Restores scope b (.error e b) P :=
  KeepsContext.refl scope b

theorem Steady.bind {x : BuildM α} {f : α → BuildM β} (hx : Steady scope x)
    (hf : ∀ a, Steady scope (f a)) : Steady scope (x >>= f) :=
  fun b => (hx b).bind fun a b' _ _ => hf a b'

theorem steady_pure (a : α) : Steady scope (pure a : BuildM α) :=
  fun b => ⟨.refl scope b, trivial⟩

theorem steady_throw (e : Fault Error) : Steady scope (throw e : BuildM α) :=
  fun _ => restores_error

theorem fail_steady {span : Option Span} {cause : Cause} :
    Steady scope (fail span cause : BuildM α) :=
  steady_throw _

theorem malformed_steady {span : Option Span} {how : Malformation} :
    Steady scope (malformed span how : BuildM α) :=
  steady_throw _

/-- A step that reads the builder first. -/
theorem steady_get {f : Builder → BuildM α} (hf : ∀ s, Steady scope (f s)) :
    Steady scope (get >>= f) :=
  Steady.bind (fun b => ⟨.refl scope b, trivial⟩) hf

theorem liftError_restores (x : Except Error α) :
    Restores scope b (liftError x b) fun _ b' => b' = b := by
  cases x with
  | ok a => exact ⟨.refl scope b, rfl⟩
  | error e => exact restores_error

theorem liftError_steady (x : Except Error α) : Steady scope (liftError x) :=
  fun _ => (liftError_restores x).forget

theorem present_steady (x : Except Missing α) : Steady scope (present x) := by
  cases x with
  | ok a => exact steady_pure a
  | error e => exact steady_throw _

end rules

/-! ## Steps of building -/

section steps

variable {scope : ScopeId} {b : Builder}

theorem function_restores {k : Nat} : Restores scope b (function k b)
    (fun f b' => b' = b ∧ b.module.functions[k]? = some f) := by
  cases hf : b.module.functions[k]? with
  | some f =>
    rw [function_of_some hf]
    exact ⟨.refl scope b, rfl, rfl⟩
  | none =>
    rw [function_of_none hf]
    exact restores_error

theorem function_steady {k : Nat} : Steady scope (function k) :=
  fun _ => function_restores.forget

theorem modifyFunction_restores {k : Nat} {g : Function → Function}
    (hk : ∀ c, b.cursor = some c → c.function = k)
    (hg : ∀ f, b.module.functions[k]? = some f → f.Edit (g f)) :
    Restores scope b (modifyFunction k g b) (fun _ b' => ∃ f,
      b.module.functions[k]? = some f ∧ b' = { b with module := b.module.put k (g f) }) := by
  cases hf : b.module.functions[k]? with
  | some f =>
    rw [modifyFunction_of_some hf]
    exact ⟨.function hk hf (hg f hf), f, rfl, rfl⟩
  | none =>
    unfold modifyFunction
    rw [bind_of_error (function_of_none hf)]
    exact restores_error

theorem cursor_unique {c : Cursor} (hc : b.cursor = some c) :
    ∀ c', b.cursor = some c' → c'.function = c.function := by
  intro c' hc'
  cases hc.symm.trans hc'
  rfl

theorem current_restores :
    Restores scope b (current b) (fun c b' => b' = b ∧ b.cursor = some c) := by
  unfold current
  rw [bind_of_ok (get_run b)]
  cases b.cursor with
  | none => exact restores_error
  | some c => exact ⟨.refl scope b, rfl, rfl⟩

theorem addFunction_restores {name : String} {signature : Signature}
    (h : b.module.functionIndex? name = none) :
    Restores scope b (addFunction name signature b) fun _ _ => True :=
  ⟨.of_edit (.addFunction name signature) fun _ _ => .addFunction h signature, trivial⟩

theorem addGlobal_restores {g : Global} (h : b.cursor = none) :
    Restores scope b (addGlobal g b) fun _ _ => True :=
  ⟨.of_edit (.addGlobal g) fun c hc => by simp [h] at hc, trivial⟩

theorem positionAtEnd_restores {i : Nat} : Restores scope b (positionAtEnd i b) (fun _ b' =>
    ∃ c, b.cursor = some c ∧ b' = { b with cursor := some { c with block := i } }) := by
  unfold positionAtEnd
  refine current_restores.bind ?_
  rintro c b - ⟨rfl, hc⟩
  refine ⟨⟨.single (.move _), ?_, fun _ => .refl scope b.scopes, fun c _ => .refl c.function _⟩,
    c, hc, rfl⟩
  rw [hc]
  rfl

/-- The current function has a block with this index, and it is open. -/
def OpenAt (b : Builder) (i : Nat) : Prop :=
  ∃ c f, b.cursor = some c ∧ b.module.functions[c.function]? = some f ∧ i < f.blocks.length ∧
    f.closedAt i = false

theorem OpenAt.hasBlock {i : Nat} (h : b.OpenAt i) : b.HasBlock i := by
  obtain ⟨c, f, hc, hf, hi, -⟩ := h
  exact ⟨c, f, hc, hf, hi⟩

theorem createBlock_restores {name : String} :
    Restores scope b (createBlock name b) (fun i b' => b'.OpenAt i) := by
  unfold createBlock
  refine current_restores.bind ?_
  rintro c b - ⟨rfl, hc⟩
  refine function_restores.bind ?_
  rintro f b - ⟨rfl, hf⟩
  refine (modifyFunction_restores (cursor_unique hc) fun _ _ => .addBlock name).bind ?_
  rintro _ _ - ⟨f', hf', rfl⟩
  cases hf.symm.trans hf'
  refine ⟨.refl scope _, c, f.addBlock name, hc, ?_, by simp [Function.addBlock], ?_⟩
  · exact Draft.getElem?_put (List.getElem?_eq_some_iff.1 hf).1
  · rw [Function.closedAt_of_some Function.getElem?_addBlock_length]
    rfl

theorem put_self {m : Module} {k : Nat} {f : Function} (hf : m.functions[k]? = some f) :
    m.put k f = m := by
  obtain ⟨hk, rfl⟩ := List.getElem?_eq_some_iff.1 hf
  simp [Module.put]

theorem attachBlock_of_some {c : Cursor} {f : Function} (hc : b.cursor = some c)
    (hf : b.module.functions[c.function]? = some f) (i : Nat) :
    attachBlock i b = .ok () { b with
      module := b.module.put c.function (if f.isAttached i then f else f.place i) } := by
  have hcurrent : current b = .ok c b := by
    unfold current
    rw [bind_of_ok (get_run b), hc]
    rfl
  unfold attachBlock
  rw [bind_of_ok hcurrent, modifyFunction_of_some hf]
  rfl

/-- A block is laid out at most once; all that was open stays open. -/
theorem attachBlock_restores {i : Nat} (hb : b.HasBlock i) :
    Restores scope b (attachBlock i b) (fun _ b' => ∀ j, b.OpenAt j → b'.OpenAt j) := by
  obtain ⟨c, f, hc, hf, hi⟩ := hb
  rw [attachBlock_of_some hc hf]
  by_cases ha : f.isAttached i = true
  · rw [if_pos ha, put_self hf]
    exact ⟨.refl scope b, fun _ h => h⟩
  · rw [if_neg ha]
    have hn : i ∉ f.layout := by simpa [Function.isAttached] using ha
    refine ⟨.function (cursor_unique hc) hf (.place hn hi), ?_⟩
    rintro j ⟨c', f', hc', hf', hj, ho⟩
    cases hc.symm.trans hc'
    cases hf.symm.trans hf'
    exact ⟨c, f.place i, hc, Draft.getElem?_put (List.getElem?_eq_some_iff.1 hf).1, hj, ho⟩

theorem appendBlock_restores {name : String} :
    Restores scope b (appendBlock name b) (fun i b' => b'.OpenAt i) := by
  unfold appendBlock
  refine createBlock_restores.bind fun i b₁ _ ho => ?_
  refine (attachBlock_restores ho.hasBlock).bind fun _ b₂ _ hopen => ?_
  exact ⟨.refl scope b₂, hopen i ho⟩

theorem addSlot_steady {name : Option String} {ty : Ty} {origin : SlotOrigin} :
    Steady scope (addSlot name ty origin) := by
  intro b
  unfold addSlot
  refine current_restores.bind ?_
  rintro c b - ⟨rfl, hc⟩
  refine function_restores.bind ?_
  rintro f b - ⟨rfl, -⟩
  refine (modifyFunction_restores (cursor_unique hc) fun _ _ => .addSlot ⟨name, ty, origin⟩).bind ?_
  exact fun _ b' _ _ => steady_pure _ b'

/-! ### Instructions -/

theorem isTerminated_restores : Restores scope b (isTerminated b) (fun closed b' => b' = b ∧
    ∀ c f, b.cursor = some c → b.module.functions[c.function]? = some f →
      closed = f.closedAt c.block) := by
  unfold isTerminated
  rw [bind_of_ok (get_run b)]
  cases hc : b.cursor with
  | none =>
    refine ⟨.refl scope b, rfl, ?_⟩
    rintro _ _ ⟨⟩
  | some c =>
    refine function_restores.bind ?_
    rintro f b - ⟨rfl, hf⟩
    refine ⟨.refl scope b, rfl, ?_⟩
    rintro _ f' ⟨⟩ hf'
    cases hf.symm.trans hf'
    rfl

theorem isTerminated_steady : Steady scope isTerminated :=
  fun _ => isTerminated_restores.forget

/-- Code is only ever written to an open block. -/
theorem openBlock_restores : Restores scope b (openBlock b) (fun c b' => b'.cursor = some c ∧
    ∀ f, b'.module.functions[c.function]? = some f → f.closedAt c.block = false) := by
  unfold openBlock
  refine isTerminated_restores.bind ?_
  rintro closed b - ⟨rfl, hclosed⟩
  cases closed with
  | false =>
    refine current_restores.mono ?_ fun _ _ h => h
    rintro c b' ⟨hk, rfl, hc⟩
    exact ⟨hk, hc, fun f hf => (hclosed c f hc hf).symm⟩
  | true =>
    refine appendBlock_restores.bind ?_
    rintro i b₁ - ⟨c, f, hc, hf, -, ho⟩
    refine positionAtEnd_restores.bind ?_
    rintro _ b₂ - ⟨c', hc', rfl⟩
    cases hc.symm.trans hc'
    refine ⟨.refl scope _, rfl, fun f' hf' => ?_⟩
    cases hf.symm.trans hf'
    exact ho

/-- A block is changed where it is, if it is there. -/
theorem modifyBlock_cases (c : Cursor) (g : Block → Block) :
    (∃ e, modifyBlock c g b = .error e b) ∨ ∃ f, b.module.functions[c.function]? = some f ∧
      c.block < f.blocks.length ∧ modifyBlock c g b = .ok () { b with
        module := b.module.put c.function { f with blocks := f.blocks.modify c.block g } } := by
  unfold modifyBlock
  cases hf : b.module.functions[c.function]? with
  | none =>
    rw [bind_of_error (function_of_none hf)]
    exact .inl ⟨_, rfl⟩
  | some f =>
    rw [bind_of_ok (function_of_some hf)]
    cases hb : f.blocks[c.block]? with
    | none =>
      refine .inl ⟨.missing (.block c.block), ?_⟩
      rw [Function.block, hb]
      rfl
    | some blk =>
      rw [Function.block_ok.2 hb]
      exact .inr ⟨f, rfl, (List.getElem?_eq_some_iff.1 hb).1, modifyFunction_of_some hf _⟩

theorem pushInst_steady {ty : Ty} {a : Action} : Steady scope (pushInst ty a) := by
  intro b
  unfold pushInst
  refine openBlock_restores.bind ?_
  rintro c b - ⟨hc, hopen⟩
  refine function_restores.bind ?_
  rintro f b - ⟨rfl, hf⟩
  have hwrite : c.block < f.blocks.length →
      KeepsContext scope b { b with module := b.module.put c.function (f.emit c.block ty a) } :=
    fun hi => .function (cursor_unique hc) hf (.emit (hopen f hf) hi ty a)
  by_cases hv : ty = .void
  · rw [if_pos hv]
    rcases modifyBlock_cases (b := b) c _ with ⟨e, h⟩ | ⟨f', hf', hi, h⟩
    · rw [bind_of_error h]
      exact restores_error
    · cases hf.symm.trans hf'
      rw [bind_of_ok h]
      refine ⟨?_, trivial⟩
      have hk := hwrite hi
      simp only [Function.emit, Function.nextInst, hv, ↓reduceIte] at hk
      rw [hv]
      exact hk
  · rw [if_neg hv]
    rcases modifyBlock_cases (b := b) c _ with ⟨e, h⟩ | ⟨f', hf', hi, h⟩
    · rw [bind_of_error h]
      exact restores_error
    · cases hf.symm.trans hf'
      have hk := (List.getElem?_eq_some_iff.1 hf).1
      -- the instruction and the count of results are written one after the other
      rw [bind_of_ok h, bind_of_ok (modifyFunction_of_some (Draft.getElem?_put hk) _)]
      refine ⟨?_, trivial⟩
      have hk := hwrite hi
      simp only [Function.emit, Function.nextInst, hv, ↓reduceIte] at hk
      rw [Draft.put_put]
      exact hk

theorem terminate_steady {t : Terminator} : Steady scope (terminate t) := by
  intro b
  unfold terminate
  refine openBlock_restores.bind ?_
  rintro c b - ⟨hc, hopen⟩
  rcases modifyBlock_cases (b := b) c _ with ⟨e, h⟩ | ⟨f, hf, -, h⟩
  · rw [h]
    exact restores_error
  · rw [h]
    exact ⟨.function (cursor_unique hc) hf (.close (hopen f hf) t), trivial⟩

theorem typedResult_steady {r : Option Operand} {ty : Ty} : Steady scope (typedResult r ty) := by
  cases r with
  | none => exact malformed_steady
  | some o => exact steady_pure _

theorem load_steady {address : Value} : Steady scope (load address) := by
  unfold load
  cases address.ty.pointee? with
  | none => exact malformed_steady
  | some ty => exact pushInst_steady.bind fun _ => typedResult_steady

theorem store_steady {address value : Value} : Steady scope (store address value) :=
  pushInst_steady.bind fun _ => steady_pure _

theorem cast_steady {op : CastOp} {value : Value} {ty : Ty} : Steady scope (cast op value ty) :=
  pushInst_steady.bind fun _ => typedResult_steady

theorem compare_steady {lhs rhs : Value} : Steady scope (compare lhs rhs) :=
  pushInst_steady.bind fun _ => typedResult_steady

theorem call_steady {k : Nat} {args : List Operand} : Steady scope (call k args) :=
  function_steady.bind fun _ => pushInst_steady.bind fun _ => steady_pure _

/-! ### Scopes -/

theorem define_steady {name : String} {v : Value} : Steady scope (define scope name v) := by
  intro b
  cases hd : b.scopes.define? scope name v with
  | none =>
    rw [define_of_none hd]
    exact ⟨.refl scope b, trivial⟩
  | some c =>
    rw [define_of_some hd]
    exact ⟨⟨.single (.define hd), rfl, fun _ => .define hd, fun c _ => .refl c.function _⟩, trivial⟩

/-- A scope of its own is closed again, and took in all that was bound. -/
theorem inChildScope_steady {α : Type} {parent : ScopeId} {body : ScopeId → BuildM α}
    (h : ∀ id, Steady id (body id)) : Steady scope (inChildScope parent body) := by
  intro b
  have hclose : ∀ b', KeepsContext b.scopes.opened
      { b with scopes := (b.scopes.push (some parent)).2 } b' →
      KeepsContext scope b { b' with scopes := b'.scopes.pop b.scopes.opened } := by
    intro b' hk
    refine ⟨?_, hk.cursor, fun hn => ?_, hk.confined⟩
    · exact (Relation.ReflTransGen.head (.pushScope (some parent)) hk.edits).tail (.popScope _)
    · exact .close hn (hk.scopes (hn.push _))
  have hbody := h b.scopes.opened { b with scopes := (b.scopes.push (some parent)).2 }
  cases hr : body b.scopes.opened { b with scopes := (b.scopes.push (some parent)).2 } with
  | ok a b' =>
    rw [inChildScope_of_ok (b := b) hr]
    rw [hr] at hbody
    exact ⟨hclose b' hbody.1, trivial⟩
  | error e b' =>
    rw [inChildScope_of_error (b := b) hr]
    rw [hr] at hbody
    exact hclose b' hbody

/-- The cursor is in a function only as long as `x` runs. -/
theorem leave_restores {x : BuildM Unit} {b₁ : Builder} (hc : b.cursor = none) (he : b.Edits b₁)
    (hs : b₁.scopes = b.scopes) (hx : Steady scope x) :
    Restores scope b
      (match x b₁ with
        | .ok _ b' => .ok () { b' with cursor := b.cursor }
        | .error e b' => .error e { b' with cursor := b.cursor }) fun _ _ => True := by
  have hback : ∀ b', KeepsContext scope b₁ b' →
      KeepsContext scope b { b' with cursor := b.cursor } := by
    intro b' hk
    refine ⟨(he.trans hk.edits).tail (.move b.cursor), rfl, fun hn => ?_,
      fun c hc' => by simp [hc] at hc'⟩
    rw [← hs] at hn ⊢
    exact hk.scopes hn
  have h := hx b₁
  cases hr : x b₁ with
  | ok a b' =>
    rw [hr] at h
    exact ⟨hback b' h.1, trivial⟩
  | error e b' =>
    rw [hr] at h
    exact hback b' h

end steps

end Builder

/-! ## Lowering -/

namespace Lowering

open Syntax (Node Span)
open Builder

section values

variable {scope : ScopeId}

theorem expectValue_steady {n : Node} {r : Lowered} : Steady scope (expectValue n r) := by
  cases r with
  | value v => exact steady_pure v
  | unit => exact fail_steady
  | function i => exact fail_steady

theorem lowerAddress_steady {n : Node} {inner : ScopeId} :
    Steady scope (lowerAddress n inner) := by
  refine steady_get fun s => ?_
  split
  · exact steady_pure _
  · exact fail_steady

theorem lowerIdentifier_steady {n : Node} {inner : ScopeId} :
    Steady scope (lowerIdentifier n inner) :=
  lowerAddress_steady.bind fun _ => load_steady

theorem convert_steady {v : Value} {ty : Ty} {context : TypeContext} {span : Option Span} :
    Steady scope (convert v ty context span) := by
  unfold convert
  split
  · exact steady_pure v
  · split
    · exact cast_steady
    · exact fail_steady

theorem lowerCondition_steady {v : Value} {span : Option Span} :
    Steady scope (lowerCondition v span) := by
  unfold lowerCondition
  dsimp only
  split
  · exact cast_steady.bind fun _ => compare_steady
  · exact cast_steady.bind fun _ => compare_steady
  · exact (steady_pure v).bind fun _ => compare_steady
  · exact fail_steady.bind fun _ => compare_steady

theorem expectType_steady {v : Value} {ty : Ty} {context : TypeContext} {span : Option Span} :
    Steady scope (expectType v ty context span) := by
  unfold expectType
  split
  · exact steady_pure ()
  · exact fail_steady

theorem expectTypes_steady {call : Option Span} (vs : List Value) (tys : List Ty)
    (ns : List Node) : Steady scope (expectTypes call vs tys ns) := by
  induction vs generalizing tys ns with
  | nil => exact steady_pure ()
  | cons v vs ih =>
    cases tys with
    | nil => exact steady_pure ()
    | cons ty tys =>
      cases ns with
      | nil => exact steady_pure ()
      | cons n ns => exact expectType_steady.bind fun _ => ih tys ns

theorem bindVariable_steady {name : Node} {address : Value} :
    Steady scope (bindVariable name address scope) := by
  refine define_steady.bind fun defined => ?_
  split
  · exact steady_pure ()
  · exact fail_steady

theorem lowerGlobal_restores {b : Builder} (hc : b.cursor = none) {name : Node} {ty : Ty}
    {init : Option Node} : Restores scope b (lowerGlobal name ty init scope b) fun _ _ => True := by
  unfold lowerGlobal
  rw [bind_of_ok (get_run b)]
  by_cases h : (b.module.globalIndex? name.text).isSome ∨ (b.module.functionIndex? name.text).isSome
  · rw [if_pos h]
    exact fail_steady b
  · rw [if_neg h]
    refine (liftError_restores _).bind ?_
    rintro _ b - rfl
    exact (addGlobal_restores hc).bind fun _ b' _ _ => bindVariable_steady b'

theorem declareFunction_steady {name : Node} {signature : Signature} :
    Steady scope (declareFunction name signature) := by
  intro b
  unfold declareFunction
  rw [bind_of_ok (get_run b)]
  by_cases h : (b.module.globalIndex? name.text).isSome
  · rw [if_pos h]
    exact fail_steady b
  rw [if_neg h]
  cases hi : b.module.functionIndex? name.text with
  | none => exact addFunction_restores hi
  | some k =>
    refine function_steady.bind (fun f => ?_) b
    split
    · exact fail_steady
    · exact steady_pure _

theorem lowerPrototype_steady {ret : Ty} {d : Node} : Steady scope (lowerPrototype ret d) :=
  (liftError_steady _).bind fun _ => declareFunction_steady.bind fun _ => steady_pure ()

theorem fallThrough_steady {target : Nat} : Steady scope (fallThrough target) := by
  refine isTerminated_steady.bind fun closed => ?_
  split
  · exact steady_pure ()
  · exact terminate_steady

theorem spillParams_steady (i : Nat) (ps : List (Node × Ty)) :
    Steady scope (spillParams scope i ps) := by
  induction ps generalizing i with
  | nil => exact steady_pure ()
  | cons p ps ih =>
    refine addSlot_steady.bind fun _ => store_steady.bind fun _ => ?_
    exact bindVariable_steady.bind fun _ => ih (i + 1)

theorem closeBody_steady {ret : Ty} : Steady scope (closeBody ret) := by
  refine isTerminated_steady.bind fun closed => ?_
  split
  · exact steady_pure ()
  · split
    · exact terminate_steady
    · refine steady_get fun s => ?_
      split
      · exact steady_pure ()
      · refine function_steady.bind fun f => ?_
        split
        · refine (present_steady _).bind fun predecessors => ?_
          split
          · exact terminate_steady
          · exact steady_pure ()
        · exact steady_pure ()

theorem verifyLowered_steady {k : Nat} : Steady scope (verifyLowered k) := by
  refine steady_get fun s => ?_
  split
  · exact steady_pure ()
  · exact fail_steady
  · exact steady_throw _
  · exact steady_throw _

end values

section nodes

variable {lower : Lower} (hl : ∀ n scope, Steady scope (lower n scope)) {scope : ScopeId}

include hl

theorem lowerValue_steady {n : Node} : Steady scope (lowerValue lower n scope) :=
  (hl n scope).bind fun _ => expectValue_steady

theorem lowerAll_steady (ns : List Node) : Steady scope (lowerAll lower scope ns) := by
  induction ns with
  | nil => exact steady_pure ()
  | cons n ns ih => exact (hl n scope).bind fun _ => ih

theorem lowerValues_steady (ns : List Node) : Steady scope (lowerValues lower scope ns) := by
  induction ns with
  | nil => exact steady_pure []
  | cons n ns ih =>
    exact (lowerValue_steady hl).bind fun _ => ih.bind fun _ => steady_pure _

theorem lowerLocal_steady {name : Node} {ty : Ty} {init : Option Node} :
    Steady scope (lowerLocal lower name ty init scope) := by
  refine steady_get fun s => ?_
  split
  · exact fail_steady
  · refine addSlot_steady.bind fun slot => ?_
    split
    · exact bindVariable_steady
    · refine (lowerValue_steady hl).bind fun _ => expectType_steady.bind fun _ => ?_
      exact store_steady.bind fun _ => bindVariable_steady

theorem lowerVariable_steady {ty : Ty} {d : Node} :
    Steady scope (lowerVariable lower ty d scope) := by
  unfold lowerVariable
  split
  · exact malformed_steady
  · split
    · exact fail_steady
    · intro b
      rw [bind_of_ok (get_run b)]
      cases hc : b.cursor with
      | none => exact lowerGlobal_restores hc
      | some c => exact lowerLocal_steady hl b

theorem lowerDeclarators_steady {ty : Ty} (ds : List Node) :
    Steady scope (lowerDeclarators lower ty scope ds) := by
  induction ds with
  | nil => exact steady_pure ()
  | cons d ds ih =>
    unfold lowerDeclarators
    dsimp only
    split
    · exact lowerPrototype_steady.bind fun _ => ih
    · exact (lowerVariable_steady hl).bind fun _ => ih

theorem lowerDeclaration_steady {n : Node} : Steady scope (lowerDeclaration lower n scope) :=
  (liftError_steady _).bind fun _ =>
    (lowerDeclarators_steady hl _).bind fun _ => steady_pure _

theorem lowerArm_steady {arm : Node} {block merge : Nat} :
    Steady scope (lowerArm lower arm scope block merge) := by
  refine Steady.bind (fun _ => positionAtEnd_restores.forget) fun _ => ?_
  refine Steady.bind ?_ fun _ => fallThrough_steady
  exact inChildScope_steady fun inner => hl arm inner

/-- The blocks of a conditional are created before its arms and attached after them, in the same
function. -/
theorem lowerIf_steady {n : Node} : Steady scope (lowerIf lower n scope) := by
  unfold lowerIf
  rcases n.nth? 0 with _ | condNode
  · exact malformed_steady
  rcases n.nth? 1 with _ | thenNode
  · exact malformed_steady
  intro b
  refine (lowerValue_steady hl b).bind fun v b _ _ => ?_
  refine (lowerCondition_steady b).bind fun cond b _ _ => ?_
  refine appendBlock_restores.bind fun thenBlock b _ _ => ?_
  rcases n.nth? 2 with _ | elseNode
  · refine createBlock_restores.bind fun merge b _ ho => ?_
    refine (terminate_steady b).bind fun _ b₁ h₁ _ => ?_
    refine (lowerArm_steady hl b₁).bind fun _ b₂ h₂ _ => ?_
    refine (attachBlock_restores (ho.hasBlock.keep (h₁.trans h₂))).bind fun _ b₃ _ _ => ?_
    exact positionAtEnd_restores.bind fun _ b _ _ => steady_pure _ b
  · refine createBlock_restores.bind fun elseBlock b _ hoElse => ?_
    refine createBlock_restores.bind fun merge b' h₀ ho => ?_
    refine (terminate_steady b').bind fun _ b₁ h₁ _ => ?_
    refine (lowerArm_steady hl b₁).bind fun _ b₂ h₂ _ => ?_
    have hElse := hoElse.hasBlock.keep (h₀.trans (h₁.trans h₂))
    refine (attachBlock_restores hElse).bind fun _ b₃ h₃ _ => ?_
    refine (lowerArm_steady hl b₃).bind fun _ b₄ h₄ _ => ?_
    have hMerge := ho.hasBlock.keep (h₁.trans (h₂.trans (h₃.trans h₄)))
    refine (attachBlock_restores hMerge).bind fun _ b₅ _ _ => ?_
    exact positionAtEnd_restores.bind fun _ b _ _ => steady_pure _ b

theorem lowerReturn_steady {n : Node} : Steady scope (lowerReturn lower n scope) := by
  refine steady_get fun s => ?_
  split
  · exact malformed_steady
  · refine function_steady.bind fun f => ?_
    dsimp only
    split
    · split
      · exact terminate_steady.bind fun _ => steady_pure _
      · exact fail_steady
    · refine (lowerValue_steady hl).bind fun v => ?_
      split
      · exact fail_steady
      · refine convert_steady.bind fun _ => ?_
        exact terminate_steady.bind fun _ => steady_pure _

theorem lowerAssignment_steady {n : Node} : Steady scope (lowerAssignment lower n scope) := by
  unfold lowerAssignment
  split
  · dsimp only
    split
    · exact fail_steady
    · refine lowerAddress_steady.bind fun _ => (lowerValue_steady hl).bind fun _ => ?_
      exact expectType_steady.bind fun _ => store_steady.bind fun _ => steady_pure _
  · exact malformed_steady

theorem lowerCall_steady {n : Node} : Steady scope (lowerCall lower n scope) := by
  unfold lowerCall
  split
  · exact malformed_steady
  · refine steady_get fun s => ?_
    split
    · exact fail_steady
    · refine (lowerValues_steady hl _).bind fun _ => function_steady.bind fun f => ?_
      dsimp only
      split
      · exact fail_steady
      · refine (expectTypes_steady _ _ _).bind fun _ => call_steady.bind fun r => ?_
        split
        · exact steady_pure _
        · exact steady_pure _

/-- A body from its parameters to its end. -/
theorem bodyText_steady {params : List (Node × Ty)} {body : Node} {ret : Ty} {outer : ScopeId} :
    Steady scope (inChildScope outer fun inner => spillParams inner 0 params >>= fun _ =>
      lower body inner >>= fun _ => closeBody ret) :=
  inChildScope_steady fun inner => (spillParams_steady 0 params).bind fun _ =>
    (hl body inner).bind fun _ => closeBody_steady

/-- A body has the cursor inside of it only as long as it is lowered. -/
theorem lowerBody_restores {b : Builder} (hc : b.cursor = none) {k : Nat} {name : String}
    {params : List (Node × Ty)} {ret : Ty} {body : Node} {outer : ScopeId} :
    Restores scope b (lowerBody lower k name params ret body outer b) fun _ _ => True := by
  unfold lowerBody
  have hk : ∀ c, b.cursor = some c → c.function = k := fun c h => by simp [hc] at h
  refine (modifyFunction_restores hk fun _ _ => .nameParams _).bind ?_
  rintro _ b - ⟨f, hf, rfl⟩
  have hk := Draft.getElem?_put (f := { f with paramNames := params.map (·.1.text) })
    (List.getElem?_eq_some_iff.1 hf).1
  refine .bind_eq (enterFunction_of_some hk _) ?_
  exact leave_restores hc (.head (.function hk (.appendBlock _)) (.single (.move _))) rfl
    (bodyText_steady hl)

/-- A definition binds nothing, whichever scope it stands in. -/
theorem lowerDefinition_steady {n : Node} {outer : ScopeId} :
    Steady scope (lowerDefinition lower n outer) := by
  unfold lowerDefinition
  split
  · refine (liftError_steady _).bind fun ret => (liftError_steady _).bind fun declarator b => ?_
    rw [bind_of_ok (get_run b)]
    cases hc : b.cursor with
    | some c => exact function_steady.bind (fun _ => malformed_steady) b
    | none =>
      refine (liftError_steady _ b).bind fun params b₁ h₁ _ => ?_
      refine (declareFunction_steady b₁).bind fun k b₂ h₂ _ => ?_
      refine (function_steady b₂).bind fun f b₃ h₃ _ => ?_
      have hc₃ : b₃.cursor = none := by
        have e := ((h₁.trans h₂).trans h₃).cursor
        rwa [hc, Option.map_none, Option.map_eq_none_iff] at e
      by_cases hbody : f.hasBody
      · rw [if_pos hbody]
        exact fail_steady b₃
      · rw [if_neg hbody]
        refine (lowerBody_restores hl hc₃).bind fun _ b₄ _ _ => ?_
        exact verifyLowered_steady.bind (fun _ => steady_pure _) b₄
  · exact malformed_steady

/-- One node, from the nodes below it. -/
theorem lowerNode_steady (n : Node) : Steady scope (lowerNode lower n scope) := by
  unfold lowerNode
  split
  · exact (lowerAll_steady hl _).bind fun _ => steady_pure _
  · exact (lowerAll_steady hl _).bind fun _ => steady_pure _
  · exact (lowerAll_steady hl _).bind fun _ => steady_pure _
  · exact (lowerAll_steady hl _).bind fun _ => steady_pure _
  · exact lowerDefinition_steady hl
  · exact lowerDeclaration_steady hl
  · exact lowerIf_steady hl
  · exact lowerReturn_steady hl
  · exact lowerAssignment_steady hl
  · exact lowerCall_steady hl
  · split
    · exact hl _ scope
    · exact malformed_steady
  · exact steady_pure _
  · exact steady_pure _
  · exact steady_pure _
  · exact lowerIdentifier_steady.bind fun _ => steady_pure _
  all_goals exact malformed_steady

end nodes

theorem lowerWithin_steady (depth : Nat) (n : Node) (scope : ScopeId) :
    Steady scope (lowerWithin depth n scope) := by
  induction depth generalizing n scope with
  | zero => exact steady_throw _
  | succ depth ih => exact lowerNode_steady ih n

theorem lower_steady (n : Node) (scope : ScopeId) : Steady scope (lower n scope) :=
  lowerWithin_steady n.height n scope

theorem lower_keepsContext (n : Node) (scope : ScopeId) (b : Builder) :
    KeepsContext scope b (finalState (lower n scope b)) :=
  (lower_steady n scope b).keeps

/-- However the lowering of a tree ends, the context is the one it began in. The live scopes and their
parents are the same, a scope other than the given one has the same bindings, the given one has all
its bindings with their values and maybe more, and the cursor is in the same function or, as before,
in none. -/
theorem lower_restores_context {b b' : Builder} (hb : b.scopes.Numbered) (n : Node)
    (scope : ScopeId) (hend : finalState (lower n scope b) = b') :
    (∀ id, (b'.scopes.get? id).map (·.parent) = (b.scopes.get? id).map (·.parent)) ∧
    (∀ id, id ≠ scope → b'.scopes.get? id = b.scopes.get? id) ∧
    (∀ s, b.scopes.get? scope = some s → ∃ s', b'.scopes.get? scope = some s' ∧
      ∀ name v, s.symbols.lookup name = some v → s'.symbols.lookup name = some v) ∧
    b'.cursor.map (·.function) = b.cursor.map (·.function) ∧ b'.scopes.Numbered := by
  have hk := lower_keepsContext n scope b
  rw [hend] at hk
  have hw := hk.scopes hb
  exact ⟨hw.parents, hw.others, hw.bindings, hk.cursor, hk.edits.numbered hb⟩

/-- A variable, and a function whose body uses a name that is not bound. -/
def strayUse : Node :=
  .mk .declarationList none none [
    .mk .declaration none none [
      .mk .declarationSpecifiers none none [.mk .typeSpecifier (some "int") none []],
      .mk .identifier (some "x") none []],
    .mk .functionDefinition none none [
      .mk .declarationSpecifiers none none [.mk .typeSpecifier (some "int") none []],
      .mk .functionDeclarator none none [.mk .identifier (some "f") none []],
      .mk .compoundStatement none none [.mk .identifier (some "y") none []]]]

/-- A builder with one open scope inside of another. -/
def nestedScopes : Builder :=
  { fresh "stray" with scopes := ((({} : ScopeChain).push none).2.push (some 0)).2 }

/-- The error comes up in the scope of a body; that scope is closed, and the body left. -/
theorem stray_use_restores_context : ∃ b',
    lower strayUse 1 nestedScopes = .error (.error ⟨none, .undefinedIdentifier "y"⟩) b' ∧
      b'.scopes.get? 0 = nestedScopes.scopes.get? 0 ∧ b'.scopes.get? 2 = none ∧
      b'.scopes.binds 1 "x" = true ∧ b'.cursor.map (·.function) = none := by
  have hb : nestedScopes.scopes.Numbered := (ScopeChain.numbered_empty.push none).push (some 0)
  obtain ⟨-, hothers, -, hcursor, -⟩ := lower_restores_context hb strayUse 1 rfl
  exact ⟨finalState (lower strayUse 1 nestedScopes), by decide +kernel, hothers 0 (by decide),
    hothers 2 (by decide), by decide +kernel, hcursor⟩

end Lowering

end SlotIR
