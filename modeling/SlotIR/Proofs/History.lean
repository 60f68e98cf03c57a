import SlotIR.Proofs.LexicalContext

/-!
# Histories of a builder

A builder may be driven by any operations in any order: the cursor can go back to a block that has
its terminator, a block can wait outside of the layout, and trees can be lowered in between, with or
without success. `replay` runs such a history. Whatever it was, all results of a function differ,
and what was built at some point of the history is still there at every later one
(`history_only_appends`). Both come from `Operation.run_cases`, which says of one operation that it is
made of edits, unless it lays out a block that was never created.
-/

namespace SlotIR.Builder

open Lowering (Error)
open Syntax (Node)

/-- An operation on a builder. -/
inductive Operation where
  | addFunction (name : String) (signature : Signature)
  | addGlobal (g : Global)
  | enterFunction (index : Nat) (entryName : String)
  | setCursor (cursor : Option Cursor)
  | positionAtEnd (block : Nat)
  | createBlock (name : String)
  | attachBlock (block : Nat)
  | appendBlock (name : String)
  | addSlot (name : Option String) (ty : Ty) (origin : SlotOrigin)
  | load (address : Value)
  | store (address value : Value)
  | cast (op : CastOp) (value : Value) (ty : Ty)
  | compare (lhs rhs : Value)
  | call (index : Nat) (args : List Operand)
  | jump (target : Nat)
  | branch (cond : Value) (onTrue onFalse : Nat)
  | ret (value : Option Value)
  | unreachable
  | pushScope (parent : Option ScopeId)
  | popScope (id : ScopeId)
  | define (id : ScopeId) (name : String) (value : Value)
  /-- Lowers a tree in a scope. -/
  | lower (n : Node) (scope : ScopeId)
  /-- Lowers a tree in a new scope. -/
  | lowerInside (n : Node) (parent : ScopeId)

namespace Operation

/-- Carries out an operation and drops its result. -/
def run : Operation → BuildM Unit
  | .addFunction name signature => do let _ ← Builder.addFunction name signature
  | .addGlobal g => do let _ ← Builder.addGlobal g
  | .enterFunction index entryName => do let _ ← Builder.enterFunction index entryName
  | .setCursor cursor => do let _ ← Builder.setCursor cursor
  | .positionAtEnd block => Builder.positionAtEnd block
  | .createBlock name => do let _ ← Builder.createBlock name
  | .attachBlock block => Builder.attachBlock block
  | .appendBlock name => do let _ ← Builder.appendBlock name
  | .addSlot name ty origin => do let _ ← Builder.addSlot name ty origin
  | .load address => do let _ ← Builder.load address
  | .store address value => Builder.store address value
  | .cast op value ty => do let _ ← Builder.cast op value ty
  | .compare lhs rhs => do let _ ← Builder.compare lhs rhs
  | .call index args => do let _ ← Builder.call index args
  | .jump target => Builder.jump target
  | .branch cond onTrue onFalse => Builder.branch cond onTrue onFalse
  | .ret value => Builder.ret value
  | .unreachable => Builder.unreachable
  | .pushScope parent => do let _ ← Builder.pushScope parent
  | .popScope id => do let _ ← Builder.popScope id
  | .define id name value => do let _ ← Builder.define id name value
  | .lower n scope => do let _ ← Lowering.lower n scope
  | .lowerInside n parent => do let _ ← inChildScope parent fun inner => Lowering.lower n inner

/-- The builder after an operation that ended in a result or an error. There is none where a function
or block is missing that the operation cannot do without. -/
def after? (op : Operation) (b : Builder) : Option Builder :=
  match op.run b with
  | .ok _ b' => some b'
  | .error (.missing _) _ => none
  | .error _ b' => some b'

/-- Whether an operation lays out none but a block of the current function. -/
def attachesCreated (b : Builder) : Operation → Bool
  | .attachBlock block => b.cursor.all fun c =>
    (b.module.functions[c.function]?).all fun f => block < f.blocks.length
  | _ => true

end Operation

/-- Carries out operations in order, whether they succeed or not. -/
def replay : List Operation → Builder → Option Builder
  | [], b => some b
  | op :: ops, b => (op.after? b).bind fun b' => replay ops b'

/-- Whether a history lays out none but blocks of the function that is current at the time. -/
def attachesCreated : List Operation → Builder → Bool
  | [], _ => true
  | op :: ops, b => op.attachesCreated b && (op.after? b).all fun b' => attachesCreated ops b'

theorem replay_append (ops ops' : List Operation) (b : Builder) :
    replay (ops ++ ops') b = (replay ops b).bind fun b' => replay ops' b' := by
  induction ops generalizing b with
  | nil => rfl
  | cons op ops ih => simp [replay, ih, Option.bind_assoc]

/-! ## One operation -/

section one

variable {α : Type} {b b' : Builder}

theorem Restores.edits (scope : ScopeId) {r : EStateM.Result (Fault Error) Builder α}
    {P : α → Builder → Prop} (h : Restores scope b r P) : b.Edits (finalState r) :=
  h.keeps.edits

/-- Whether the result of a step is dropped does not matter. -/
theorem edits_discard {x : BuildM α} (h : b.Edits (finalState (x b))) :
    b.Edits (finalState ((x >>= fun _ => (pure () : BuildM Unit)) b)) := by
  cases hr : x b with
  | ok a b' =>
    rw [bind_of_ok hr]
    rwa [hr] at h
  | error e b' =>
    rw [bind_of_error hr]
    rwa [hr] at h

theorem enterFunction_edits (k : Nat) (name : String) :
    b.Edits (finalState (enterFunction k name b)) := by
  cases hf : b.module.functions[k]? with
  | none =>
    unfold enterFunction
    rw [bind_of_error (function_of_none hf)]
    exact .refl
  | some f =>
    rw [enterFunction_of_some hf]
    exact .head (.function hf (.appendBlock name)) (.single (.move _))

/-- To lay out a block that is not there changes the layout too, but is no edit. -/
theorem attachBlock_cases (i : Nat) : b.Edits (finalState (attachBlock i b)) ∨
    ∃ c f, b.cursor = some c ∧ b.module.functions[c.function]? = some f ∧ f.blocks.length ≤ i ∧
      finalState (attachBlock i b) = { b with module := b.module.put c.function (f.place i) } := by
  by_cases h : ∃ c f, b.cursor = some c ∧ b.module.functions[c.function]? = some f
  · obtain ⟨c, f, hc, hf⟩ := h
    by_cases hi : i < f.blocks.length
    · exact .inl ((attachBlock_restores ⟨c, f, hc, hf, hi⟩).edits 0)
    rw [attachBlock_of_some hc hf]
    by_cases ha : f.isAttached i = true
    · rw [if_pos ha, put_self hf]
      exact .inl .refl
    · rw [if_neg ha]
      exact .inr ⟨c, f, hc, hf, not_lt.1 hi, rfl⟩
  · left
    unfold attachBlock
    refine Restores.edits 0 (current_restores.bind (Q := fun _ _ => True) ?_)
    rintro c b - ⟨rfl, hc⟩
    exact (modifyFunction_restores (cursor_unique hc) fun f hf => absurd ⟨c, f, hc, hf⟩ h).forget

/-- What an operation does, however it ends. -/
theorem Operation.run_cases (op : Operation) (b : Builder) : b.Edits (finalState (op.run b)) ∨
    ∃ i c f, op = .attachBlock i ∧ b.cursor = some c ∧
      b.module.functions[c.function]? = some f ∧ f.blocks.length ≤ i ∧
      finalState (op.run b) = { b with module := b.module.put c.function (f.place i) } := by
  cases op with
  | attachBlock i =>
    refine (attachBlock_cases i).imp_right ?_
    rintro ⟨c, f, hc, hf, hi, e⟩
    exact ⟨i, c, f, rfl, hc, hf, hi, e⟩
  | addFunction name signature =>
    exact .inl (edits_discard (.single (.addFunction name signature)))
  | addGlobal g => exact .inl (edits_discard (.single (.addGlobal g)))
  | enterFunction k name => exact .inl (edits_discard (enterFunction_edits k name))
  | setCursor cursor => exact .inl (edits_discard (.single (.move cursor)))
  | positionAtEnd => exact .inl (positionAtEnd_restores.edits 0)
  | createBlock => exact .inl (edits_discard (createBlock_restores.edits 0))
  | appendBlock => exact .inl (edits_discard (appendBlock_restores.edits 0))
  | addSlot => exact .inl (edits_discard ((addSlot_steady b).edits 0))
  | load => exact .inl (edits_discard ((load_steady b).edits 0))
  | store => exact .inl ((store_steady b).edits 0)
  | cast => exact .inl (edits_discard ((cast_steady b).edits 0))
  | compare => exact .inl (edits_discard ((compare_steady b).edits 0))
  | call => exact .inl (edits_discard ((call_steady b).edits 0))
  | jump | branch | ret | unreachable => exact .inl ((terminate_steady b).edits 0)
  | pushScope parent => exact .inl (edits_discard (.single (.pushScope parent)))
  | popScope id => exact .inl (edits_discard (.single (.popScope id)))
  | define id => exact .inl (edits_discard ((define_steady b).edits id))
  | lower n scope => exact .inl (edits_discard (Lowering.lower_keepsContext n scope b).edits)
  | lowerInside n parent =>
    refine .inl (edits_discard (Restores.edits parent (inChildScope_steady (fun inner => ?_) b)))
    exact Lowering.lower_steady n inner

variable {op : Operation}

/-- The same of the builder that a history goes on with. -/
theorem Operation.after?_cases (h : op.after? b = some b') : b.Edits b' ∨
    ∃ i c f, op = .attachBlock i ∧ b.cursor = some c ∧
      b.module.functions[c.function]? = some f ∧ f.blocks.length ≤ i ∧
      b' = { b with module := b.module.put c.function (f.place i) } := by
  have hend : finalState (op.run b) = b' := by
    unfold after? at h
    split at h
    · rename_i hr
      rw [hr]
      exact Option.some.inj h
    · cases h
    · rename_i hr
      rw [hr]
      exact Option.some.inj h
  rw [← hend]
  exact op.run_cases b

theorem Operation.after?_persists (h : op.after? b = some b') : b.module.Persists b'.module := by
  rcases after?_cases h with he | ⟨i, c, f, -, -, hf, -, rfl⟩
  · exact he.persists
  · exact .put hf ⟨.place f i, List.prefix_rfl⟩

theorem Operation.after?_fresh (h : op.after? b = some b')
    (hb : ∀ f ∈ b.module.functions, f.Fresh) : ∀ f ∈ b'.module.functions, f.Fresh := by
  rcases after?_cases h with he | ⟨i, c, f, -, -, hf, -, rfl⟩
  · exact he.fresh hb
  · intro g hg
    rcases List.mem_or_eq_of_mem_set hg with hg | rfl
    · exact hb g hg
    · have hfresh := hb f (List.mem_of_getElem? hf)
      exact ⟨hfresh.nodup, hfresh.lt⟩

theorem Operation.after?_indexed (h : op.after? b = some b') (hb : b.module.Indexed) :
    b'.module.Indexed := by
  rcases after?_cases h with he | ⟨i, c, f, -, -, hf, -, rfl⟩
  · exact he.indexed hb
  · exact hb.put hf rfl

theorem Operation.after?_numbered (h : op.after? b = some b') (hb : b.scopes.Numbered) :
    b'.scopes.Numbered := by
  rcases after?_cases h with he | ⟨i, c, f, -, -, -, -, rfl⟩
  · exact he.numbered hb
  · exact hb

theorem Operation.after?_laid (h : op.after? b = some b') (hop : op.attachesCreated b = true)
    (hb : ∀ f ∈ b.module.functions, f.Laid) : ∀ f ∈ b'.module.functions, f.Laid := by
  rcases after?_cases h with he | ⟨i, c, f, rfl, hc, hf, hi, -⟩
  · exact he.laid hb
  · -- the operation was said to lay out a block that is there
    simp [attachesCreated, hc, hf] at hop
    omega

end one

/-! ## Whole histories -/

/-- What every operation preserves holds at the end of a history. -/
theorem replay_preserves {P : Builder → Prop}
    (hstep : ∀ (op : Operation) b b', op.after? b = some b' → P b → P b') {ops : List Operation}
    {b b' : Builder} (h : replay ops b = some b') (hb : P b) : P b' := by
  induction ops generalizing b with
  | nil =>
    cases h
    exact hb
  | cons op ops ih =>
    obtain ⟨b₁, h₁, h₂⟩ := Option.bind_eq_some_iff.1 h
    exact ih h₂ (hstep op b b₁ h₁ hb)

theorem replay_persists {ops : List Operation} {b b' : Builder} (h : replay ops b = some b') :
    b.module.Persists b'.module :=
  replay_preserves (P := fun s => b.module.Persists s.module)
    (fun _ _ _ hop hs => hs.trans (Operation.after?_persists hop)) h (.refl _)

theorem replay_fresh {ops : List Operation} {b b' : Builder} (h : replay ops b = some b')
    (hb : ∀ f ∈ b.module.functions, f.Fresh) : ∀ f ∈ b'.module.functions, f.Fresh :=
  replay_preserves (P := fun s => ∀ f ∈ s.module.functions, f.Fresh)
    (fun _ _ _ hop hs => Operation.after?_fresh hop hs) h hb

theorem replay_indexed {ops : List Operation} {b b' : Builder} (h : replay ops b = some b')
    (hb : b.module.Indexed) : b'.module.Indexed :=
  replay_preserves (P := fun s => s.module.Indexed)
    (fun _ _ _ hop hs => Operation.after?_indexed hop hs) h hb

theorem replay_numbered {ops : List Operation} {b b' : Builder} (h : replay ops b = some b')
    (hb : b.scopes.Numbered) : b'.scopes.Numbered :=
  replay_preserves (P := fun s => s.scopes.Numbered)
    (fun _ _ _ hop hs => Operation.after?_numbered hop hs) h hb

theorem replay_laid {ops : List Operation} {b b' : Builder} (h : replay ops b = some b')
    (hops : attachesCreated ops b = true) (hb : ∀ f ∈ b.module.functions, f.Laid) :
    ∀ f ∈ b'.module.functions, f.Laid := by
  induction ops generalizing b with
  | nil =>
    cases h
    exact hb
  | cons op ops ih =>
    obtain ⟨b₁, h₁, h₂⟩ := Option.bind_eq_some_iff.1 h
    rw [attachesCreated, Bool.and_eq_true, h₁, Option.all_some] at hops
    exact ih h₂ hops.2 (Operation.after?_laid h₁ hops.1 hb)

/-- Between two points of a history, everything is kept and things are only appended: functions and
globals, and in each function slots, blocks, the layout and the instructions of open blocks, while its
signature and its closed blocks stay as they are. At the later point the results of a function
differ over all its blocks and lie below the number of the next one, the tables lead from a name to
the last entry that was added with it, every live scope has a number that was given out, and if no
block was laid out before it was created, no layout names a block twice. -/
theorem history_only_appends {name : String} {earlier later : List Operation} {b b' : Builder}
    (hb : replay earlier (fresh name) = some b) (hb' : replay later b = some b') :
    b.module.Persists b'.module ∧
    (∀ f ∈ b'.module.functions, f.ids.Nodup ∧ ∀ id ∈ f.ids, id < f.nextValue) ∧
    b'.module.Indexed ∧ b'.scopes.Numbered ∧
    (attachesCreated (earlier ++ later) (fresh name) = true →
      ∀ f ∈ b'.module.functions, f.layout.Nodup) := by
  have hall : replay (earlier ++ later) (fresh name) = some b' := by
    rw [replay_append, hb]
    exact hb'
  have hnone : ∀ f, f ∉ (fresh name).module.functions := fun _ hf => by cases hf
  refine ⟨replay_persists hb', fun f hf => ?_, ?_, ?_, fun hops f hf => ?_⟩
  · have hfresh := replay_fresh hall (fun f hf => absurd hf (hnone f)) f hf
    exact ⟨hfresh.nodup, hfresh.lt⟩
  · exact replay_indexed hall ⟨rfl, rfl⟩
  · exact replay_numbered hall ScopeChain.numbered_empty
  · exact (replay_laid hall hops (fun f hf => absurd hf (hnone f)) f hf).nodup

/-- A body with a block that waits outside of the layout; the entry goes there. -/
def waitingBlock : List Operation := [
  .pushScope none,
  .addFunction "f" { ret := .int, params := [] },
  .enterFunction 0 "entry",
  .createBlock "exit",
  .addSlot (some "x") .int .var,
  .load ⟨.slot 0, .ptr .int⟩,
  .jump 1]

/-- Code for the closed entry, a tree that fails, and the waiting block, laid out twice. -/
def lateExit : List Operation := [
  .store ⟨.slot 0, .ptr .int⟩ ⟨.temp 0, .int⟩,
  .load ⟨.slot 0, .ptr .int⟩,
  .lower Lowering.strayUse 0,
  .attachBlock 1,
  .positionAtEnd 1,
  .load ⟨.slot 0, .ptr .int⟩,
  .attachBlock 1,
  .ret none,
  .positionAtEnd 0,
  .unreachable]

theorem late_exit_only_appends : ∃ b b',
    replay waitingBlock (fresh "late") = some b ∧ replay lateExit b = some b' ∧
    b.module.Persists b'.module ∧
    (∀ f ∈ b'.module.functions, f.ids.Nodup ∧ ∀ id ∈ f.ids, id < f.nextValue) ∧
    b'.scopes.Numbered ∧ ∀ f ∈ b'.module.functions, f.layout.Nodup := by
  have hsome : (replay waitingBlock (fresh "late")).isSome = true := by decide +kernel
  obtain ⟨b, hb⟩ := Option.isSome_iff_exists.1 hsome
  have hsome' : (replay (waitingBlock ++ lateExit) (fresh "late")).isSome = true := by
    decide +kernel
  rw [replay_append, hb] at hsome'
  obtain ⟨b', hb'⟩ := Option.isSome_iff_exists.1 hsome'
  obtain ⟨hkept, hresults, -, hscopes, hlayout⟩ := history_only_appends hb hb'
  exact ⟨b, b', hb, hb', hkept, hresults, hscopes, hlayout (by decide +kernel)⟩

end SlotIR.Builder
