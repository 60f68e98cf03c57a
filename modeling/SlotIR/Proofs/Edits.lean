import Mathlib.Logic.Relation
import SlotIR.Proofs.Building

/-!
# Edits

A builder changes in a few ways only, whatever it builds and however its steps end: `Builder.Edit` is
the list of them. Everything that was built stays (`Edits.persists`): an edit appends, and it writes to
no block that has its terminator. Two invariants of functions follow from the same list. All results
of a function differ (`Edits.fresh`), and its layout names each of its blocks once (`Edits.laid`).
-/

namespace SlotIR

/-! ## Edits of a function -/

namespace Function

/-- One change of a function. -/
inductive Edit (f : Function) : Function → Prop
  | nameParams (names : List String) : Edit f { f with paramNames := names }
  | addSlot (s : Slot) : Edit f (f.addSlot s)
  | addBlock (name : String) : Edit f (f.addBlock name)
  /-- A new block at the end of the body. -/
  | appendBlock (name : String) : Edit f ((f.addBlock name).place f.blocks.length)
  | place {i : Nat} (waits : i ∉ f.layout) (created : i < f.blocks.length) : Edit f (f.place i)
  | emit {i : Nat} (writable : f.closedAt i = false) (created : i < f.blocks.length) (ty : Ty)
    (a : Action) : Edit f (f.emit i ty a)
  | close {i : Nat} (writable : f.closedAt i = false) (t : Terminator) : Edit f (f.close i t)

/-- What stays of a function: all that `Extends` says, and the names of its blocks. -/
structure Persists (f f' : Function) : Prop where
  body : f.Extends f'
  names : f.blocks.map (·.name) <+: f'.blocks.map (·.name)

namespace Persists

variable {f f' f'' : Function}

theorem refl (f : Function) : f.Persists f := ⟨.refl f, List.prefix_rfl⟩

theorem trans (h : f.Persists f') (h' : f'.Persists f'') : f.Persists f'' :=
  ⟨h.body.trans h'.body, h.names.trans h'.names⟩

theorem length_le (h : f.Persists f') : f.blocks.length ≤ f'.blocks.length := by
  simpa using h.names.length_le

end Persists

variable {f f' : Function}

/-- A view of the entries of a list that a change of one entry does not show in. -/
theorem map_modify_of_eq {α β : Type} {h : α → β} {g : α → α} (hg : ∀ a, h (g a) = h a) (l : List α)
    (i : Nat) : (l.modify i g).map h = l.map h := by
  induction l generalizing i with
  | nil => cases i <;> rfl
  | cons a l ih => cases i <;> simp [hg, ih]

theorem Edit.persists (h : f.Edit f') : f.Persists f' := by
  cases h with
  | nameParams names => exact ⟨{ Extends.refl f with }, List.prefix_rfl⟩
  | addSlot s => exact ⟨.addSlot f s, List.prefix_rfl⟩
  | addBlock name => exact ⟨.addBlock f name, by simp [Function.addBlock]⟩
  | appendBlock name =>
    exact ⟨(Extends.addBlock f name).trans (.place _ _), by simp [Function.addBlock, Function.place]⟩
  | @place i waits created => exact ⟨.place f i, List.prefix_rfl⟩
  | @emit i writable created ty a =>
    have hnames : (f.emit i ty a).blocks.map (·.name) = f.blocks.map (·.name) := by
      rw [Function.emit, map_modify_of_eq]
      exact fun _ => rfl
    exact ⟨.emit writable ty a, [], by rw [List.append_nil, hnames]⟩
  | @close i writable t =>
    have hnames : (f.close i t).blocks.map (·.name) = f.blocks.map (·.name) := by
      rw [Function.close, map_modify_of_eq]
      exact fun _ => rfl
    exact ⟨.close writable t, [], by rw [List.append_nil, hnames]⟩

/-! ### Results -/

/-- The results of all blocks of a function, laid out or not. -/
def ids (f : Function) : List Nat := f.results.map (·.1)

/-- All results differ, and the next one will differ from them too. -/
structure Fresh (f : Function) : Prop where
  nodup : f.ids.Nodup
  lt : ∀ id ∈ f.ids, id < f.nextValue

theorem ids_eq (f : Function) : f.ids = f.blocks.flatMap fun b => resultIds b.insts := by
  have hinsts : ∀ insts : List Inst,
      (insts.filterMap fun i => i.result.map (·, i.ty)).map (·.1) = resultIds insts := by
    intro insts
    rw [List.map_filterMap, resultIds]
    refine List.filterMap_congr fun i _ => ?_
    cases i.result <;> rfl
  rw [ids, results, hinsts, resultIds, List.filterMap_flatMap]
  rfl

/-- Where one entry of a list gives more, the whole list gives more, though not at its end. -/
theorem flatMap_modify_perm {α β : Type} {h : α → List β} {g : α → α} {new : List β}
    (hg : ∀ a, h (g a) = h a ++ new) {l : List α} {i : Nat} (hi : i < l.length) :
    ((l.modify i g).flatMap h).Perm (new ++ l.flatMap h) := by
  induction l generalizing i with
  | nil => simp at hi
  | cons a l ih =>
    cases i with
    | zero =>
      simp only [List.modify_zero_cons, List.flatMap_cons, hg, List.append_assoc]
      exact List.perm_append_comm_assoc ..
    | succ i =>
      have hrest := ih (i := i) (by simpa using hi)
      simp only [List.modify_succ_cons, List.flatMap_cons]
      exact (hrest.append_left (h a)).trans (List.perm_append_comm_assoc ..)

theorem ids_addBlock (name : String) : (f.addBlock name).ids = f.ids := by
  simp [ids_eq, Function.addBlock]

theorem ids_emit {i : Nat} (hi : i < f.blocks.length) (ty : Ty) (a : Action) :
    (f.emit i ty a).ids.Perm ((f.nextInst ty a).result.toList ++ f.ids) := by
  rw [ids_eq, ids_eq]
  refine flatMap_modify_perm (fun b => ?_) hi
  rw [resultIds_append, resultIds_cons, resultIds_nil, List.append_nil]

theorem ids_close {i : Nat} {t : Terminator} : (f.close i t).ids = f.ids := by
  rw [ids_eq, ids_eq, List.flatMap_def, List.flatMap_def, Function.close, map_modify_of_eq]
  exact fun _ => rfl

theorem Fresh.bare (name : String) (signature : Signature) :
    Fresh { name, signature } :=
  ⟨by simp [ids, results], by simp [ids, results]⟩

theorem Edit.fresh (h : f.Edit f') (hf : f.Fresh) : f'.Fresh := by
  cases h with
  | nameParams | addSlot | place => exact ⟨hf.nodup, hf.lt⟩
  | addBlock name =>
    have e := ids_addBlock (f := f) name
    exact ⟨e ▸ hf.nodup, e ▸ hf.lt⟩
  | appendBlock name =>
    have e := ids_addBlock (f := f) name
    refine ⟨?_, ?_⟩
    · show (f.addBlock name).ids.Nodup
      exact e ▸ hf.nodup
    · show ∀ id ∈ (f.addBlock name).ids, id < f.nextValue
      exact e ▸ hf.lt
  | @emit i writable created ty a =>
    have hp := ids_emit created ty a
    by_cases hv : ty = .void
    · rw [show (f.nextInst ty a).result = none from if_pos hv] at hp
      refine ⟨hp.nodup_iff.2 hf.nodup, fun id hid => ?_⟩
      rw [show (f.emit i ty a).nextValue = f.nextValue from if_pos hv]
      exact hf.lt id (hp.mem_iff.1 hid)
    · rw [show (f.nextInst ty a).result = some f.nextValue from if_neg hv] at hp
      have hnew : f.nextValue ∉ f.ids := fun hid => Nat.lt_irrefl _ (hf.lt _ hid)
      refine ⟨hp.nodup_iff.2 (List.nodup_cons.2 ⟨hnew, hf.nodup⟩), fun id hid => ?_⟩
      rw [show (f.emit i ty a).nextValue = f.nextValue + 1 from if_neg hv]
      rcases List.mem_cons.1 (hp.mem_iff.1 hid) with rfl | hid
      · exact Nat.lt_succ_self _
      · exact Nat.lt_succ_of_lt (hf.lt id hid)
  | @close i writable t =>
    have e := ids_close (f := f) (i := i) (t := t)
    exact ⟨e ▸ hf.nodup, fun id hid => hf.lt id (e ▸ hid)⟩

/-! ### Layouts -/

/-- The layout names blocks of the function, and none of them twice. -/
structure Laid (f : Function) : Prop where
  nodup : f.layout.Nodup
  created : ∀ i ∈ f.layout, i < f.blocks.length

theorem Laid.bare (name : String) (signature : Signature) :
    Laid { name, signature } :=
  ⟨List.nodup_nil, by simp⟩

theorem Laid.place {i : Nat} (hf : f.Laid) (hn : i ∉ f.layout) (hi : i < f.blocks.length) :
    (f.place i).Laid := by
  refine ⟨?_, ?_⟩
  · show (f.layout ++ [i]).Nodup
    exact List.nodup_append.2 ⟨hf.nodup, by simp, by
      intro j hj k hk
      rw [List.mem_singleton.1 hk]
      rintro rfl
      exact hn hj⟩
  · intro j hj
    rcases List.mem_append.1 hj with hj | hj
    · exact hf.created j hj
    · rwa [List.mem_singleton.1 hj]

theorem Laid.addBlock (hf : f.Laid) (name : String) : (f.addBlock name).Laid := by
  refine ⟨hf.nodup, fun i hi => ?_⟩
  have := hf.created i hi
  simp only [Function.addBlock, List.length_append, List.length_singleton]
  omega

theorem Edit.laid (h : f.Edit f') (hf : f.Laid) : f'.Laid := by
  cases h with
  | nameParams | addSlot => exact ⟨hf.nodup, hf.created⟩
  | addBlock name => exact hf.addBlock name
  | appendBlock name =>
    refine (hf.addBlock name).place ?_ (by simp [Function.addBlock])
    exact fun hi => Nat.lt_irrefl _ (hf.created _ hi)
  | place waits created => exact hf.place waits created
  | emit | close =>
    refine ⟨hf.nodup, fun i hi => ?_⟩
    simpa [Function.emit, Function.close] using hf.created i hi

end Function

/-! ## Edits of a builder -/

/-- What stays of a module: its globals, and its functions with all that stays of each. -/
structure Module.Persists (m m' : Module) : Prop where
  name : m'.name = m.name
  globals : m.globals <+: m'.globals
  functions : ∀ (i : Nat) (f : Function), m.functions[i]? = some f →
    ∃ f', m'.functions[i]? = some f' ∧ f.Persists f'

namespace Module.Persists

variable {m m' m'' : Module}

theorem refl (m : Module) : m.Persists m :=
  ⟨rfl, List.prefix_rfl, fun _ f hf => ⟨f, hf, .refl f⟩⟩

theorem trans (h : m.Persists m') (h' : m'.Persists m'') : m.Persists m'' := by
  refine ⟨h'.name.trans h.name, h.globals.trans h'.globals, fun i f hf => ?_⟩
  obtain ⟨f', hf', hp⟩ := h.functions i f hf
  obtain ⟨f'', hf'', hp'⟩ := h'.functions i f' hf'
  exact ⟨f'', hf'', hp.trans hp'⟩

theorem put {k : Nat} {f f' : Function} (hf : m.functions[k]? = some f) (h : f.Persists f') :
    m.Persists (m.put k f') := by
  refine ⟨rfl, List.prefix_rfl, fun i g hg => ?_⟩
  by_cases hik : i = k
  · subst hik
    cases hf.symm.trans hg
    exact ⟨f', Draft.getElem?_put (List.getElem?_eq_some_iff.1 hf).1, h⟩
  · exact ⟨g, (Draft.getElem?_put_of_ne hik).trans hg, .refl g⟩

end Module.Persists

namespace Builder

/-- One change of a builder. -/
inductive Edit (b : Builder) : Builder → Prop
  | addFunction (name : String) (signature : Signature) :
    Edit b { b with module := b.module.addFunction name signature }
  | addGlobal (g : Global) : Edit b { b with module := b.module.addGlobal g }
  | function {k : Nat} {f f' : Function} (found : b.module.functions[k]? = some f) (edit : f.Edit f') :
    Edit b { b with module := b.module.put k f' }
  | move (cursor : Option Cursor) : Edit b { b with cursor }
  | pushScope (parent : Option ScopeId) : Edit b { b with scopes := (b.scopes.push parent).2 }
  | popScope (id : ScopeId) : Edit b { b with scopes := b.scopes.pop id }
  | define {id : ScopeId} {name : String} {v : Value} {c : ScopeChain}
    (defines : b.scopes.define? id name v = some c) : Edit b { b with scopes := c }

/-- Any number of changes. -/
abbrev Edits : Builder → Builder → Prop := Relation.ReflTransGen Edit

variable {b b' : Builder}

theorem Edit.persists (h : Edit b b') : b.module.Persists b'.module := by
  cases h with
  | addFunction name signature =>
    refine ⟨rfl, List.prefix_rfl, fun i f hf => ⟨f, ?_, .refl f⟩⟩
    show (b.module.functions ++ _)[i]? = some f
    rw [List.getElem?_append_left (List.getElem?_eq_some_iff.1 hf).1]
    exact hf
  | addGlobal g => exact { Module.Persists.refl b.module with globals := List.prefix_append .. }
  | function found edit => exact .put found edit.persists
  | move | pushScope | popScope | define => exact .refl _

/-- What holds of a function without a body and survives every edit holds of all functions. -/
theorem Edit.forall_functions {P : Function → Prop}
    (hbare : ∀ name signature, P { name, signature }) (hedit : ∀ f f', f.Edit f' → P f → P f')
    (h : Edit b b') (hb : ∀ f ∈ b.module.functions, P f) : ∀ f ∈ b'.module.functions, P f := by
  cases h with
  | addFunction name signature =>
    intro f hf
    rcases List.mem_append.1 hf with hf | hf
    · exact hb f hf
    · rw [List.mem_singleton.1 hf]
      exact hbare name signature
  | function found edit =>
    intro f hf
    rcases List.mem_or_eq_of_mem_set hf with hf | rfl
    · exact hb f hf
    · exact hedit _ _ edit (hb _ (List.mem_of_getElem? found))
  | addGlobal | move | pushScope | popScope | define => exact hb

/-- The tables of names stay in step with the functions and globals. -/
theorem Edit.indexed (h : Edit b b') (hb : b.module.Indexed) : b'.module.Indexed := by
  cases h with
  | addFunction name signature => exact hb.addFunction name signature
  | addGlobal g => exact hb.addGlobal g
  | function found edit => exact hb.put found edit.persists.body.name.symm
  | move | pushScope | popScope | define => exact hb

namespace Edits

/-- Nothing that was built is lost or rewritten. -/
theorem persists (h : Edits b b') : b.module.Persists b'.module := by
  induction h with
  | refl => exact .refl _
  | tail _ edit ih => exact ih.trans edit.persists

theorem indexed (h : Edits b b') (hb : b.module.Indexed) : b'.module.Indexed := by
  induction h with
  | refl => exact hb
  | tail _ edit ih => exact edit.indexed ih

theorem fresh (h : Edits b b') (hb : ∀ f ∈ b.module.functions, f.Fresh) :
    ∀ f ∈ b'.module.functions, f.Fresh := by
  induction h with
  | refl => exact hb
  | tail _ edit ih => exact edit.forall_functions .bare (fun _ _ h => h.fresh) ih

theorem laid (h : Edits b b') (hb : ∀ f ∈ b.module.functions, f.Laid) :
    ∀ f ∈ b'.module.functions, f.Laid := by
  induction h with
  | refl => exact hb
  | tail _ edit ih => exact edit.forall_functions .bare (fun _ _ h => h.laid) ih

end Edits

end Builder

end SlotIR
