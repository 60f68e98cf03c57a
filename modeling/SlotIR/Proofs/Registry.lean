import SlotIR.Syntax.Shape
import SlotIR.Proofs.Typing
import SlotIR.Proofs.Names

/-!
# The registry of a module

What holds of the globals and functions of a module that is being built: the tables lead from names to
entries, all names differ, globals hold values of their types, and signatures are plain. Declaring a
function keeps that and changes no entry that is there.
-/

namespace SlotIR

/-! ## Types that trees name -/

namespace Syntax

variable {n : Node} {ty : Ty}

theorem primitiveType_ok {name : String} {span : Option Span} (h : primitiveType name span = .ok ty) :
    ty = .void ∨ ty.isArithmetic = true := by
  unfold primitiveType at h
  split at h <;> cases h <;> simp [Ty.isArithmetic]

theorem Node.specifiedType_ok (h : n.specifiedType = .ok ty) :
    ty = .void ∨ ty.isArithmetic = true := by
  unfold Node.specifiedType at h
  split at h
  · cases h
  · exact primitiveType_ok h

theorem paramsOf_ok {ns : List Node} : ∀ {ps : List Param}, paramsOf ns = .ok ps →
    ∀ p ∈ ps, p.ty = .void ∨ p.ty.isArithmetic = true := by
  induction ns with
  | nil =>
    intro ps h
    cases h
    simp
  | cons n ns ih =>
    intro ps h
    unfold paramsOf at h
    cases hty : n.specifiedType with
    | error e => simp [hty, bind, Except.bind] at h
    | ok ty =>
      cases hps : paramsOf ns with
      | error e => simp [hty, hps, bind, Except.bind] at h
      | ok ps' =>
        simp only [hty, hps, bind, Except.bind, pure, Except.pure, Except.ok.injEq] at h
        subst h
        exact List.forall_mem_cons.2 ⟨Node.specifiedType_ok hty, ih hps⟩

theorem mem_of_mem_withoutVoid {ps : List Param} {p : Param} (h : p ∈ withoutVoid ps) : p ∈ ps := by
  unfold withoutVoid at h
  split at h
  · cases h
  · exact h

theorem isArithmetic_of_not_void {declared : List Param}
    (hd : ∀ p ∈ declared, p.ty = .void ∨ p.ty.isArithmetic = true)
    (hv : (withoutVoid declared).find? (·.ty = .void) = none) :
    ∀ p ∈ withoutVoid declared, p.ty.isArithmetic = true := by
  intro p hp
  have hne := List.find?_eq_none.1 hv p hp
  rcases hd p (mem_of_mem_withoutVoid hp) with he | ha
  · simp [he] at hne
  · exact ha

/-- Every parameter of a declarator has a type that variables can have. -/
theorem Node.functionDeclarator_ok {decl : FunctionDeclarator} (h : n.functionDeclarator = .ok decl) :
    ∀ p ∈ decl.params, p.ty.isArithmetic = true := by
  unfold Node.functionDeclarator at h
  split at h
  · cases h
  · cases hl : n.child? .parameterList with
    | none =>
      simp only [hl, bind, Except.bind] at h
      split at h
      · cases h
      · rename_i hv
        cases h
        exact isArithmetic_of_not_void (by simp) hv
    | some list =>
      cases hp : paramsOf list.children with
      | error e => simp [hl, hp, bind, Except.bind] at h
      | ok ps =>
        simp only [hl, hp, bind, Except.bind] at h
        split at h
        · cases h
        · rename_i hv
          cases h
          exact isArithmetic_of_not_void (paramsOf_ok hp) hv

theorem FunctionDeclarator.signature_plain {decl : FunctionDeclarator}
    (hd : ∀ p ∈ decl.params, p.ty.isArithmetic = true) (ht : ty = .void ∨ ty.isArithmetic = true) :
    (decl.signature ty).Plain := by
  refine ⟨fun t htp => ?_, ht.imp id Ty.isScalar_of_isArithmetic⟩
  obtain ⟨p, hp, rfl⟩ := List.mem_map.1 htp
  exact Ty.isScalar_of_isArithmetic (hd p hp)

end Syntax

/-! ## Globals and functions -/

namespace Module

/-- What every module that is being built satisfies. -/
structure Sane (m : Module) : Prop where
  indexed : m.Indexed
  names : (m.globals.map (·.name) ++ m.functions.map (·.name)).Nodup
  globals : ∀ g ∈ m.globals, g.ty.isArithmetic = true ∧ g.init.ty = g.ty
  signatures : ∀ f ∈ m.functions, f.signature.Plain

theorem Sane.functionIndex? {m : Module} (hm : m.Sane) {i : Nat} {f : Function}
    (hf : m.functions[i]? = some f) : m.functionIndex? f.name = some i :=
  (functionIndex?_eq_some_iff hm.indexed (List.nodup_append.1 hm.names).2.1).2 ⟨f, hf, rfl⟩

/-- The module after a function with a name and a signature was declared, and its index. -/
inductive Registers (m : Module) (name : String) (sig : Signature) : Module → Nat → Prop
  | new (hg : m.globalIndex? name = none) (hf : m.functionIndex? name = none)
    (hn : name ∉ m.functions.map (·.name)) :
    Registers m name sig (m.addFunction name sig) m.functions.length
  | known {i : Nat} {f : Function} (hg : m.globalIndex? name = none)
    (hf : m.functionIndex? name = some i) (hi : m.functions[i]? = some f)
    (hs : f.signature = sig) (hn : f.name = name) : Registers m name sig m i

/-- More functions were declared, but nothing else changed. -/
structure Declares (m m' : Module) : Prop where
  name : m'.name = m.name
  globals : m'.globals = m.globals
  functions : ∃ new, m'.functions = m.functions ++ new ∧
    ∀ f ∈ new, f = { name := f.name, signature := f.signature }

namespace Declares

variable {m m' m'' : Module}

theorem refl (m : Module) : m.Declares m :=
  ⟨rfl, rfl, [], by simp, by simp⟩

theorem trans (h : m.Declares m') (h' : m'.Declares m'') : m.Declares m'' := by
  obtain ⟨new, hn, hb⟩ := h.functions
  obtain ⟨new', hn', hb'⟩ := h'.functions
  refine ⟨h'.name.trans h.name, h'.globals.trans h.globals, new ++ new', ?_, ?_⟩
  · rw [hn', hn, List.append_assoc]
  · intro f hf
    rcases List.mem_append.1 hf with hf | hf
    · exact hb f hf
    · exact hb' f hf

theorem getElem? (h : m.Declares m') {i : Nat} {f : Function} (hf : m.functions[i]? = some f) :
    m'.functions[i]? = some f := by
  obtain ⟨new, hn, -⟩ := h.functions
  rw [hn, List.getElem?_append_left (List.getElem?_eq_some_iff.1 hf).1]
  exact hf

theorem grows (h : m.Declares m') : m.Grows m' :=
  ⟨fun hg => h.globals ▸ hg, fun hf => ⟨_, h.getElem? hf, rfl, rfl⟩⟩

end Declares

theorem Registers.declares {m m' : Module} {name : String} {sig : Signature} {i : Nat}
    (h : m.Registers name sig m' i) : m.Declares m' := by
  cases h with
  | new => exact ⟨rfl, rfl, _, rfl, by simp⟩
  | known => exact .refl m

theorem Registers.indexed {m m' : Module} {name : String} {sig : Signature} {i : Nat}
    (hm : m.Indexed) (h : m.Registers name sig m' i) : m'.Indexed := by
  cases h with
  | new => exact hm.addFunction name sig
  | known => exact hm

theorem Registers.sane {m m' : Module} {name : String} {sig : Signature} {i : Nat} (hm : m.Sane)
    (hp : sig.Plain) (h : m.Registers name sig m' i) : m'.Sane := by
  have hindexed := h.indexed hm.indexed
  cases h with
  | known => exact hm
  | new hg hf hn =>
    refine ⟨hindexed, ?_, hm.globals, ?_⟩
    · rw [addFunction, List.map_append, ← List.append_assoc, List.nodup_append]
      refine ⟨hm.names, by simp, ?_⟩
      intro x hx y hy
      simp only [List.map_cons, List.map_nil, List.mem_singleton] at hy
      subst hy
      rintro rfl
      rcases List.mem_append.1 hx with hx | hx
      · exact (globalIndex?_none hm.indexed).1 hg hx
      · exact hn hx
    · intro f hf
      rcases List.mem_append.1 hf with hf | hf
      · exact hm.signatures f hf
      · rw [List.mem_singleton.1 hf]
        exact hp

/-- The function that a name was registered for. -/
theorem Registers.get {m m' : Module} {name : String} {sig : Signature} {i : Nat}
    (h : m.Registers name sig m' i) :
    ∃ f, m'.functions[i]? = some f ∧ f.name = name ∧ f.signature = sig := by
  cases h with
  | new => exact ⟨{ name, signature := sig }, by simp [addFunction], rfl, rfl⟩
  | known hg hf hi hs hn => exact ⟨_, hi, hn, hs⟩

end Module

end SlotIR
