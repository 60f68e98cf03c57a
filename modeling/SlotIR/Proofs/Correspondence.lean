import SlotIR.Proofs.Draft
import SlotIR.Proofs.Soundness
import SlotIR.Proofs.SourceSemantics

/-!
# Variables of trees and of the machine

When a tree is evaluated, every variable that can be seen has a cell; when its code runs, variables
are slots of the frame and globals of the machine. `Match` says that both hold the same. A name that
lowering resolves to an address is resolved to the cell that this address corresponds to, so reading
and writing through either gives the same (`Match.load`, `Match.store`).
-/

namespace SlotIR

open Machine

/-! ## Lists of named entries -/

section entries

variable {α : Type} {l : List (String × α)} {name : String} {i : Nat} {a : α}

theorem lookup_of_nodup (hn : (l.map (·.1)).Nodup) (h : l[i]? = some (name, a)) :
    l.lookup name = some a := by
  induction l generalizing i with
  | nil => cases h
  | cons p l ih =>
    rw [List.map_cons, List.nodup_cons] at hn
    cases i with
    | zero =>
      cases h
      exact List.lookup_cons_self
    | succ i =>
      have hm : name ∈ l.map (·.1) := List.mem_map.2 ⟨_, List.mem_of_getElem? h, rfl⟩
      have hne : (name == p.1) = false := by
        rw [beq_eq_false_iff_ne]
        rintro rfl
        exact hn.1 hm
      rw [List.lookup_cons, hne]
      exact ih hn.2 h

theorem mem_of_lookup (h : l.lookup name = some a) : (name, a) ∈ l := by
  obtain ⟨_, _, e, -⟩ := List.lookup_eq_some_iff.1 h
  simp [e]

theorem assign_of_nodup (hn : (l.map (·.1)).Nodup) (h : l[i]? = some (name, a)) (b : α) :
    Source.assign name b l = l.set i (name, b) := by
  induction l generalizing i with
  | nil => cases h
  | cons p l ih =>
    rw [List.map_cons, List.nodup_cons] at hn
    cases i with
    | zero =>
      cases h
      simp [Source.assign]
    | succ i =>
      have hm : name ∈ l.map (·.1) := List.mem_map.2 ⟨_, List.mem_of_getElem? h, rfl⟩
      have hne : name ≠ p.1 := by
        rintro rfl
        exact hn.1 hm
      rw [Source.assign, if_neg hne, ih hn.2 h, List.set_cons_succ]

end entries

/-! ## Globals -/

/-- The machine has the globals of the source, in order. -/
structure Stored (m : Module) (entries : List (String × Scalar)) (s : Machine) : Prop where
  names : entries.map (·.1) = m.globals.map (·.name)
  values : entries.map (·.2) = s.globals
  typed : s.Typed m

namespace Stored

variable {m : Module} {entries : List (String × Scalar)} {s : Machine} {i : Nat} {g : Global}

theorem entry (h : Stored m entries s) (hg : m.globals[i]? = some g) :
    ∃ v, entries[i]? = some (g.name, v) ∧ s.globals[i]? = some v ∧ v.ty = g.ty := by
  have hlt : i < s.globals.length := by
    rw [h.typed.length]
    exact (List.getElem?_eq_some_iff.1 hg).1
  have hv : s.globals[i]? = some s.globals[i] := List.getElem?_eq_getElem hlt
  have hty : s.globals[i].ty = g.ty := by
    have e := congrArg (·[i]?) h.typed
    simpa [hv, hg] using e
  refine ⟨_, ?_, hv, hty⟩
  have hname : (entries.map (·.1))[i]? = some g.name := by
    rw [h.names, List.getElem?_map, hg]
    rfl
  have hvalue : (entries.map (·.2))[i]? = some s.globals[i] := by
    rw [h.values, hv]
  rw [List.getElem?_map] at hname hvalue
  obtain ⟨p, hp, e⟩ := Option.map_eq_some_iff.1 hname
  obtain ⟨q, hq, e'⟩ := Option.map_eq_some_iff.1 hvalue
  cases hp.symm.trans hq
  rw [hp, ← e, ← e']

theorem nodup (h : Stored m entries s) (hn : (m.globals.map (·.name)).Nodup) :
    (entries.map (·.1)).Nodup := by
  rw [h.names]
  exact hn

theorem write (h : Stored m entries s) (hn : (m.globals.map (·.name)).Nodup)
    (hg : m.globals[i]? = some g) {v : Scalar} (hv : v.ty = g.ty) :
    Stored m (Source.assign g.name v entries) { s with globals := s.globals.set i v } := by
  obtain ⟨old, hold, -, -⟩ := h.entry hg
  rw [assign_of_nodup (h.nodup hn) hold]
  refine ⟨?_, ?_, h.typed.write hg hv⟩
  · rw [List.map_set, ← h.names]
    have hname : (entries.map (·.1))[i]? = some g.name := by
      rw [List.getElem?_map, hold]
      rfl
    obtain ⟨hlt, e⟩ := List.getElem?_eq_some_iff.1 hname
    rw [← e]
    exact List.set_getElem_self hlt
  · rw [List.map_set, h.values]

end Stored

/-- The bindings of names to globals are right in the module. -/
def GlobalsIn (m : Module) (globals : List (String × Value)) : Prop :=
  ∀ {name : String} {v : Value}, globals.lookup name = some v →
    ∃ (i : Nat) (g : Global), v = ⟨.global i, .ptr g.ty⟩ ∧ m.globals[i]? = some g ∧ g.name = name

/-! ## Locals -/

/-- The slot that a name is bound to holds what the cell with this name holds. -/
def CellAt (f : Function) (fr : Frame) (p : String × Value) (q : String × Option Scalar) : Prop :=
  p.1 = q.1 ∧ ∃ (i : Nat) (sl : Slot), p.2 = ⟨.slot i, .ptr sl.ty⟩ ∧ f.slots[i]? = some sl ∧
    fr.slots[i]? = some q.2

section cells

variable {f : Function} {fr fr' : Frame} {locals : List (String × Value)}
  {cells : List (String × Option Scalar)} {name : String} {v : Value}

theorem cells_lookup (h : List.Forall₂ (CellAt f fr) locals cells) (hl : locals.lookup name = some v) :
    ∃ cell, cells.lookup name = some cell ∧ CellAt f fr (name, v) (name, cell) := by
  induction h with
  | nil => cases hl
  | @cons p q locals cells hpq _ ih =>
    rw [List.lookup_cons] at hl ⊢
    rw [← hpq.1]
    cases hb : name == p.1 with
    | true =>
      rw [hb] at hl
      cases hl
      exact ⟨q.2, rfl, rfl, hpq.2⟩
    | false =>
      rw [hb] at hl
      exact ih hl

theorem cells_lookup_none (h : List.Forall₂ (CellAt f fr) locals cells)
    (hl : locals.lookup name = none) : cells.lookup name = none := by
  induction h with
  | nil => rfl
  | @cons p q locals cells hpq _ ih =>
    rw [List.lookup_cons] at hl ⊢
    rw [← hpq.1]
    cases hb : name == p.1 with
    | true =>
      rw [hb] at hl
      cases hl
    | false =>
      rw [hb] at hl
      exact ih hl

/-- Cells only depend on the slots that their names are bound to. -/
theorem cells_congr (h : List.Forall₂ (CellAt f fr) locals cells)
    (hs : ∀ p ∈ locals, ∀ i, p.2.operand = .slot i → fr'.slots[i]? = fr.slots[i]?) :
    List.Forall₂ (CellAt f fr') locals cells := by
  induction h with
  | nil => exact .nil
  | @cons p q locals cells hpq _ ih =>
    obtain ⟨hp, hs⟩ := List.forall_mem_cons.1 hs
    refine .cons ?_ (ih hs)
    obtain ⟨hname, i, sl, hv, hsl, hc⟩ := hpq
    refine ⟨hname, i, sl, hv, hsl, ?_⟩
    rw [hp i (by rw [hv]), hc]

/-- Two names that are bound to the same slot are bound to the same value. -/
theorem cells_operand_inj (h : List.Forall₂ (CellAt f fr) locals cells) {p q : String × Value}
    (hp : p ∈ locals) (hq : q ∈ locals) (he : p.2.operand = q.2.operand) : p.2 = q.2 := by
  have hslot : ∀ r ∈ locals, ∃ (i : Nat) (sl : Slot), r.2 = ⟨.slot i, .ptr sl.ty⟩ ∧
      f.slots[i]? = some sl := by
    intro r hr
    obtain ⟨i, hi, e⟩ := List.mem_iff_getElem.1 hr
    have hc := (List.forall₂_iff_get.1 h).2 i hi (by rw [← h.length_eq]; exact hi)
    obtain ⟨-, j, sl, hv, hsl, -⟩ := hc
    refine ⟨j, sl, ?_, hsl⟩
    rw [← e]
    exact hv
  obtain ⟨i, sl, hv, hsl⟩ := hslot p hp
  obtain ⟨j, sl', hv', hsl'⟩ := hslot q hq
  rw [hv, hv'] at he
  cases he
  cases hsl.symm.trans hsl'
  rw [hv, hv']

/-- A write to the slot of a variable is a write to the innermost cell with its name. -/
theorem cells_write {i : Nat} {ty : Ty} {x : Scalar} (h : List.Forall₂ (CellAt f fr) locals cells)
    (hd : (locals.map (·.2)).Nodup) (hl : locals.lookup name = some ⟨.slot i, .ptr ty⟩)
    (hi : i < fr.slots.length) :
    List.Forall₂ (CellAt f { fr with slots := fr.slots.set i (some x) }) locals
      (Source.assign name (some x) cells) := by
  have hset : ∀ {j : Nat}, j ≠ i → (fr.slots.set i (some x))[j]? = fr.slots[j]? := fun hj =>
    List.getElem?_set_ne (Ne.symm hj)
  induction h with
  | nil => cases hl
  | @cons p q locals cells hpq hrest ih =>
    have hinj := fun r hr => cells_operand_inj (.cons hpq hrest) (p := p) (q := r) List.mem_cons_self
      (List.mem_cons_of_mem p hr)
    rw [List.map_cons, List.nodup_cons] at hd
    have hapart : ∀ r ∈ locals, p.2.operand ≠ r.2.operand := fun r hr e =>
      hd.1 (List.mem_map.2 ⟨r, hr, (hinj r hr e).symm⟩)
    obtain ⟨hname, j, sl, hv, hsl, hc⟩ := hpq
    rw [List.lookup_cons] at hl
    rw [Source.assign]
    by_cases e : name = p.1
    · rw [if_pos (e.trans hname)]
      rw [beq_iff_eq.2 e] at hl
      have hslot := congrArg Value.operand (Option.some.inj hl)
      refine .cons ⟨hname, j, sl, hv, hsl, ?_⟩ (cells_congr hrest fun r hr k hk => hset ?_)
      · rw [hv] at hslot
        cases hslot
        exact List.getElem?_set_self hi
      · rintro rfl
        exact hapart r hr (hslot.trans hk.symm)
    · rw [if_neg (hname ▸ e)]
      rw [beq_false_of_ne e] at hl
      refine .cons ⟨hname, j, sl, hv, hsl, ?_⟩ (ih hd.2 hl)
      rw [← hc]
      apply hset
      rintro rfl
      have hm := mem_of_lookup hl
      exact hapart _ hm (by rw [hv])

end cells

/-! ## States -/

/-- The state of a tree's evaluation and the state of a run of its code, at the place of a draft. Slots
that the draft does not have yet are empty. -/
structure Match (m : Module) (f : Function) (depth : Nat) (d : Draft)
    (locals : List (String × Value)) (σ : Source.State) (fr : Frame) (s : Machine) : Prop where
  depth : s.depth = depth
  globals : Stored m σ.globals s
  frame : fr.Typed f
  cells : List.Forall₂ (CellAt f fr) locals σ.locals
  unused : ∀ i, d.function.slots.length ≤ i → ∀ v, fr.slots[i]? ≠ some (some v)

namespace Match

variable {m : Module} {f : Function} {depth : Nat} {d d' : Draft} {scope : ScopeId}
  {locals globals : List (String × Value)} {σ : Source.State} {fr : Frame} {s : Machine}
  {name : String}

theorem at_later (h : Match m f depth d locals σ fr s)
    (hle : d.function.slots.length ≤ d'.function.slots.length) :
    Match m f depth d' locals σ fr s :=
  { h with unused := fun i hi => h.unused i (Nat.le_trans hle hi) }

theorem slot_unused (h : Match m f depth d locals σ fr s) {i : Nat} {sl : Slot}
    (hi : d.function.slots.length ≤ i) (hsl : f.slots[i]? = some sl) : fr.slots[i]? = some none := by
  have hlt : i < fr.slots.length := by
    rw [h.frame.slots]
    exact (List.getElem?_eq_some_iff.1 hsl).1
  have hu := h.unused i hi
  rw [List.getElem?_eq_getElem hlt] at hu ⊢
  cases hc : fr.slots[i] with
  | none => rfl
  | some v => exact absurd (congrArg some hc) (hu v)

theorem bind_result (h : Match m f depth d locals σ fr s) (result : Option Nat)
    (v : Option Scalar) : Match m f depth d locals σ (fr.bind result v) s := by
  have hslots : (fr.bind result v).slots = fr.slots := by
    unfold Frame.bind
    split <;> rfl
  refine ⟨h.depth, h.globals, typed_bind h.frame result v, ?_, ?_⟩
  · refine cells_congr h.cells fun p hp i hi => ?_
    rw [hslots]
  · rw [hslots]
    exact h.unused

/-- A new variable. -/
theorem declare (h : Match m f depth d locals σ fr s) {v : Value} {cell : Option Scalar}
    (hc : CellAt f fr (name, v) (name, cell)) :
    Match m f depth d ((name, v) :: locals) { σ with locals := (name, cell) :: σ.locals } fr s :=
  { h with cells := .cons hc h.cells }

/-- A write to a slot that no name is bound to. -/
theorem write_unbound (h : Match m f depth d locals σ fr s) {i : Nat} {sl : Slot} {x : Scalar}
    (hsl : f.slots[i]? = some sl) (hx : x.ty = sl.ty) (hlt : i < d.function.slots.length)
    (hi : ∀ p ∈ locals, p.2.operand ≠ .slot i) :
    Match m f depth d locals σ { fr with slots := fr.slots.set i (some x) } s := by
  have hset : ∀ {j : Nat}, j ≠ i → (fr.slots.set i (some x))[j]? = fr.slots[j]? := fun hj =>
    List.getElem?_set_ne (Ne.symm hj)
  refine ⟨h.depth, h.globals, h.frame.write hsl hx, ?_, fun j hj => ?_⟩
  · refine cells_congr h.cells fun p hp j hj => hset ?_
    rintro rfl
    exact hi p hp hj
  · rw [hset (by omega)]
    exact h.unused j hj

theorem load (h : Match m f depth d locals σ fr s) (hs : d.Scoped scope locals globals)
    (hn : (m.globals.map (·.name)).Nodup) (hg : GlobalsIn m globals) {o : Operand} {ty : Ty}
    (hl : d.scopes.lookup? scope name = some ⟨o, .ptr ty⟩) :
    Ends (Source.read f.name name σ)
      (fun x σ' => σ' = σ ∧ Machine.load f fr o s = .ok x s ∧ x.ty = ty)
      (fun e σ' => σ' = σ ∧ e = .failed (.uninitialized f.name) ∧
        ∃ i, Machine.load f fr o s = .error (.error (.uninitializedRead f.name i)) s) := by
  rw [hs.lookup?_eq, List.lookup_append] at hl
  unfold Source.read
  rw [bind_of_ok (get_run σ)]
  cases hloc : locals.lookup name with
  | some v =>
    rw [hloc, Option.some_or] at hl
    cases hl
    obtain ⟨cell, hcell, -, i, sl, hv, hsl, hc⟩ := cells_lookup h.cells hloc
    cases hv
    rw [hcell]
    cases cell with
    | some x => exact ⟨rfl, load_slot hc, h.frame.contents hsl hc⟩
    | none => exact ⟨rfl, rfl, i, load_slot_empty (by simp [hc])⟩
  | none =>
    rw [hloc, Option.none_or] at hl
    obtain ⟨i, g, hv, hgl, rfl⟩ := hg hl
    cases hv
    obtain ⟨x, hx, hsx, hty⟩ := h.globals.entry hgl
    rw [cells_lookup_none h.cells hloc]
    dsimp only
    rw [lookup_of_nodup (h.globals.nodup hn) hx]
    exact ⟨rfl, load_global hsx, hty⟩

theorem store (h : Match m f depth d locals σ fr s) (hs : d.Scoped scope locals globals)
    (hn : (m.globals.map (·.name)).Nodup) (hg : GlobalsIn m globals) {o : Operand} {ty : Ty}
    {x : Scalar} (hx : x.ty = ty) (hl : d.scopes.lookup? scope name = some ⟨o, .ptr ty⟩) :
    ∃ σ' fr' s', Source.write name x σ = .ok () σ' ∧ Machine.store f fr o x s = .ok fr' s' ∧
      Match m f depth d locals σ' fr' s' ∧ fr'.args = fr.args ∧ fr'.temps = fr.temps := by
  rw [hs.lookup?_eq, List.lookup_append] at hl
  unfold Source.write
  rw [bind_of_ok (get_run σ)]
  cases hloc : locals.lookup name with
  | some v =>
    rw [hloc, Option.some_or] at hl
    cases hl
    obtain ⟨cell, hcell, -, i, sl, hv, hsl, hc⟩ := cells_lookup h.cells hloc
    cases hv
    have hi : i < fr.slots.length := (List.getElem?_eq_some_iff.1 hc).1
    have hown : i < d.function.slots.length := by
      obtain ⟨j, sl', hv, hj⟩ := hs.slots _ (mem_of_lookup hloc)
      cases congrArg Value.operand hv
      exact (List.getElem?_eq_some_iff.1 hj).1
    rw [if_pos (by simp [hcell])]
    refine ⟨_, _, _, set_run _ _, store_slot hi, ?_, rfl, rfl⟩
    refine ⟨h.depth, h.globals, h.frame.write hsl hx, cells_write h.cells hs.distinct hloc hi, ?_⟩
    intro j hj
    show ∀ v, (fr.slots.set i (some x))[j]? ≠ some (some v)
    rw [List.getElem?_set_ne (by omega)]
    exact h.unused j hj
  | none =>
    rw [hloc, Option.none_or] at hl
    obtain ⟨i, g, hv, hgl, rfl⟩ := hg hl
    cases hv
    obtain ⟨old, hold, hsold, -⟩ := h.globals.entry hgl
    have hi : i < s.globals.length := (List.getElem?_eq_some_iff.1 hsold).1
    rw [if_neg (by simp [cells_lookup_none h.cells hloc]),
      if_pos (by simp [lookup_of_nodup (h.globals.nodup hn) hold])]
    refine ⟨_, _, _, set_run _ _, store_global hi, ?_, rfl, rfl⟩
    exact ⟨h.depth, h.globals.write hn hgl hx, h.frame, h.cells, h.unused⟩

end Match

end SlotIR
