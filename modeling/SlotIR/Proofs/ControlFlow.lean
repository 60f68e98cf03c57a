import SlotIR.Proofs.Flow
import SlotIR.Proofs.Layout

/-!
# Control flow of bodies under construction

Most steps of building leave the edges of a body as they are (`Function.KeepsFlow`); the others add
edges from one block to blocks that nothing leads out of (`Function.Joins`). For both it is known which
blocks are entered and reached afterwards. What the end of a draft looks like, `Draft.flow`, and whether
control comes to it, `Draft.Arrives`, then follow from step to step.
-/

namespace SlotIR

namespace Function

variable {f f' f'' : Function} {i j c cur : Nat} {pend targets : List Nat}

/-! ## Edges -/

/-- Control can come to a block from the entry of the body. -/
def Reachable (f : Function) (j : Nat) : Prop :=
  ∃ e, f.entry? = some e ∧ Relation.ReflTransGen f.Edge e j

theorem entered_iff : f.Entered j ↔ f.entry? = some j ∨ ∃ i, f.Edge i j := Iff.rfl

theorem Reachable.entered (h : f.Reachable j) : f.Entered j := by
  obtain ⟨e, he, hp⟩ := h
  rcases Relation.ReflTransGen.cases_tail hp with rfl | ⟨i, -, hij⟩
  · exact .inl he
  · exact .inr ⟨i, hij⟩

instance (f : Function) : DecidablePred f.Entered := fun j =>
  decidable_of_iff (f.entry? = some j ∨ ∃ i ∈ f.layout, (f.blocks[i]?).any (goesTo · j) = true)
    (by simp [Entered, Option.any_eq_true])

/-- How a block ends, if it does. -/
def terminatorAt (f : Function) (i : Nat) : Option Terminator :=
  (f.blocks[i]?).bind (·.terminator)

theorem edge_iff : f.Edge i j ↔ i ∈ f.layout ∧ ∃ t, f.terminatorAt i = some t ∧ j ∈ t.successors := by
  unfold Edge terminatorAt
  refine and_congr_right fun _ => ?_
  cases f.blocks[i]? with
  | none => simp
  | some b => cases ht : b.terminator <;> simp [goesTo, ht]

theorem terminatorAt_of_open (h : f.closedAt i = false) : f.terminatorAt i = none := by
  unfold closedAt at h
  unfold terminatorAt
  cases hb : f.blocks[i]? with
  | none => rfl
  | some b =>
    simp only [hb] at h
    simpa using h

theorem not_edge_of_open (h : f.closedAt i = false) : ¬ f.Edge i j := by
  rw [edge_iff, terminatorAt_of_open h]
  simp

namespace Shape

theorem edge_lt (h : f.Shape cur pend) (he : f.Edge i j) : j < f.blocks.length := by
  obtain ⟨hi, b, hb, hg⟩ := he
  exact h.mem_iff.1 (h.forward i hi b hb j hg).1

theorem entered_lt (h : f.Shape cur pend) (he : f.Entered j) : j < f.blocks.length := by
  rcases entered_iff.1 he with he | ⟨i, hij⟩
  · exact h.lt_of_layout (List.mem_of_mem_head? he)
  · exact h.edge_lt hij

theorem waiting_open (h : f.Shape cur pend) (hi : i ∈ pend) : f.closedAt i = false := by
  obtain ⟨name, hb⟩ := h.waiting i hi
  exact closedAt_of_some hb

end Shape

/-! ## Steps that keep the edges -/

/-- Control goes the same ways as before. -/
structure KeepsFlow (f f' : Function) : Prop where
  entry : f'.entry? = f.entry?
  edge : f'.Edge = f.Edge

namespace KeepsFlow

theorem refl (f : Function) : f.KeepsFlow f := ⟨rfl, rfl⟩

theorem trans (h : f.KeepsFlow f') (h' : f'.KeepsFlow f'') : f.KeepsFlow f'' :=
  ⟨h'.entry.trans h.entry, h'.edge.trans h.edge⟩

theorem entered (h : f.KeepsFlow f') : f'.Entered j ↔ f.Entered j := by
  rw [entered_iff, entered_iff, h.entry, h.edge]

theorem reachable (h : f.KeepsFlow f') : f'.Reachable j ↔ f.Reachable j := by
  rw [Reachable, Reachable, h.entry, h.edge]

theorem of_terminators (hl : f'.layout = f.layout)
    (ht : ∀ i ∈ f.layout, f'.terminatorAt i = f.terminatorAt i) : f.KeepsFlow f' := by
  refine ⟨congrArg List.head? hl, funext fun i => funext fun j => propext ?_⟩
  rw [edge_iff, edge_iff, hl]
  exact and_congr_right fun hi => by rw [ht i hi]

theorem emit (f : Function) (i : Nat) (ty : Ty) (a : Action) : f.KeepsFlow (f.emit i ty a) := by
  refine .of_terminators rfl fun j _ => ?_
  unfold terminatorAt
  by_cases h : j = i
  · subst h
    cases hb : f.blocks[j]? with
    | none => simp [Function.emit, hb]
    | some b => rw [getElem?_emit_self hb, Option.bind_some, Option.bind_some]
  · rw [getElem?_emit_of_ne h]

theorem addBlock (h : f.Shape cur pend) (name : String) : f.KeepsFlow (f.addBlock name) := by
  refine .of_terminators rfl fun i hi => ?_
  rw [terminatorAt, getElem?_addBlock_of_lt (h.lt_of_layout hi), terminatorAt]

/-- A block that waits leads nowhere when it is laid out. -/
theorem place (h : f.Shape cur pend) (hi : i ∈ pend) : f.KeepsFlow (f.place i) := by
  have hlayout : (f.place i).layout = f.layout ++ [i] := rfl
  refine ⟨?_, funext fun a => funext fun b => propext ?_⟩
  · have he : f.layout.head? = some 0 := h.entry
    show (f.layout ++ [i]).head? = f.layout.head?
    rw [List.head?_append, he]
    rfl
  · by_cases ha : a = i
    · subst ha
      exact iff_of_false (not_edge_of_open (f := f.place a) (h.waiting_open hi))
        (not_edge_of_open (h.waiting_open hi))
    · rw [edge_iff, edge_iff, hlayout, List.mem_append, List.mem_singleton, or_iff_left ha]
      rfl

end KeepsFlow

/-! ## Steps that add edges -/

/-- Control can go from the block `c` to the targets now, and otherwise the same ways as before. -/
structure Joins (c : Nat) (targets : List Nat) (f f' : Function) : Prop where
  entry : f'.entry? = f.entry?
  edge : ∀ i j, f'.Edge i j ↔ f.Edge i j ∨ i = c ∧ j ∈ targets

namespace Joins

theorem close (ho : f.closedAt c = false) (hc : c ∈ f.layout) (hlt : c < f.blocks.length)
    (t : Terminator) : f.Joins c t.successors (f.close c t) := by
  refine ⟨rfl, fun i j => ?_⟩
  have hlayout : (f.close c t).layout = f.layout := rfl
  by_cases hi : i = c
  · subst hi
    have ht : (f.close i t).terminatorAt i = some t := by
      rw [terminatorAt, getElem?_close_self (List.getElem?_eq_getElem hlt)]
      rfl
    rw [edge_iff, ht, hlayout]
    simp [hc, not_edge_of_open ho]
  · have ht : (f.close c t).terminatorAt i = f.terminatorAt i := by
      rw [terminatorAt, getElem?_close_of_ne hi, terminatorAt]
    rw [edge_iff, edge_iff, ht, hlayout]
    simp [hi]

theorem after (h : f.KeepsFlow f') (h' : f'.Joins c targets f'') : f.Joins c targets f'' :=
  ⟨h'.entry.trans h.entry, h.edge ▸ h'.edge⟩

theorem before (h : f.Joins c targets f') (h' : f'.KeepsFlow f'') : f.Joins c targets f'' :=
  ⟨h'.entry.trans h.entry, h'.edge ▸ h.edge⟩

theorem keepsFlow (h : f.Joins c [] f') : f.KeepsFlow f' := by
  refine ⟨h.entry, funext fun i => funext fun j => propext ?_⟩
  simp [h.edge]

theorem entered (h : f.Joins c targets f') : f'.Entered j ↔ f.Entered j ∨ j ∈ targets := by
  simp only [entered_iff, h.entry, h.edge, exists_or, exists_eq_left, or_assoc]

/-- A path that goes over a new edge ends there, as nothing leads out of the targets. -/
theorem reachable (h : f.Joins c targets f') (hdead : ∀ i ∈ targets, ∀ j, ¬ f'.Edge i j) :
    f'.Reachable j ↔ f.Reachable j ∨ j ∈ targets ∧ f.Reachable c := by
  have hmono : ∀ {e j : Nat}, Relation.ReflTransGen f.Edge e j → Relation.ReflTransGen f'.Edge e j :=
    fun hp => Relation.ReflTransGen.mono (fun i j hij => (h.edge i j).2 (.inl hij)) _ _ hp
  rw [Reachable, h.entry]
  constructor
  · rintro ⟨e, he, hp⟩
    induction hp with
    | refl => exact .inl ⟨e, he, .refl⟩
    | @tail i j _ hij ih =>
      rcases ih with ⟨e', he', hp⟩ | ⟨hi, -⟩
      · rcases (h.edge i j).1 hij with hij | ⟨rfl, hj⟩
        · exact .inl ⟨e', he', hp.tail hij⟩
        · exact .inr ⟨hj, e', he', hp⟩
      · exact absurd hij (hdead i hi j)
  · rintro (⟨e, he, hp⟩ | ⟨hj, e, he, hp⟩)
    · exact ⟨e, he, hmono hp⟩
    · exact ⟨e, he, (hmono hp).tail ((h.edge c j).2 (.inr ⟨rfl, hj⟩))⟩

end Joins

/-! ## Code that is added -/

theorem Extends.length_le (h : f.Extends f') : f.blocks.length ≤ f'.blocks.length := by
  by_contra hlt
  obtain ⟨b, hb, -⟩ := h.blocks f'.blocks.length _ (List.getElem?_eq_getElem (by omega))
  exact Nat.lt_irrefl _ (List.getElem?_eq_some_iff.1 hb).1

/-- Code was added, and nothing leads from it to the blocks that were there. -/
structure Grafts (f f' : Function) : Prop where
  length : f.blocks.length ≤ f'.blocks.length
  entered : ∀ j < f.blocks.length, f'.Entered j ↔ f.Entered j
  reachable : ∀ j < f.blocks.length, f'.Reachable j ↔ f.Reachable j

namespace Grafts

theorem refl (f : Function) : f.Grafts f := ⟨Nat.le_refl _, fun _ _ => Iff.rfl, fun _ _ => Iff.rfl⟩

theorem trans (h : f.Grafts f') (h' : f'.Grafts f'') : f.Grafts f'' where
  length := Nat.le_trans h.length h'.length
  entered j hj := (h'.entered j (Nat.lt_of_lt_of_le hj h.length)).trans (h.entered j hj)
  reachable j hj := (h'.reachable j (Nat.lt_of_lt_of_le hj h.length)).trans (h.reachable j hj)

end Grafts

theorem KeepsFlow.grafts (h : f.KeepsFlow f') (he : f.Extends f') : f.Grafts f' :=
  ⟨he.length_le, fun _ _ => h.entered, fun _ _ => h.reachable⟩

end Function

/-! ## Drafts -/

namespace Draft

variable {d : Draft} {k j : Nat} {pend : List Nat} {ty : Ty} {a : Action} {t : Terminator}

/-- What the end of a draft looks like. -/
def flow (d : Draft) : Source.Flow :=
  if d.function.closedAt d.block = true then .term
  else if d.function.Entered d.block then .live
  else .dead

/-- Control comes to the end of a draft. -/
def Arrives (d : Draft) : Prop :=
  d.function.closedAt d.block = false ∧ d.function.Reachable d.block

theorem flow_of_closed (h : d.function.closedAt d.block = true) : d.flow = .term :=
  if_pos h

theorem flow_of_open (h : d.function.closedAt d.block = false) :
    d.flow = if d.function.Entered d.block then .live else .dead :=
  if_neg (by simp [h])

theorem flow_of_live (h : d.function.closedAt d.block = false) (he : d.function.Entered d.block) :
    d.flow = .live :=
  (flow_of_open h).trans (if_pos he)

theorem flow_of_dead (h : d.function.closedAt d.block = false) (he : ¬ d.function.Entered d.block) :
    d.flow = .dead :=
  (flow_of_open h).trans (if_neg he)

theorem flow_ne_term : d.flow ≠ .term ↔ d.function.closedAt d.block = false := by
  cases hc : d.function.closedAt d.block with
  | true => simp [flow_of_closed hc]
  | false =>
    rw [flow_of_open hc]
    split <;> simp

theorem not_arrives_of_closed (h : d.function.closedAt d.block = true) : ¬ d.Arrives := by
  rintro ⟨ho, -⟩
  rw [h] at ho
  cases ho

namespace Inv

theorem keepsFlow_reopen (h : d.Inv k pend) : d.function.KeepsFlow d.reopen.function := by
  cases hc : d.function.closedAt d.block with
  | false =>
    rw [reopen_of_open hc]
    exact .refl _
  | true =>
    rw [reopen_of_closed hc]
    exact (Function.KeepsFlow.addBlock h.shape "dead").trans
      (.place (h.shape.addBlock "dead") List.mem_cons_self)

/-- Nothing leads to the block that is opened behind a terminator. -/
theorem not_entered_reopen (h : d.Inv k pend) (hc : d.function.closedAt d.block = true) :
    ¬ d.function.Entered d.reopen.block := by
  rw [reopen_of_closed hc]
  exact fun he => Nat.lt_irrefl _ (h.shape.entered_lt he)

theorem keepsFlow_emit (h : d.Inv k pend) : d.function.KeepsFlow (d.emit ty a).function :=
  h.keepsFlow_reopen.trans (.emit _ _ _ _)

theorem flow_emit (h : d.Inv k pend) : (d.emit ty a).flow = d.flow.emit := by
  have hent : (d.emit ty a).function.Entered (d.emit ty a).block ↔
      d.function.Entered d.reopen.block := h.keepsFlow_emit.entered
  rw [flow_of_open emit_open, if_congr hent rfl rfl]
  cases hc : d.function.closedAt d.block with
  | true =>
    rw [flow_of_closed hc, if_neg (h.not_entered_reopen hc)]
    rfl
  | false =>
    rw [flow_of_open hc, reopen_of_open hc]
    split <;> rfl

theorem arrives_emit (h : d.Inv k pend) : (d.emit ty a).Arrives ↔ d.Arrives := by
  have hreach : (d.emit ty a).function.Reachable (d.emit ty a).block ↔
      d.function.Reachable d.reopen.block := h.keepsFlow_emit.reachable
  rw [Arrives, and_iff_right emit_open, hreach]
  cases hc : d.function.closedAt d.block with
  | true =>
    exact iff_of_false (fun hr => h.not_entered_reopen hc hr.entered) (not_arrives_of_closed hc)
  | false => rw [Arrives, and_iff_right hc, reopen_of_open hc]

theorem joins_close (h : d.Inv k pend) :
    d.function.Joins d.reopen.block t.successors (d.close t).function :=
  .after h.keepsFlow_reopen
    (.close d.reopen_open h.reopen.shape.cur_mem (h.reopen.shape.lt_of_layout h.reopen.shape.cur_mem) t)

theorem keepsFlow_close (h : d.Inv k pend) (ht : t.successors = []) :
    d.function.KeepsFlow (d.close t).function := by
  have hj := h.joins_close (t := t)
  rw [ht] at hj
  exact hj.keepsFlow

/-! ### Blocks that wait -/

theorem keepsFlow_moveTo (h : d.Inv k pend) (hj : j ∈ pend) :
    d.function.KeepsFlow (d.moveTo j).function :=
  .place h.shape hj

theorem moveTo_open (h : d.Inv k pend) (hj : j ∈ pend) :
    (d.moveTo j).function.closedAt (d.moveTo j).block = false :=
  h.shape.waiting_open hj

theorem flow_moveTo (h : d.Inv k pend) (hj : j ∈ pend) :
    (d.moveTo j).flow = if d.function.Entered j then .live else .dead := by
  rw [flow_of_open (h.moveTo_open hj)]
  exact if_congr (h.keepsFlow_moveTo hj).entered rfl rfl

theorem arrives_moveTo (h : d.Inv k pend) (hj : j ∈ pend) :
    (d.moveTo j).Arrives ↔ d.function.Reachable j := by
  rw [Arrives, and_iff_right (h.moveTo_open hj)]
  exact (h.keepsFlow_moveTo hj).reachable

/-- An open block that ends in a jump is the only new way to the target. -/
theorem joins_fallThrough (h : d.Inv k pend) (target : Nat)
    (ho : d.function.closedAt d.block = false) :
    d.function.Joins d.block [target] (d.fallThrough target).function := by
  have hj := h.joins_close (t := .jump target)
  rw [reopen_of_open ho] at hj
  rw [Draft.fallThrough, if_neg (by simp [ho])]
  exact hj

theorem entered_fallThrough (h : d.Inv k pend) (target : Nat) :
    (d.fallThrough target).function.Entered j ↔
      d.function.Entered j ∨ j = target ∧ d.flow ≠ .term := by
  cases hc : d.function.closedAt d.block with
  | true => simp [Draft.fallThrough, hc, flow_of_closed hc]
  | false =>
    rw [(h.joins_fallThrough target hc).entered, List.mem_singleton,
      and_iff_left (flow_ne_term.2 hc)]

theorem reachable_fallThrough (h : d.Inv k pend) {target : Nat} (ht : target ∈ pend) :
    (d.fallThrough target).function.Reachable j ↔
      d.function.Reachable j ∨ j = target ∧ d.Arrives := by
  cases hc : d.function.closedAt d.block with
  | true => simp [Draft.fallThrough, hc, not_arrives_of_closed hc]
  | false =>
    have hopen := (h.fallThrough ht).1.shape.waiting_open ht
    rw [(h.joins_fallThrough target hc).reachable, List.mem_singleton, Arrives, and_iff_right hc]
    intro i hi j
    rw [List.mem_singleton.1 hi]
    exact Function.not_edge_of_open hopen

/-! ### Branches -/

theorem keepsFlow_addBlocks (names : List String) : ∀ {d : Draft} {pend : List Nat}, d.Inv k pend →
    d.function.KeepsFlow (d.addBlocks names).function := by
  induction names with
  | nil =>
    intro d pend _
    exact .refl _
  | cons name names ih =>
    intro d pend h
    exact (Function.KeepsFlow.addBlock h.shape name).trans (ih (h.addBlock name))

section fork

variable {cond : Operand} {names : List String} (h : d.Inv k pend)
  (ho : d.function.closedAt d.block = false)
  (hc : d.module.Uses d.function d.defined cond .bool) (hn : names ≠ [])

include h ho hc hn

theorem joins_fork : d.function.Joins d.block [d.function.blocks.length, d.function.blocks.length + 1]
    (d.fork cond names).function := by
  have hj := (h.addBlocks ("then" :: names)).joins_close
    (t := .branch cond d.function.blocks.length (d.function.blocks.length + 1))
  rw [reopen_of_open (addBlocks_open ho)] at hj
  exact (Function.Joins.after (h.keepsFlow_addBlocks _) hj).before
    (.place (h.branch ho hc hn).shape List.mem_cons_self)

theorem fork_open : (d.fork cond names).function.closedAt (d.fork cond names).block = false :=
  (h.branch ho hc hn).moveTo_open List.mem_cons_self

theorem entered_fork : (d.fork cond names).function.Entered j ↔ d.function.Entered j ∨
    j = d.function.blocks.length ∨ j = d.function.blocks.length + 1 := by
  rw [(h.joins_fork ho hc hn).entered, List.mem_pair]

theorem reachable_fork : (d.fork cond names).function.Reachable j ↔ d.function.Reachable j ∨
    (j = d.function.blocks.length ∨ j = d.function.blocks.length + 1) ∧
      d.function.Reachable d.block := by
  rw [(h.joins_fork ho hc hn).reachable, List.mem_pair]
  intro i hi j
  have hpos : 0 < names.length := List.length_pos_iff.2 hn
  refine Function.not_edge_of_open ((h.branch ho hc hn).shape.waiting_open (i := i) ?_)
  rw [List.mem_pair] at hi
  simp only [List.mem_cons, List.mem_append, List.mem_range'_1]
  omega

end fork

end Inv

end Draft

end SlotIR
