import SlotIR.Proofs.Allocation
import SlotIR.Proofs.Filling
import SlotIR.Proofs.Preservation

/-!
# Initialization of variables

While a body is built, the slots that are surely filled at the cursor only become more, and every
visible variable is in one of them unless it was declared without an initializer (`Draft.Tracks`).
Both arms of a conditional start with the slots that were filled at the branch, and so does the
block behind them; code behind a `return` is never entered and may assume anything. At the end this
is a flow of the whole body, and so the only variables that a run of generated code can find empty
are those that were declared without an initializer.
-/

namespace SlotIR

open Syntax (Node)

/-! ## Flows of growing functions -/

/-- States the slots in `rest` of all blocks from the one with index `n` on. -/
def inflowFrom (n : Nat) (rest : Set Nat) (inflow : Nat → Set Nat) (i : Nat) : Set Nat :=
  if i < n then inflow i else rest

theorem inflowFrom_of_lt {n i : Nat} (h : i < n) (rest : Set Nat) (inflow : Nat → Set Nat) :
    inflowFrom n rest inflow i = inflow i :=
  if_pos h

theorem inflowFrom_of_le {n i : Nat} (h : n ≤ i) (rest : Set Nat) (inflow : Nat → Set Nat) :
    inflowFrom n rest inflow i = rest :=
  if_neg (Nat.not_lt.2 h)

namespace Function.Flow

variable {f : Function} {bare : Set Nat} {inflow : Nat → Set Nat}

/-- What is stated of blocks that do not exist yet does not matter. -/
theorem congr (h : f.Flow bare inflow) {inflow' : Nat → Set Nat}
    (he : ∀ i < f.blocks.length, inflow' i = inflow i) {cur : Nat} {pend : List Nat}
    (hs : f.Shape cur pend) : f.Flow bare inflow' := by
  have hlt : ∀ {i : Nat} {b : Block}, f.blocks[i]? = some b → i < f.blocks.length := fun hb =>
    (List.getElem?_eq_some_iff.1 hb).1
  refine ⟨fun i b hb => ?_, fun i b hb j hj => ?_⟩
  · rw [he i (hlt hb)]
    exact h.reads i b hb
  · have hjlt : j < f.blocks.length := by
      rcases List.mem_append.1 (hs.mem_iff.2 (hlt hb)) with hi | hi
      · exact hs.mem_iff.1 (hs.forward i hi b hb j hj).1
      · obtain ⟨name, hn⟩ := hs.waiting i hi
        cases hb.symm.trans hn
        rw [goesTo_of_open rfl] at hj
        cases hj
    rw [he i (hlt hb), he j hjlt]
    exact h.passes i b hb j hj

theorem addBlock (h : f.Flow bare inflow) (name : String) : (f.addBlock name).Flow bare inflow := by
  refine ⟨fun i b hb => ?_, fun i b hb j hj => ?_⟩
  · rcases getElem?_addBlock hb with hb | ⟨-, rfl⟩
    · exact h.reads i b hb
    · trivial
  · rcases getElem?_addBlock hb with hb | ⟨-, rfl⟩
    · exact h.passes i b hb j hj
    · rw [goesTo_of_open rfl] at hj
      cases hj

theorem addBlocks (names : List String) : ∀ {f : Function}, f.Flow bare inflow →
    (names.foldl Function.addBlock f).Flow bare inflow := by
  induction names with
  | nil =>
    intro f h
    exact h
  | cons name names ih =>
    intro f h
    exact ih (h.addBlock name)

theorem emit (h : f.Flow bare inflow) {i : Nat} {ty : Ty} {a : Action}
    (hr : ∀ b, f.blocks[i]? = some b → ∀ k, (f.nextInst ty a).reads? = some k →
      k ∈ inflow i ∪ fillsOf b.insts ∪ bare) : (f.emit i ty a).Flow bare inflow := by
  have hold : ∀ {j : Nat} {b : Block}, (f.emit i ty a).blocks[j]? = some b → ∃ c,
      f.blocks[j]? = some c ∧
        (b = c ∨ j = i ∧ b = { c with insts := c.insts ++ [f.nextInst ty a] }) := by
    intro j b hb
    by_cases hj : j = i
    · subst hj
      cases hc : f.blocks[j]? with
      | none => simp [Function.emit, hc] at hb
      | some c =>
        rw [getElem?_emit_self hc] at hb
        exact ⟨c, rfl, .inr ⟨rfl, (Option.some.inj hb).symm⟩⟩
    · rw [getElem?_emit_of_ne hj] at hb
      exact ⟨b, hb, .inl rfl⟩
  refine ⟨fun j b hb => ?_, fun j b hb l hl => ?_⟩
  · obtain ⟨c, hc, rfl | ⟨rfl, rfl⟩⟩ := hold hb
    · exact h.reads j _ hc
    · exact readsFilled_concat.2 ⟨h.reads j c hc, hr c hc⟩
  · obtain ⟨c, hc, rfl | ⟨rfl, rfl⟩⟩ := hold hb
    · exact h.passes j _ hc l hl
    · refine (h.passes j c hc l hl).trans (Set.union_subset_union_right _ ?_)
      rw [fillsOf_append]
      exact Set.subset_union_left

theorem close (h : f.Flow bare inflow) {i : Nat} {t : Terminator}
    (ht : ∀ b, f.blocks[i]? = some b → ∀ j ∈ t.successors, inflow j ⊆ inflow i ∪ fillsOf b.insts) :
    (f.close i t).Flow bare inflow := by
  have hold : ∀ {j : Nat} {b : Block}, (f.close i t).blocks[j]? = some b → ∃ c,
      f.blocks[j]? = some c ∧ (b = c ∨ j = i ∧ b = { c with terminator := some t }) := by
    intro j b hb
    by_cases hj : j = i
    · subst hj
      cases hc : f.blocks[j]? with
      | none => simp [Function.close, hc] at hb
      | some c =>
        rw [getElem?_close_self hc] at hb
        exact ⟨c, rfl, .inr ⟨rfl, (Option.some.inj hb).symm⟩⟩
    · rw [getElem?_close_of_ne hj] at hb
      exact ⟨b, hb, .inl rfl⟩
  refine ⟨fun j b hb => ?_, fun j b hb l hl => ?_⟩
  · obtain ⟨c, hc, rfl | ⟨rfl, rfl⟩⟩ := hold hb
    · exact h.reads j _ hc
    · exact h.reads j c hc
  · obtain ⟨c, hc, rfl | ⟨rfl, rfl⟩⟩ := hold hb
    · exact h.passes j _ hc l hl
    · exact ht c hc l ((goesTo_iff rfl).1 hl)

end Function.Flow

/-! ## Filled slots at the cursor -/

/-- The slots in `now` are filled at the cursor, and each visible variable of the function is in one
of them or in one of `bare`. -/
structure Draft.Tracks (bare : Set Nat) (inflow : Nat → Set Nat) (now : Set Nat)
    (d : Draft) : Prop where
  flow : d.function.Flow bare inflow
  here : d.function.closedAt d.block = false → ∀ b, d.function.blocks[d.block]? = some b →
    now ⊆ inflow d.block ∪ fillsOf b.insts
  known : ∀ p ∈ bindingsOf d.scopes.live, ∀ k, p.2.operand = .slot k → k ∈ now ∪ bare

/-- From one draft to a later one: what was stated of blocks stays, and filled slots stay filled. -/
structure Draft.Advances (bare : Set Nat) (inflow : Nat → Set Nat) (now : Set Nat) (d : Draft)
    (inflow' : Nat → Set Nat) (now' : Set Nat) (d' : Draft) : Prop where
  tracks : d'.Tracks bare inflow' now'
  kept : ∀ i < d.function.blocks.length, inflow' i = inflow i
  grows : now ⊆ now'
  blocks : d.function.blocks.length ≤ d'.function.blocks.length

namespace Draft

variable {d d' : Draft} {k : Nat} {pend : List Nat} {bare : Set Nat}
  {inflow inflow' : Nat → Set Nat}
  {now now' : Set Nat}

theorem Advances.refl (h : d.Tracks bare inflow now) : Advances bare inflow now d inflow now d :=
  ⟨h, fun _ _ => rfl, subset_rfl, Nat.le_refl _⟩

theorem Advances.trans {d'' : Draft} {inflow'' : Nat → Set Nat} {now'' : Set Nat}
    (h : Advances bare inflow now d inflow' now' d')
    (h' : Advances bare inflow' now' d' inflow'' now'' d'') :
    Advances bare inflow now d inflow'' now'' d'' where
  tracks := h'.tracks
  kept i hi := (h'.kept i (Nat.lt_of_lt_of_le hi h.blocks)).trans (h.kept i hi)
  grows := h.grows.trans h'.grows
  blocks := Nat.le_trans h.blocks h'.blocks

namespace Tracks

/-- Instructions and blocks are all that counts, besides the bindings. -/
theorem of_eq (h : d.Tracks bare inflow now) (hb : d'.function.blocks = d.function.blocks)
    (hc : d'.block = d.block)
    (hk : ∀ p ∈ bindingsOf d'.scopes.live, ∀ k, p.2.operand = .slot k → k ∈ now ∪ bare) :
    d'.Tracks bare inflow now := by
  refine ⟨⟨fun i b => ?_, fun i b => ?_⟩, ?_, hk⟩
  · rw [hb]
    exact h.flow.reads i b
  · rw [hb]
    exact h.flow.passes i b
  · unfold Function.closedAt
    rw [hb, hc]
    exact h.here

theorem lookup {scope : ScopeId} {locals globals : List (String × Value)}
    (h : d.Tracks bare inflow now)
    (hs : d.Scoped scope locals globals) {name : String} {v : Value}
    (hl : d.scopes.lookup? scope name = some v) {k : Nat} (hv : v.operand = .slot k) :
    k ∈ now ∪ bare := by
  rw [hs.lookup?_eq, ← hs.bindings] at hl
  exact h.known _ (mem_of_lookup hl) k hv

theorem addSlot (h : d.Tracks bare inflow now) (s : Slot) : (d.addSlot s).Tracks bare inflow now :=
  h.of_eq rfl rfl h.known

/-- A name is bound to a slot that is filled or need not be. -/
theorem bind {scope : ScopeId} {locals globals : List (String × Value)}
    (h : d.Tracks bare inflow now)
    (hs : d.Scoped scope locals globals) {name : String} {v : Value} {c : ScopeChain}
    (hd : d.scopes.define? scope name v = some c) (hv : ∀ k, v.operand = .slot k → k ∈ now ∪ bare) :
    { d with scopes := c }.Tracks bare inflow now := by
  obtain ⟨s, outer, hn⟩ := hs.nested
  refine h.of_eq rfl rfl ?_
  rw [hn.bindings_define hd]
  exact List.forall_mem_cons.2 ⟨hv, h.known⟩

/-- The block that a `return` leaves behind is not entered. -/
theorem reopen (h : d.Tracks bare inflow now) (hi : d.Inv k pend) :
    ∃ inflow', Advances bare inflow now d inflow' now d.reopen := by
  cases hc : d.function.closedAt d.block with
  | false =>
    rw [reopen_of_open hc]
    exact ⟨inflow, .refl h⟩
  | true =>
    have hkept : ∀ i < d.function.blocks.length,
        inflowFrom d.function.blocks.length Set.univ inflow i = inflow i :=
      fun i hi => inflowFrom_of_lt hi _ _
    rw [reopen_of_closed hc]
    refine ⟨_, ⟨?_, ?_, h.known⟩, hkept, subset_rfl,
      by simp [moveTo, Function.place, Function.addBlock]⟩
    · have hflow := (h.flow.congr hkept hi.shape).addBlock "dead"
      exact ⟨hflow.reads, hflow.passes⟩
    · intro _ b _
      show now ⊆ inflowFrom _ _ _ d.function.blocks.length ∪ _
      rw [inflowFrom_of_le (Nat.le_refl _), Set.univ_union]
      exact Set.subset_univ now

theorem emit (h : d.Tracks bare inflow now) (hi : d.Inv k pend) (ty : Ty) {a : Action}
    (hr : ∀ j, a = .load (.slot j) → j ∈ now ∪ bare) :
    ∃ inflow', Advances bare inflow now d inflow' (now ∪ {j | ∃ v, a = .store (.slot j) v})
      (d.emit ty a) := by
  obtain ⟨inflow', ha⟩ := h.reopen hi
  obtain ⟨b, hb⟩ := hi.reopen.shape.cur_block
  have hhere := ha.tracks.here d.reopen_open b hb
  refine ⟨inflow', ⟨?_, fun _ c hc => ?_, fun p hp j hj => ?_⟩, ha.kept, Set.subset_union_left, ?_⟩
  · refine ha.tracks.flow.emit fun c hc j hj => ?_
    cases hb.symm.trans hc
    exact Set.union_subset_union_left bare hhere (hr j (Inst.reads?_eq_some.1 hj))
  · cases (Function.getElem?_emit_self hb).symm.trans hc
    show _ ⊆ inflow' d.reopen.block ∪ fillsOf (b.insts ++ [_])
    rw [fillsOf_append, ← Set.union_assoc]
    exact Set.union_subset_union hhere fun j hj => mem_fillsOf_singleton.2 hj
  · exact Set.union_subset_union_left bare Set.subset_union_left (ha.tracks.known p hp j hj)
  · refine ha.blocks.trans (Nat.le_of_eq ?_)
    simp [Draft.emit, Function.emit]

/-- The end of a block leads to blocks of which no more is stated than what is filled. -/
theorem close (h : d.Tracks bare inflow now) (hi : d.Inv k pend) {t : Terminator}
    (ht : ∀ j ∈ t.successors, j < d.function.blocks.length ∧ inflow j ⊆ now) :
    ∃ inflow', Advances bare inflow now d inflow' now (d.close t) := by
  obtain ⟨inflow', ha⟩ := h.reopen hi
  obtain ⟨b, hb⟩ := hi.reopen.shape.cur_block
  have hhere := ha.tracks.here d.reopen_open b hb
  refine ⟨inflow', ⟨?_, fun ho => ?_, ha.tracks.known⟩, ha.kept, subset_rfl, ?_⟩
  · refine ha.tracks.flow.close fun c hc j hj => ?_
    cases hb.symm.trans hc
    obtain ⟨hlt, hsub⟩ := ht j hj
    rw [ha.kept j hlt]
    exact hsub.trans hhere
  · rw [hi.closedAt_close] at ho
    cases ho
  · refine ha.blocks.trans (Nat.le_of_eq ?_)
    simp [Draft.close, Function.close]

/-- Writing goes on in a block of which no less is stated than what is filled. -/
theorem moveTo {j : Nat} (h : d.Tracks bare inflow now) (hj : now ⊆ inflow j) :
    (d.moveTo j).Tracks bare inflow now :=
  ⟨⟨h.flow.reads, h.flow.passes⟩, fun _ _ _ => hj.trans Set.subset_union_left, h.known⟩

/-- The new blocks of a branch are entered with what is filled there. -/
theorem fork (h : d.Tracks bare inflow now) (hi : d.Inv k pend)
    (ho : d.function.closedAt d.block = false) (cond : Operand) {names : List String}
    (hn : names ≠ []) :
    ∃ inflow', Advances bare inflow now d inflow' now (d.fork cond names) ∧
      ∀ j, d.function.blocks.length ≤ j → j < d.function.blocks.length + 1 + names.length →
        inflow' j = now := by
  have hkept : ∀ i < d.function.blocks.length,
      inflowFrom d.function.blocks.length now inflow i = inflow i :=
    fun i hi => inflowFrom_of_lt hi _ _
  have hlen : (d.addBlocks ("then" :: names)).function.blocks.length =
      d.function.blocks.length + 1 + names.length := by
    rw [show (d.addBlocks ("then" :: names)).function.blocks.length = _ from
      Lowering.addBlocks_length d.function, List.length_cons]
    omega
  have hcur := hi.shape.lt_of_layout hi.shape.cur_mem
  have htracks : (d.addBlocks ("then" :: names)).Tracks bare
      (inflowFrom d.function.blocks.length now inflow) now := by
    obtain ⟨b, hb⟩ := hi.shape.cur_block
    refine ⟨(h.flow.congr hkept hi.shape).addBlocks _, fun _ c hc => ?_, h.known⟩
    cases (getElem?_addBlocks hb).symm.trans hc
    show now ⊆ inflowFrom _ _ _ d.block ∪ _
    rw [hkept d.block hcur]
    exact h.here ho b hb
  have htargets : ∀ j ∈ (Terminator.branch cond d.function.blocks.length
      (d.function.blocks.length + 1)).successors,
      j < (d.addBlocks ("then" :: names)).function.blocks.length ∧
        inflowFrom d.function.blocks.length now inflow j ⊆ now := by
    intro j hj
    have hpos : 0 < names.length := List.length_pos_iff.2 hn
    simp only [Terminator.successors, List.mem_cons, List.not_mem_nil, or_false] at hj
    rw [hlen, inflowFrom_of_le (by omega)]
    exact ⟨by omega, subset_rfl⟩
  obtain ⟨inflow', ha⟩ := htracks.close (hi.addBlocks _) htargets
  have hstated : ∀ j, d.function.blocks.length ≤ j →
      j < d.function.blocks.length + 1 + names.length → inflow' j = now := by
    intro j hj hlt
    exact (ha.kept j (by omega)).trans (inflowFrom_of_le hj _ _)
  refine ⟨inflow', ⟨?_, fun i hi => ?_, subset_rfl, ?_⟩, hstated⟩
  · exact ha.tracks.moveTo (hstated _ (Nat.le_refl _) (by omega)).ge
  · exact (ha.kept i (by omega)).trans (hkept i hi)
  · have hblocks := ha.blocks
    show _ ≤ ((d.addBlocks ("then" :: names)).close _).function.blocks.length
    omega

theorem fallThrough (h : d.Tracks bare inflow now) (hi : d.Inv k pend) {target : Nat}
    (ht : target ∈ pend) (hsub : inflow target ⊆ now) :
    ∃ inflow', Advances bare inflow now d inflow' now (d.fallThrough target) := by
  unfold Draft.fallThrough
  split
  · exact ⟨inflow, .refl h⟩
  · refine h.close hi fun j hj => ?_
    rw [List.mem_singleton.1 hj]
    exact ⟨hi.shape.lt_of_pend ht, hsub⟩

end Tracks

theorem Advances.moveTo {j : Nat} (h : Advances bare inflow now d inflow' now' d')
    (hj : inflow' j = now') : Advances bare inflow now d inflow' now' (d'.moveTo j) :=
  ⟨h.tracks.moveTo hj.ge, h.kept, h.grows, h.blocks⟩

end Draft

/-! ## Emission -/

namespace Lowering

/-- The slots that the declarators in `ns` get from now on are in `bare` if they are not
initialized. -/
def Marks (bare : Set Nat) (d : Draft) (ns : List Node) : Prop :=
  ∀ j n, ns[j]? = some n → n.initializer? = none → d.function.slots.length + j ∈ bare

/-- What is known of filled slots is kept. -/
structure Initializes (sub : Emission) : Prop where
  step : ∀ {n : Node} {scope : ScopeId} {d d' : Draft} {r : Lowered}, sub n scope d r d' →
    ∀ {k : Nat} {pend : List Nat} {locals globals : List (String × Value)} {bare : Set Nat}
      {inflow : Nat → Set Nat} {now : Set Nat}, d.Inv k pend → d.Scoped scope locals globals →
      Marks bare d (Source.localsIn n) → d.Tracks bare inflow now →
      ∃ inflow' now', d.Advances bare inflow now inflow' now' d'

section marks

variable {bare : Set Nat} {d d' : Draft} {ns ms : List Node}

theorem Marks.nil : Marks bare d [] := nofun

theorem Marks.left (h : Marks bare d (ns ++ ms)) : Marks bare d ns := by
  intro j n hj
  refine h j n ?_
  rw [List.getElem?_append_left (List.getElem?_eq_some_iff.1 hj).1]
  exact hj

theorem Marks.right (h : Marks bare d (ns ++ ms))
    (hp : d'.purposes = d.purposes ++ ns.map Source.localPurpose) : Marks bare d' ms := by
  have hlen : d'.function.slots.length = d.function.slots.length + ns.length := by
    simpa [Draft.purposes] using congrArg List.length hp
  intro j n hj hn
  rw [hlen, Nat.add_assoc]
  refine h _ n ?_ hn
  rw [List.getElem?_append_right (Nat.le_add_right _ _), Nat.add_sub_cancel_left]
  exact hj

theorem Marks.of_purposes (h : Marks bare d ns)
    (hp : d'.purposes = d.purposes) : Marks bare d' ns := by
  have hnil : Marks bare d ([] ++ ns) := h
  exact hnil.right (by simpa using hp)

end marks

section initializes

variable {sub : Emission} {scope : ScopeId} {k : Nat} {pend : List Nat}
  {locals globals : List (String × Value)} {bare : Set Nat} {inflow : Nat → Set Nat} {now : Set Nat}
  {d d' : Draft}

theorem convertIn_advances {v w : Value} {ty : Ty} (hi : d.Inv k pend)
    (h : convertIn d v ty = some (w, d')) (ht : d.Tracks bare inflow now) :
    ∃ inflow' now', d.Advances bare inflow now inflow' now' d' := by
  unfold convertIn at h
  split at h
  · cases h
    exact ⟨inflow, now, .refl ht⟩
  · obtain ⟨op, -, e⟩ := Option.map_eq_some_iff.1 h
    cases e
    obtain ⟨inflow', ha⟩ := ht.emit hi ty (a := .cast op v.operand) nofun
    exact ⟨inflow', _, ha⟩

theorem conditionIn_advances {v : Value} {cond : Operand} (hi : d.Inv k pend)
    (hv : d.module.Uses d.function d.defined v.operand v.ty)
    (h : conditionIn d v = some (cond, d')) (ht : d.Tracks bare inflow now) :
    ∃ inflow' now', d.Advances bare inflow now inflow' now' d' := by
  obtain ⟨⟨x, d₁⟩, hc, e⟩ := Option.map_eq_some_iff.1 h
  cases e
  obtain ⟨inflow₁, now₁, ha₁⟩ := convertIn_advances hi hc ht
  obtain ⟨inflow₂, ha₂⟩ := ha₁.tracks.emit (convertIn_uses hi hv hc).1 .bool
    (a := .compare x.operand (.const (.float (.zero false)))) nofun
  exact ⟨inflow₂, _, ha₁.trans ha₂⟩

variable (hp : Preserves sub) (ha : Allocates sub) (hsub : Initializes sub)

include ha hsub in
theorem Initializes.value {n : Node} {v : Value} (h : sub n scope d (.value v) d')
    (hi : d.Inv k pend)
    (hs : d.Scoped scope locals globals) (ht : d.Tracks bare inflow now) :
    ∃ inflow' now', d.Advances bare inflow now inflow' now' d' := by
  refine hsub.step h hi hs ?_ ht
  rw [(ha.step h).2 v rfl]
  exact .nil

include hp ha hsub

theorem emitsAll_advances {ns : List Node} (h : EmitsAll sub scope ns d d') :
    ∀ {locals : List (String × Value)} {inflow : Nat → Set Nat} {now : Set Nat}, d.Inv k pend →
      d.Scoped scope locals globals → Marks bare d (Source.localsInAll ns) →
      d.Tracks bare inflow now →
      ∃ inflow' now', d.Advances bare inflow now inflow' now' d' := by
  induction h with
  | nil =>
    intro locals inflow now _ _ _ ht
    exact ⟨inflow, now, .refl ht⟩
  | cons head tail ih =>
    intro locals inflow now hi hs hm ht
    rw [Source.localsInAll] at hm
    obtain ⟨new, hc, -⟩ := hp.step head hi hs
    obtain ⟨inflow₁, now₁, ha₁⟩ := hsub.step head hi hs hm.left ht
    obtain ⟨inflow₂, now₂, ha₂⟩ := ih hc.inv hc.visible (hm.right (ha.step head).1) ha₁.tracks
    exact ⟨inflow₂, now₂, ha₁.trans ha₂⟩

theorem emitsValues_advances {ns : List Node} {vs : List Value}
    (h : EmitsValues sub scope ns d vs d') :
    ∀ {inflow : Nat → Set Nat} {now : Set Nat}, d.Inv k pend → d.Scoped scope locals globals →
      d.Tracks bare inflow now → ∃ inflow' now', d.Advances bare inflow now inflow' now' d' := by
  induction h with
  | nil =>
    intro inflow now _ _ ht
    exact ⟨inflow, now, .refl ht⟩
  | cons head tail ih =>
    intro inflow now hi hs ht
    obtain ⟨new, hc, rfl, -⟩ := hp.step head hi hs
    obtain ⟨inflow₁, now₁, ha₁⟩ := hsub.value ha head hi hs ht
    obtain ⟨inflow₂, now₂, ha₂⟩ := ih hc.inv hc.visible ha₁.tracks
    exact ⟨inflow₂, now₂, ha₁.trans ha₂⟩

theorem emitsDeclarator_advances {ty : Ty} {n : Node} (hty : ty = .void ∨ ty.isArithmetic = true)
    (h : EmitsDeclarator sub scope ty n d d') (hi : d.Inv k pend)
    (hs : d.Scoped scope locals globals)
    (hm : Marks bare d ([n].filter (·.kind ≠ .functionDeclarator)))
    (ht : d.Tracks bare inflow now) :
    ∃ inflow' now', d.Advances bare inflow now inflow' now' d' := by
  cases h with
  | prototype kind reads registers =>
    exact ⟨inflow, now, ht.of_eq rfl rfl ht.known, fun _ _ => rfl, subset_rfl, Nat.le_refl _⟩
  | @bare name c kind named object bare' defines =>
    have hslot : d.function.slots.length ∈ bare := hm 0 n (by simp [kind]) bare'
    have hc := Continues.addSlot hi hs (s := varSlot name ty) (hty.resolve_left object)
    have hbound := (ht.addSlot (varSlot name ty)).bind hc.visible defines fun j hj => by
      cases hj
      exact .inr hslot
    exact ⟨inflow, now, hbound, fun _ _ => rfl, subset_rfl, Nat.le_refl _⟩
  | @initialized name init v d₁ c kind named object initializer value fits defines =>
    have hc := Continues.addSlot hi hs (s := varSlot name ty) (hty.resolve_left object)
    obtain ⟨new, hc₁, rfl, -⟩ := hp.step value hc.inv hc.visible
    obtain ⟨inflow₁, now₁, ha₁⟩ := hsub.value ha value hc.inv hc.visible (ht.addSlot _)
    obtain ⟨inflow₂, ha₂⟩ := ha₁.tracks.emit hc₁.inv .void
      (a := .store (nextSlot d ty).operand v.operand) nofun
    have hbound := ha₂.tracks.bind (hc₁.visible.extend .emit Draft.emit_scopes)
      (Draft.emit_scopes ▸ defines) fun j hj => by
        cases hj
        exact .inl (.inr ⟨v.operand, rfl⟩)
    have hall := ha₁.trans ha₂
    exact ⟨inflow₂, _, hbound, hall.kept, hall.grows, hall.blocks⟩

theorem emitsDeclarators_advances {ty : Ty} {ns : List Node}
    (hty : ty = .void ∨ ty.isArithmetic = true) (h : EmitsDeclarators sub scope ty ns d d') :
    ∀ {locals : List (String × Value)} {inflow : Nat → Set Nat} {now : Set Nat}, d.Inv k pend →
      d.Scoped scope locals globals → Marks bare d (ns.filter (·.kind ≠ .functionDeclarator)) →
      d.Tracks bare inflow now → ∃ inflow' now', d.Advances bare inflow now inflow' now' d' := by
  induction h with
  | nil =>
    intro locals inflow now _ _ _ ht
    exact ⟨inflow, now, .refl ht⟩
  | @cons n ns d d₁ d' head tail ih =>
    intro locals inflow now hi hs hm ht
    rw [← List.singleton_append, List.filter_append] at hm
    obtain ⟨new, hc⟩ := emitsDeclarator_preserves hp hty head hi hs
    obtain ⟨inflow₁, now₁, ha₁⟩ := emitsDeclarator_advances hp ha hsub hty head hi hs hm.left ht
    have hm₁ := hm.right (emitsDeclarator_purposes ha head)
    obtain ⟨inflow₂, now₂, ha₂⟩ := ih hc.inv hc.visible hm₁ ha₁.tracks
    exact ⟨inflow₂, now₂, ha₁.trans ha₂⟩

omit ha in
/-- Behind an arm the slots are filled that were filled in front of it. -/
theorem emitsArm_advances {arm : Node} {merge : Nat} (h : EmitsArm sub scope arm merge d d')
    (hmerge : merge ∈ pend) (hi : d.Inv k pend) (hs : d.Scoped scope locals globals)
    (hm : Marks bare d (Source.localsIn arm)) (ht : d.Tracks bare inflow now)
    (hstated : inflow merge = now) : ∃ inflow', d.Advances bare inflow now inflow' now d' := by
  obtain ⟨hc, hclosed⟩ := emitsArm_preserves hp h hmerge hi hs
  have hbindings : bindingsOf d'.scopes.live = bindingsOf d.scopes.live := by
    rw [hc.visible.bindings, hs.bindings]
    rfl
  cases h with
  | @arm r d₁ body =>
    obtain ⟨new, hc₁, -⟩ := hp.step body (hi.rescope _) hs.enter
    have henter : (d.enter scope).Tracks bare inflow now := by
      refine ht.of_eq rfl rfl ?_
      show ∀ p ∈ bindingsOf ((d.scopes.opened, { parent := some scope }) :: d.scopes.live), _
      rw [bindingsOf_cons, List.nil_append]
      exact ht.known
    obtain ⟨inflow₁, now₁, ha₁⟩ := hsub.step body (hi.rescope _) hs.enter hm henter
    have hkept : inflow₁ merge = inflow merge := ha₁.kept merge (hi.shape.lt_of_pend hmerge)
    have hleave : (d₁.leave d.scopes.opened).Tracks bare inflow₁ now₁ := by
      refine ha₁.tracks.of_eq rfl rfl fun p hmem => ha₁.tracks.known p ?_
      obtain ⟨q, hq, hpq⟩ := List.mem_flatMap.1 hmem
      exact List.mem_flatMap.2 ⟨q, List.mem_of_mem_filter hq, hpq⟩
    obtain ⟨inflow₂, ha₂⟩ := hleave.fallThrough (hc₁.inv.rescope _) hmerge
      ((hkept.trans hstated).subset.trans ha₁.grows)
    refine ⟨inflow₂, ⟨ha₂.tracks.flow, fun ho => ?_, ?_⟩, fun i hi => ?_, subset_rfl,
      ha₁.blocks.trans ha₂.blocks⟩
    · rw [hclosed] at ho
      cases ho
    · rw [hbindings]
      exact ht.known
    · exact (ha₂.kept i (Nat.lt_of_lt_of_le hi ha₁.blocks)).trans (ha₁.kept i hi)

/-- The test of a conditional, and the branch. -/
theorem fork_advances {condNode : Node} {v : Value} {cond : Operand} {d₁ d₂ : Draft}
    {names : List String} (value : sub condNode scope d (.value v) d₁)
    (test : conditionIn d₁ v = some (cond, d₂)) (hn : names ≠ []) (hi : d.Inv k pend)
    (hs : d.Scoped scope locals globals) (ht : d.Tracks bare inflow now) :
    ∃ inflow' now', d.Advances bare inflow now inflow' now' (d₂.fork cond names) ∧
      ∀ j, d₂.function.blocks.length ≤ j → j < d₂.function.blocks.length + 1 + names.length →
        inflow' j = now' := by
  obtain ⟨new, hc₁, rfl, hv, -⟩ := hp.step value hi hs
  obtain ⟨hi₂, -, -, -, ho⟩ := conditionIn_uses hc₁.inv hv test
  obtain ⟨inflow₁, now₁, ha₁⟩ := hsub.value ha value hi hs ht
  obtain ⟨inflow₂, now₂, ha₂⟩ := conditionIn_advances hc₁.inv hv test ha₁.tracks
  obtain ⟨inflow₃, ha₃, hstated⟩ := ha₂.tracks.fork hi₂ ho cond hn
  exact ⟨inflow₃, now₂, (ha₁.trans ha₂).trans ha₃, hstated⟩

theorem ifThen_advances {condNode thenNode : Node} {v : Value} {cond : Operand} {d₁ d₂ d₃ : Draft}
    (value : sub condNode scope d (.value v) d₁) (test : conditionIn d₁ v = some (cond, d₂))
    (arm : EmitsArm sub scope thenNode (d₂.function.blocks.length + 1) (d₂.fork cond ["merge"]) d₃)
    (hi : d.Inv k pend) (hs : d.Scoped scope locals globals)
    (hm : Marks bare d (Source.localsIn thenNode)) (ht : d.Tracks bare inflow now) :
    ∃ inflow' now', d.Advances bare inflow now inflow' now'
      (d₃.moveTo (d₂.function.blocks.length + 1)) := by
  have hne := List.cons_ne_nil "merge" []
  have hf := fork_preserves hp value test hne hi hs
  have hmerge : d₂.function.blocks.length + 1 ∈
      List.range' (d₂.function.blocks.length + 1) ["merge"].length ++ pend := by simp
  obtain ⟨inflow₁, now₁, ha₁, hstated⟩ := fork_advances hp ha hsub value test hne hi hs ht
  have hstated := hstated (d₂.function.blocks.length + 1) (by omega) (by simp)
  obtain ⟨inflow₂, ha₂⟩ := emitsArm_advances hp hsub arm hmerge hf.inv hf.visible
    (hm.of_purposes (fork_purposes ha value test)) ha₁.tracks hstated
  have hkept := ha₂.kept _ (hf.inv.shape.lt_of_pend hmerge)
  exact ⟨inflow₂, now₁, (ha₁.trans ha₂).moveTo (hkept.trans hstated)⟩

theorem ifElse_advances {condNode thenNode elseNode : Node} {v : Value} {cond : Operand}
    {d₁ d₂ d₃ d₄ : Draft} (value : sub condNode scope d (.value v) d₁)
    (test : conditionIn d₁ v = some (cond, d₂))
    (arm : EmitsArm sub scope thenNode (d₂.function.blocks.length + 2)
      (d₂.fork cond ["else", "merge"]) d₃)
    (other : EmitsArm sub scope elseNode (d₂.function.blocks.length + 2)
      (d₃.moveTo (d₂.function.blocks.length + 1)) d₄)
    (hi : d.Inv k pend) (hs : d.Scoped scope locals globals)
    (hm : Marks bare d (Source.localsIn thenNode ++ Source.localsIn elseNode))
    (ht : d.Tracks bare inflow now) :
    ∃ inflow' now', d.Advances bare inflow now inflow' now'
      (d₄.moveTo (d₂.function.blocks.length + 2)) := by
  have hne := List.cons_ne_nil "else" ["merge"]
  have hf := fork_preserves hp value test hne hi hs
  have helse : d₂.function.blocks.length + 1 ∈
      List.range' (d₂.function.blocks.length + 1) ["else", "merge"].length ++ pend := by simp
  have hmerge : d₂.function.blocks.length + 2 ∈
      List.range' (d₂.function.blocks.length + 1) ["else", "merge"].length ++ pend := by simp
  obtain ⟨inflow₁, now₁, ha₁, hstated⟩ := fork_advances hp ha hsub value test hne hi hs ht
  have hstated₁ := hstated (d₂.function.blocks.length + 1) (by omega) (by simp)
  have hstated₂ := hstated (d₂.function.blocks.length + 2) (by omega) (by simp)
  have hm₁ : Marks bare (d₂.fork cond ["else", "merge"])
      (Source.localsIn thenNode ++ Source.localsIn elseNode) :=
    hm.of_purposes (fork_purposes ha value test)
  -- the first arm, up to where the second one starts
  obtain ⟨hc, hclosed⟩ := emitsArm_preserves hp arm hmerge hf.inv hf.visible
  obtain ⟨inflow₂, ha₂⟩ := emitsArm_advances hp hsub arm hmerge hf.inv hf.visible hm₁.left
    ha₁.tracks hstated₂
  have hkept₁ := ha₂.kept _ (hf.inv.shape.lt_of_pend helse)
  have hkept₂ := ha₂.kept _ (hf.inv.shape.lt_of_pend hmerge)
  have hthen := (hf.trans hc).moveTo hclosed
  have ha₂ := (ha₁.trans ha₂).moveTo (hkept₁.trans hstated₁)
  -- the second arm
  have hmerge' : d₂.function.blocks.length + 2 ∈
      List.range' (d₂.function.blocks.length + 2) ["merge"].length ++ pend := by simp
  have hm₂ : Marks bare (d₃.moveTo (d₂.function.blocks.length + 1)) (Source.localsIn elseNode) := by
    have hpurposes := emitsArm_purposes ha arm
    exact hm₁.right hpurposes
  obtain ⟨inflow₃, ha₃⟩ := emitsArm_advances hp hsub other hmerge' hthen.inv hthen.visible hm₂
    ha₂.tracks (hkept₂.trans hstated₂)
  have hkept₃ := ha₃.kept _ (hthen.inv.shape.lt_of_pend hmerge')
  exact ⟨inflow₃, now₁, (ha₂.trans ha₃).moveTo (hkept₃.trans (hkept₂.trans hstated₂))⟩

theorem emitsNode_initializes : Initializes
    (fun n scope d r d' => EmitsNode sub scope n d r d') := by
  refine ⟨fun {n scope d d' r} h {k pend locals globals bare inflow now} hi hs hm ht => ?_⟩
  cases h with
  | sequence kind all =>
    rw [Source.localsIn_sequence kind] at hm
    exact emitsAll_advances hp ha hsub all hi hs hm ht
  | wrapper kind children body =>
    rw [Source.localsIn_wrapper kind children] at hm
    exact hsub.step body hi hs hm ht
  | literal reads => exact ⟨inflow, now, .refl ht⟩
  | @identifier o ty kind bound object =>
    obtain ⟨inflow', ha'⟩ := ht.emit hi ty (a := .load o) fun j hj => by
      cases hj
      exact ht.lookup hs bound rfl
    exact ⟨inflow', _, ha'⟩
  | declaration kind type all =>
    rw [Source.localsIn_declaration kind] at hm
    exact emitsDeclarators_advances hp ha hsub (Node.specifiedType_ok type) all hi hs hm ht
  | ifThen kind first second third value test arm =>
    rw [Source.localsIn_if kind, second, third] at hm
    exact ifThen_advances hp ha hsub value test arm hi hs (by simpa using hm) ht
  | ifElse kind first second third value test arm other =>
    rw [Source.localsIn_if kind, second, third] at hm
    exact ifElse_advances hp ha hsub value test arm other hi hs (by simpa using hm) ht
  | returnNothing kind nothing void =>
    obtain ⟨inflow', ha'⟩ := ht.close hi (t := .ret none) nofun
    exact ⟨inflow', now, ha'⟩
  | @returnValue e v w d₁ d₂ kind operand object value converts =>
    obtain ⟨new, hc₁, rfl, hv, -⟩ := hp.step value hi hs
    obtain ⟨inflow₁, now₁, ha₁⟩ := hsub.value ha value hi hs ht
    obtain ⟨inflow₂, now₂, ha₂⟩ := convertIn_advances hc₁.inv converts ha₁.tracks
    obtain ⟨inflow₃, ha₃⟩ := ha₂.tracks.close (convertIn_uses hc₁.inv hv converts).1
      (t := .ret (some w.operand)) nofun
    exact ⟨inflow₃, now₂, (ha₁.trans ha₂).trans ha₃⟩
  | @assignment target e a v d₁ kind first second identifier bound value fits =>
    obtain ⟨new, hc₁, rfl, -⟩ := hp.step value hi hs
    obtain ⟨inflow₁, now₁, ha₁⟩ := hsub.value ha value hi hs ht
    obtain ⟨inflow₂, ha₂⟩ := ha₁.tracks.emit hc₁.inv .void (a := .store a.operand v.operand) nofun
    exact ⟨inflow₂, _, ha₁.trans ha₂⟩
  | @call callee i vs g d₁ kind named known values function fits =>
    obtain ⟨hc₁, -⟩ := emitsValues_preserves hp values hi hs
    obtain ⟨inflow₁, now₁, ha₁⟩ := emitsValues_advances hp ha hsub values hi hs ht
    obtain ⟨inflow₂, ha₂⟩ := ha₁.tracks.emit hc₁.inv g.signature.ret
      (a := .call i (vs.map (·.operand))) nofun
    exact ⟨inflow₂, _, ha₁.trans ha₂⟩

end initializes

theorem emits_initializes : ∀ h : Nat, Initializes (Emits h)
  | 0 => ⟨fun he => he.elim⟩
  | h + 1 => emitsNode_initializes (emits_preserves h) (emits_allocates h) (emits_initializes h)

/-! ## Definitions -/

theorem spills_advances {scope : ScopeId} {k : Nat} {pend : List Nat}
    {globals : List (String × Value)}
    {bare : Set Nat} {ps : List (Node × Ty)} : ∀ {d d' : Draft} {i : Nat}
      {locals : List (String × Value)} {inflow : Nat → Set Nat} {now : Set Nat},
      Spills scope i ps d d' → d.Inv k pend → d.Scoped scope locals globals →
      (∀ p ∈ ps, p.2.isArithmetic = true) → d.function.signature.params.drop i = ps.map (·.2) →
      d.Tracks bare inflow now → ∃ inflow' now', d.Advances bare inflow now inflow' now' d' := by
  induction ps with
  | nil =>
    intro d d' i locals inflow now h _ _ _ _ ht
    cases h
    exact ⟨inflow, now, .refl ht⟩
  | cons p ps ih =>
    intro d d' i locals inflow now h hi hs hps hparams ht
    cases h with
    | @cons _ name ty _ _ _ c defines rest =>
      obtain ⟨hty, hps⟩ := List.forall_mem_cons.1 hps
      obtain ⟨hp, hrest⟩ := param_of_drop hparams
      have hc := spill_preserves hi hs hty hp defines
      have hadd := Continues.addSlot hi hs (s := argSlot name ty i) hty
      obtain ⟨inflow₁, ha₁⟩ := (ht.addSlot (argSlot name ty i)).emit hadd.inv .void
        (a := .store (nextSlot d ty).operand (.arg i)) nofun
      have hdefines : ((d.addSlot (argSlot name ty i)).emit .void
          (.store (nextSlot d ty).operand (.arg i))).scopes.define? scope name.text
            (nextSlot d ty) = some c := by
        rw [Draft.emit_scopes]
        exact defines
      have hbound := ha₁.tracks.bind (hadd.visible.extend .emit Draft.emit_scopes) hdefines (by
        rintro j ⟨⟩
        exact .inl (.inr ⟨.arg i, rfl⟩))
      rw [← hc.grows.function.signature] at hrest
      obtain ⟨inflow₂, now₂, ha₂⟩ := ih rest hc.inv hc.visible hps hrest hbound
      exact ⟨inflow₂, now₂, .trans ⟨hbound, ha₁.kept, ha₁.grows, ha₁.blocks⟩ ha₂⟩

theorem closes_advances {k : Nat} {pend : List Nat} {ret : Ty} {d d' : Draft} {bare : Set Nat}
    {inflow : Nat → Set Nat} {now : Set Nat} (h : Closes ret d d') (hi : d.Inv k pend)
    (ht : d.Tracks bare inflow now) : ∃ inflow', d.Advances bare inflow now inflow' now d' := by
  cases h with
  | closed | live => exact ⟨inflow, .refl ht⟩
  | void => exact ht.close hi nofun
  | dead => exact ht.close hi nofun

/-- At the start of a body nothing is filled, and there are no variables of the function. -/
theorem Opens.start_tracks {file : File} {scope : ScopeId} {k : Nat} {f : Function}
    {params : List (Node × Ty)} (ho : Opens file scope k f params) (bare : Set Nat) :
    ((file.start f params).enter scope).Tracks bare (fun _ => ∅) ∅ := by
  refine ⟨⟨fun i b hb => ?_, fun i b hb j hj => Set.empty_subset _⟩,
    fun _ b _ => Set.empty_subset _, ?_⟩
  · cases i with
    | zero =>
      cases hb
      trivial
    | succ i => cases hb
  · rw [ho.start_scoped.bindings]
    intro p hp j hj
    obtain ⟨i, x, rfl, -⟩ := mem_globalBindings hp
    cases hj

end Lowering

namespace Source

/-- A slot is for a declarator that has no initializer: it is the slot of the variable that the
declarator `n` declares in the body of the definition. -/
def Definition.LeavesBare (d : Definition) (slot : Nat) (n : Node) : Prop :=
  ∃ j, slot = d.params.length + j ∧ (localsIn d.body)[j]? = some n ∧ n.initializer? = none

def Definition.bareSlots (d : Definition) : Set Nat := {slot | ∃ n, d.LeavesBare slot n}

end Source

namespace Lowering

theorem Compiled.flow {m : Module} {f : Function} {def_ : Source.Definition}
    (h : Compiled m f def_) :
    ∃ inflow, f.Flow def_.bareSlots inflow ∧ inflow 0 = ∅ := by
  cases h with
  | @intro h k scope file g params body d opens built same finished grows =>
    subst same
    cases built with
    | @body d₁ d₂ d₃ r spills emits closes =>
      obtain ⟨new, hc₁⟩ := opens.spills_continues spills
      obtain ⟨new', hc₂, -⟩ := (emits_preserves h).step emits hc₁.inv hc₁.visible
      have hslots : d₁.function.slots.length = params.length := by
        have hstart : g.slots = [] := by rw [opens.bare]
        have hlen := congrArg List.length (spills_purposes spills)
        simpa [Draft.purposes, Draft.enter, File.start, hstart] using hlen
      have hmarks : Marks (Source.Definition.bareSlots ⟨d.function.name, params.map (·.1.text),
          d.function.signature.ret, body⟩) d₁ (Source.localsIn body) := by
        intro j n hj hn
        exact ⟨n, j, by rw [hslots, List.length_map], hj, hn⟩
      obtain ⟨inflow₁, now₁, ha₁⟩ := spills_advances spills opens.start_inv opens.start_scoped
        opens.arithmetic opens.types (opens.start_tracks _)
      obtain ⟨inflow₂, now₂, ha₂⟩ :=
        (emits_initializes h).step emits hc₁.inv hc₁.visible hmarks ha₁.tracks
      obtain ⟨inflow₃, ha₃⟩ := closes_advances closes hc₂.inv ha₂.tracks
      have hall := (ha₁.trans ha₂).trans ha₃
      exact ⟨inflow₃, hall.tracks.flow, hall.kept 0 (Nat.succ_pos 0)⟩

/-- The slot of a declarator is a slot of the function for a variable with the name of the
declarator. -/
theorem Compiled.slot {m : Module} {f : Function} {def_ : Source.Definition} (h : Compiled m f def_)
    {slot : Nat} {n : Node} (hn : def_.LeavesBare slot n) : ∃ sl, f.slots[slot]? = some sl ∧
      sl.origin = .var ∧ sl.name = n.identifier?.map Node.text := by
  obtain ⟨j, rfl, hj, -⟩ := hn
  have hpurpose : (f.slots.map Slot.purpose)[def_.params.length + j]? =
      some (Source.localPurpose n) := by
    rw [h.purposes, Source.Definition.purposes, List.getElem?_append_right (by simp)]
    simp [hj]
  rw [List.getElem?_map] at hpurpose
  obtain ⟨sl, hsl, e⟩ := Option.map_eq_some_iff.1 hpurpose
  obtain ⟨hname, horigin⟩ := Prod.mk.inj e
  exact ⟨sl, hsl, horigin, hname⟩

/-- The flow of a module that reflects a program leaves out the slots of bare declarators. -/
theorem Reflects.flows {p : Source.Program} {m : Module} (hr : Reflects p m) :
    m.Flows fun f =>
      {slot | ∃ def_ n, p.definition? f.name = some def_ ∧ def_.LeavesBare slot n} := by
  intro f hf entry he
  cases hd : p.definition? f.name with
  | none =>
    rw [ Function.entry?, hr.bare f hf hd] at he
    cases he
  | some def_ =>
    have hc := hr.compiled f hf def_ hd
    obtain ⟨inflow, hflow, hnone⟩ := hc.flow
    obtain ⟨rest, hl⟩ := hc.entry
    rw [ Function.entry?, hl] at he
    cases he
    refine ⟨inflow, ?_, hnone⟩
    simpa [Source.Definition.bareSlots, hd] using hflow

end Lowering

/-! ## Generated modules -/

open Lowering

/-- The only variables that a run of generated code can read too early are those that were declared
without an initializer, whatever state the run starts from and whatever its arguments are: the slot
that was empty is the slot of such a declarator, in the body of the function that the error names.
So if every variable of every body is initialized where it is declared, no run reads a variable too
early. -/
theorem generated_reads_initialized {name : String} {root : Node} {m : Module}
    (hm : generate name root = .ok m) :
    (∀ steps function args s reader slot s',
      m.run steps function args s = .error (.error (.uninitializedRead reader slot)) s' →
      ∃ f ∈ m.functions, f.name = reader ∧
        ∃ def_ n, (Source.Program.ofTree root).definition? reader = some def_ ∧
          f.slots.map Slot.purpose = def_.purposes ∧ def_.LeavesBare slot n ∧
          ∃ sl, f.slots[slot]? = some sl ∧ sl.origin = .var ∧
            sl.name = n.identifier?.map Node.text) ∧
    ((∀ def_ ∈ (Source.Program.ofTree root).definitions, ∀ n ∈ Source.localsIn def_.body,
        n.initializer? ≠ none) →
      ∀ steps function args s reader slot s',
        m.run steps function args s ≠ .error (.error (.uninitializedRead reader slot)) s') := by
  obtain ⟨file, rfl, hbuilt, -⟩ := generate_ok hm
  have hr := buildsAll_reflects hbuilt (initial_inv name) (initial_reflects name)
  rw [List.nil_append] at hr
  have hread : ∀ steps function args s reader slot s',
      file.module.run steps function args s = .error (.error (.uninitializedRead reader slot)) s' →
      ∃ f ∈ file.module.functions, f.name = reader ∧
        ∃ def_ n, (Source.Program.ofTree root).definition? reader = some def_ ∧
          Compiled file.module f def_ ∧ def_.LeavesBare slot n := by
    intro steps function args s reader slot s' h
    obtain ⟨f, hf, rfl, def_, n, hd, hn⟩ := run_early hr.flows steps function args s h
    exact ⟨f, hf, rfl, def_, n, hd, hr.compiled f hf def_ hd, hn⟩
  refine ⟨fun steps function args s reader slot s' h => ?_,
    fun hall steps function args s reader slot s' h => ?_⟩
  · obtain ⟨f, hf, hname, def_, n, hd, hc, hn⟩ := hread _ _ _ _ _ _ _ h
    exact ⟨f, hf, hname, def_, n, hd, hc.purposes, hn, hc.slot hn⟩
  · obtain ⟨f, hf, -, def_, n, hd, -, j, -, hj, hbare⟩ := hread _ _ _ _ _ _ _ h
    exact hall def_ (definition?_name hd).1 n (List.mem_of_getElem? hj) hbare

/-- A function with three variables, of which one is only set if its argument is not zero. -/
def lateTree : Node :=
  let int := branchNode .declarationSpecifiers [leaf .typeSpecifier "int"]
  branchNode .translationUnit [branchNode .functionDefinition [int,
    branchNode .functionDeclarator [leaf .identifier "late",
      branchNode .parameterList [branchNode .parameterDeclaration [int, leaf .identifier "a"]]],
    branchNode .compoundStatement [
      branchNode .declaration [int, branchNode .initDeclaratorList [
        branchNode .initDeclarator [leaf .identifier "one", leaf .int "1"],
        leaf .identifier "set"]],
      branchNode .ifElseStatement [leaf .identifier "a",
        branchNode .compoundStatement [
          branchNode .declaration [int,
            branchNode .initDeclarator [leaf .identifier "copy", leaf .identifier "a"]],
          branchNode .assignmentExpression [leaf .identifier "set", leaf .identifier "copy"]]],
      branchNode .returnExpr [leaf .identifier "set"]]]]

@[irreducible] def late : Module :=
  match generate "late" lateTree with
  | .ok m => m
  | .error failure => failure.module

/-- The third slot is the one that is empty, and in the cascade none ever is. -/
theorem late_reads_initialized :
    late.run late.acyclicSteps "late" [.int 0] (.start late) =
        .error (.error (.uninitializedRead "late" 2)) (.start late) ∧
      (∃ f ∈ late.functions, f.name = "late" ∧
        ∃ def_ n, (Source.Program.ofTree lateTree).definition? "late" = some def_ ∧
          f.slots.map Slot.purpose = def_.purposes ∧ def_.LeavesBare 2 n ∧
          ∃ sl, f.slots[2]? = some sl ∧ sl.origin = .var ∧ sl.name = n.identifier?.map Node.text) ∧
      ∀ steps function args s reader slot s',
        cascade.run steps function args s ≠
          .error (.error (.uninitializedRead reader slot)) s' := by
  have hlate : generate "late" lateTree = .ok late := by decide +kernel
  have hcascade : generate "cascade" cascadeTree = .ok cascade := by decide +kernel
  have hrun : late.run late.acyclicSteps "late" [.int 0] (.start late) =
      .error (.error (.uninitializedRead "late" 2)) (.start late) := by decide +kernel
  have hall : ∀ def_ ∈ (Source.Program.ofTree cascadeTree).definitions,
      ∀ n ∈ Source.localsIn def_.body,
      n.initializer? ≠ none := by decide +kernel
  exact ⟨hrun, (generated_reads_initialized hlate).1 _ _ _ _ _ _ _ hrun,
    (generated_reads_initialized hcascade).2 hall⟩

end SlotIR
