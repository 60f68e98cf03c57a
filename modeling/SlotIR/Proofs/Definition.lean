import SlotIR.Proofs.BodyLowering

/-!
# Lowering definitions

A body starts with its parameters in slots and ends in a block that is closed, or left open for the
verifier to find. A body whose last block is closed is `Finished` and obeys all rules of the
verifier; one whose last block is open breaks exactly the rule that blocks have an end.
-/

namespace SlotIR

namespace Function

/-! ## Finished bodies -/

/-- A complete body. Blocks that are marked as unreachable are never entered. -/
structure Finished (m : Module) (f : Function) : Prop where
  shape : ∃ cur, f.Shape cur [] ∧ f.closedAt cur = true
  typed : f.TypedIn m
  dead : ∀ (i : Nat) (b : Block), f.blocks[i]? = some b → b.terminator = some .unreachable →
    ¬ f.Entered i

variable {m : Module} {f : Function} {cur : Nat}

theorem Shape.not_goesTo_entry {pend : List Nat} (h : f.Shape cur pend) {e i : Nat} {b : Block}
    (he : f.entry? = some e) (hi : i ∈ f.layout) (hb : f.blocks[i]? = some b) :
    goesTo b e = false := by
  cases hg : goesTo b e with
  | false => rfl
  | true =>
    obtain ⟨-, hlt⟩ := h.forward i hi b hb e hg
    have hz : f.layout.idxOf e = 0 := by
      obtain ⟨rest, hr⟩ := List.head?_eq_some_iff.1 he
      rw [hr, List.idxOf_cons_self]
    omega

theorem Shape.blockOk (h : f.Shape cur []) (ht : f.TypedIn m) {i : Nat} (hi : i ∈ f.layout)
    (hc : f.closedAt i = true) : ∃ b, f.blocks[i]? = some b ∧ Module.BlockOk m f b := by
  obtain ⟨b, t, hb, hbt⟩ := exists_of_closedAt hc
  refine ⟨b, hb, ht.blocks i b hb, by simp [hbt], fun t' ht' j hj => ?_⟩
  obtain ⟨hm, -⟩ := h.forward i hi b hb j ((goesTo_iff ht').2 hj)
  simpa using hm

theorem Shape.ids_nodup {pend : List Nat} (h : f.Shape cur pend) :
    (f.layout.flatMap f.idsAt).Nodup := by
  rw [h.ids]
  exact List.nodup_range

theorem Finished.bodyOk (h : f.Finished m) : Module.BodyOk m f := by
  obtain ⟨cur, hs, hc⟩ := h.shape
  refine ⟨h.typed.slots, fun e he i hi b hb => hs.not_goesTo_entry he hi hb, fun i hi => ?_,
    hs.ids_nodup⟩
  by_cases hcur : i = cur
  · rw [hcur] at hi ⊢
    exact hs.blockOk h.typed hi hc
  · exact hs.blockOk h.typed hi (hs.closed i hi hcur)

/-- A body whose last block was left open is refused for that. -/
theorem Shape.verifyBody_open (h : f.Shape cur []) (ht : f.TypedIn m) {b : Block}
    (hb : f.blocks[cur]? = some b) (ho : f.closedAt cur = false) :
    m.verifyBody f = Checked.violation (.missingTerminator f.name b.name) := by
  obtain ⟨done, hl⟩ := h.last
  have hnd : (done ++ [cur]).Nodup := by
    rw [← hl]
    exact (List.nodup_append.1 h.nodup).1
  refine Module.verifyBody_open hl hb (open_of_closedAt hb ho) ht.slots
    (fun e he i hi c hc => h.not_goesTo_entry he hi hc) (fun i hi => ?_) (ht.blocks cur b hb).insts
    h.ids_nodup
  have hne : i ≠ cur := by
    rintro rfl
    exact (List.nodup_append.1 hnd).2.2 i hi i List.mem_cons_self rfl
  have hil : i ∈ f.layout := by
    rw [hl]
    exact List.mem_append_left _ hi
  exact h.blockOk ht hil (h.closed i hil hne)

theorem Finished.grow {m' : Module} (hm : m.Grows m') (h : f.Finished m) : f.Finished m' :=
  ⟨h.shape, h.typed.grow hm, h.dead⟩

end Function

namespace Lowering

open Syntax (Node)
open Builder

/-! ## Parameters -/

def argSlot (name : Node) (ty : Ty) (index : Nat) : Slot :=
  { name := some name.text, ty, origin := .argument index }

/-- The arguments from position `i` on are copied to slots. -/
inductive Spills (scope : ScopeId) : Nat → List (Node × Ty) → Draft → Draft → Prop
  | nil {i : Nat} {d : Draft} : Spills scope i [] d d
  | cons {i : Nat} {name : Node} {ty : Ty} {ps : List (Node × Ty)} {d d' : Draft} {c : ScopeChain}
    (defines : d.scopes.define? scope name.text (nextSlot d ty) = some c)
    (rest : Spills scope (i + 1) ps
      { (d.addSlot (argSlot name ty i)).emit .void (.store (nextSlot d ty).operand (.arg i)) with
        scopes := c } d') :
    Spills scope i ((name, ty) :: ps) d d'

section spills

variable {k : Nat} {pend : List Nat} {scope : ScopeId} {globals : List (String × Value)}

theorem param_of_drop {params : List Ty} {i : Nat} {name : Node} {ty : Ty} {ps : List (Node × Ty)}
    (h : params.drop i = ((name, ty) :: ps).map (·.2)) :
    params[i]? = some ty ∧ params.drop (i + 1) = ps.map (·.2) := by
  constructor
  · have := congrArg (·[0]?) h
    simpa using this
  · rw [← List.drop_drop, h]
    rfl

/-- The first of the parameters that are left is copied and bound. -/
theorem spill_preserves {d : Draft} {locals : List (String × Value)} {i : Nat} {name : Node} {ty : Ty}
    {c : ScopeChain} (hi : d.Inv k pend) (hs : d.Scoped scope locals globals)
    (hty : ty.isArithmetic = true) (hp : d.function.signature.params[i]? = some ty)
    (hd : d.scopes.define? scope name.text (nextSlot d ty) = some c) :
    Continues k pend scope locals globals [(name.text, nextSlot d ty)] d
      { (d.addSlot (argSlot name ty i)).emit .void (.store (nextSlot d ty).operand (.arg i)) with
        scopes := c } := by
  have hslot : (d.addSlot (argSlot name ty i)).function.slots[d.function.slots.length]? =
      some (argSlot name ty i) := by
    simp [Draft.addSlot, Function.addSlot]
  have hc := Continues.addSlot hi hs (s := argSlot name ty i) hty
  have hinst : ((d.addSlot (argSlot name ty i)).function.nextInst .void
      (.store (nextSlot d ty).operand (.arg i))).Typed (d.addSlot (argSlot name ty i)).module
      ((d.addSlot (argSlot name ty i)).module.Uses (d.addSlot (argSlot name ty i)).function
        (d.addSlot (argSlot name ty i)).defined) :=
    ⟨by simp [Function.nextInst], ⟨ty, .slot hslot, .arg hp⟩, by simp [Function.nextInst]⟩
  have hc₁ := hc.trans (.of_writes hc.visible (hc.inv.emit hinst) .emit Draft.emit_scopes)
  refine hc₁.bind (s := argSlot name ty i) hs ?_ ?_
  · rw [Draft.emit_slots]
    exact hslot
  · rw [Draft.emit_scopes]
    exact hd

theorem spills_preserves {ps : List (Node × Ty)} : ∀ {d d' : Draft} {i : Nat}
    {locals : List (String × Value)}, Spills scope i ps d d' → d.Inv k pend →
      d.Scoped scope locals globals → (∀ p ∈ ps, p.2.isArithmetic = true) →
      (d.function.signature.params.drop i = ps.map (·.2)) →
      ∃ new, Continues k pend scope locals globals new d d' := by
  induction ps with
  | nil =>
    intro d d' i locals h hi hs _ _
    cases h
    exact ⟨[], .of_writes hs hi (.refl d) rfl⟩
  | cons p ps ih =>
    intro d d' i locals h hi hs hps hparams
    cases h with
    | @cons _ name ty _ _ _ c defines rest =>
      obtain ⟨hty, hps⟩ := List.forall_mem_cons.1 hps
      obtain ⟨hp, hrest⟩ := param_of_drop hparams
      have hc := spill_preserves hi hs hty hp defines
      rw [← hc.grows.function.signature] at hrest
      obtain ⟨new, hc'⟩ := ih rest hc.inv hc.visible hps hrest
      exact ⟨_, hc.trans hc'⟩

theorem spillParams_steps {ps : List (Node × Ty)} : ∀ {d : Draft} {i : Nat}
    {locals : List (String × Value)}, d.Inv k pend → d.Scoped scope locals globals →
      (∀ p ∈ ps, p.2.isArithmetic = true) →
      (d.function.signature.params.drop i = ps.map (·.2)) →
      Steps k (spillParams scope i ps (d.builder k)) (fun _ d' => Spills scope i ps d d') := by
  induction ps with
  | nil =>
    intro d i locals _ _ _ _
    exact ⟨d, rfl, .nil⟩
  | cons p ps ih =>
    obtain ⟨name, ty⟩ := p
    intro d i locals hi hs hps hparams
    obtain ⟨hty, hps⟩ := List.forall_mem_cons.1 hps
    obtain ⟨hp, hrest⟩ := param_of_drop hparams
    have hplaced := placed_of_inv (hi.addSlot (s := argSlot name ty i) hty)
    unfold spillParams
    refine .bind_eq (Draft.addSlot_builder (placed_of_inv hi).index _ _ _) ?_
    refine .bind_eq (store_builder hplaced) ?_
    refine bindVariable_steps.bind ?_
    rintro _ _ ⟨c, hd, rfl⟩
    rw [Draft.emit_scopes] at hd
    have hc := spill_preserves (i := i) hi hs hty hp hd
    rw [← hc.grows.function.signature] at hrest
    exact (ih hc.inv hc.visible hps hrest).mono fun _ d' h => .cons hd h

end spills

/-! ## Ends of bodies -/

/-- How the block that a body ends in is treated. -/
inductive Closes (ret : Ty) (d : Draft) : Draft → Prop
  | closed (closed : d.function.closedAt d.block = true) : Closes ret d d
  | void (open_ : d.function.closedAt d.block = false) (void : ret = .void) :
    Closes ret d (d.close (.ret none))
  | dead (open_ : d.function.closedAt d.block = false) (object : ret ≠ .void)
    (dead : ¬ d.function.Entered d.block) : Closes ret d (d.close .unreachable)
  | live (open_ : d.function.closedAt d.block = false) (object : ret ≠ .void)
    (live : d.function.Entered d.block) : Closes ret d d

section closes

variable {k : Nat} {d d' : Draft} {ret : Ty}

theorem closeBody_steps (hi : d.Inv k []) :
    Steps k (closeBody ret (d.builder k)) (fun _ d' => Closes ret d d') := by
  have hp := placed_of_inv hi
  unfold closeBody
  refine .bind_eq (Draft.isTerminated_builder hp.index) ?_
  cases hc : d.function.closedAt d.block with
  | true => exact ⟨d, rfl, .closed hc⟩
  | false =>
    rw [if_neg (by simp)]
    by_cases hv : ret = .void
    · rw [if_pos hv]
      exact .of_eq (Draft.terminate_builder hp _) (.void hc hv)
    rw [if_neg hv]
    refine .bind_eq (get_run _) ?_
    refine .bind_eq (Draft.function_builder hp.index) ?_
    by_cases he : d.function.entry? = some d.block
    · rw [if_neg (by simpa using he)]
      exact ⟨d, rfl, .live hc hv (.inl he)⟩
    rw [if_pos (by simpa using he)]
    have hex : ∀ i ∈ d.function.layout, ∃ b, d.function.blocks[i]? = some b := fun i hl =>
      ⟨_, List.getElem?_eq_getElem (hp.layout i hl)⟩
    obtain ⟨ps, hps⟩ := Function.predecessors_of_exists hex d.block
    have hmem := fun i => @Function.mem_predecessors d.function d.block ps hps i
    dsimp only
    rw [hps]
    cases ps with
    | nil =>
      refine .of_eq (Draft.terminate_builder hp .unreachable) (.dead hc hv ?_)
      rintro (h | ⟨j, hj, b, hb, hg⟩)
      · exact he h
      · exact List.not_mem_nil ((hmem j).2 ⟨hj, b, hb, hg⟩)
    | cons j js =>
      obtain ⟨hj, b, hb, hg⟩ := (hmem j).1 List.mem_cons_self
      exact ⟨d, rfl, .live hc hv (.inr ⟨j, hj, b, hb, hg⟩)⟩

/-- A body without marks of unreachable code is finished once its last block is closed. -/
theorem finished_of_inv (hi : d.Inv k []) (hc : d.function.closedAt d.block = true) :
    d.function.Finished d.module :=
  ⟨⟨d.block, hi.shape, hc⟩, hi.typed, fun i b hb ht => absurd ht (hi.reachable i b hb)⟩

theorem finished_of_dead (hi : d.Inv k []) (ho : d.function.closedAt d.block = false)
    (hd : ¬ d.function.Entered d.block) :
    (d.close .unreachable).function.Finished (d.close .unreachable).module := by
  obtain ⟨b, hb⟩ := hi.shape.cur_block
  have hsucc : ∀ j ∈ Terminator.unreachable.successors, j ∈ ([] : List Nat) := by
    simp [Terminator.successors]
  rw [Draft.close_of_open ho]
  refine ⟨⟨d.block, hi.shape.close hsucc, Function.closedAt_close_self hb⟩,
    hi.typed.close hi.shape ho hsucc trivial, fun i c hc ht hent => ?_⟩
  -- only the last block has the mark, and closing it gave no block a new successor
  have hi' : i = d.block := by
    by_contra hne
    rw [Function.getElem?_close_of_ne hne] at hc
    exact hi.reachable i c hc ht
  subst hi'
  apply hd
  rcases hent with he | ⟨j, hj, c', hc', hg⟩
  · exact .inl he
  · by_cases hj' : j = d.block
    · subst hj'
      rw [Function.getElem?_close_self hb] at hc'
      cases hc'
      simp [Function.goesTo, Terminator.successors] at hg
    · rw [Function.getElem?_close_of_ne hj'] at hc'
      exact .inr ⟨j, hj, c', hc', hg⟩

/-- A body ends finished, or with its last block open where it should return something. -/
theorem closes_cases (hi : d.Inv k []) (hr : d.function.signature.ret = ret)
    (h : Closes ret d d') :
    d'.function.Finished d'.module ∨
      (d' = d ∧ ret ≠ .void ∧ d.function.closedAt d.block = false) := by
  cases h with
  | closed hc => exact .inl (finished_of_inv hi hc)
  | void ho hv =>
    have hi' := hi.close (t := .ret none) (hr.trans hv) (by simp [Terminator.successors]) (by simp)
    exact .inl (finished_of_inv hi' hi.closedAt_close)
  | dead ho hv hd => exact .inl (finished_of_dead hi ho hd)
  | live ho hv hl => exact .inr ⟨rfl, hv, ho⟩

theorem closes_extends (h : Closes ret d d') : d.Extends d' ∧ d'.scopes = d.scopes := by
  cases h with
  | closed => exact ⟨.refl d, rfl⟩
  | void => exact ⟨.close, Draft.close_scopes⟩
  | dead => exact ⟨.close, Draft.close_scopes⟩
  | live => exact ⟨.refl d, rfl⟩

end closes

end Lowering

end SlotIR
