import Mathlib.Data.List.Range
import SlotIR.Proofs.Verifier

/-!
# Bodies under construction

A body grows by a few operations: a block is created, a block is laid out, a slot is added, an
instruction is appended to an open block, and an open block is closed. `Shape` is what holds of the
blocks of a function between any two of them: the layout ends with the block that is being written,
every other laid-out block is closed, the blocks that wait for their place are empty, and control
only goes to later blocks. Each operation has one lemma for `Shape` and one for `Extends`, the
relation between a function and what it grows to.
-/

namespace SlotIR

namespace Function

/-- Whether a block has its terminator. -/
def closedAt (f : Function) (i : Nat) : Bool :=
  match f.blocks[i]? with
  | some b => b.terminator.isSome
  | none => false

def addBlock (f : Function) (name : String) : Function :=
  { f with blocks := f.blocks ++ [{ name }] }

/-- Puts a block at the end of the body. -/
def place (f : Function) (i : Nat) : Function :=
  { f with layout := f.layout ++ [i] }

def addSlot (f : Function) (s : Slot) : Function :=
  { f with slots := f.slots ++ [s] }

/-- The instruction that gets the next result, unless its type is `void`. -/
def nextInst (f : Function) (ty : Ty) (action : Action) : Inst :=
  { result := if ty = .void then none else some f.nextValue, ty, action }

/-- Appends an instruction to a block. -/
def emit (f : Function) (i : Nat) (ty : Ty) (action : Action) : Function :=
  { f with
    blocks := f.blocks.modify i fun b => { b with insts := b.insts ++ [f.nextInst ty action] }
    nextValue := if ty = .void then f.nextValue else f.nextValue + 1 }

/-- Ends a block. -/
def close (f : Function) (i : Nat) (t : Terminator) : Function :=
  { f with blocks := f.blocks.modify i fun b => { b with terminator := some t } }

variable {f : Function} {i j : Nat} {b : Block}

/-! ## Blocks after an operation -/

theorem closedAt_of_some (h : f.blocks[i]? = some b) : f.closedAt i = b.terminator.isSome := by
  rw [closedAt, h]

theorem exists_of_closedAt (h : f.closedAt i = true) :
    ∃ b t, f.blocks[i]? = some b ∧ b.terminator = some t := by
  unfold closedAt at h
  cases hb : f.blocks[i]? with
  | none => simp [hb] at h
  | some b =>
    simp only [hb] at h
    obtain ⟨t, ht⟩ := Option.isSome_iff_exists.1 h
    exact ⟨b, t, rfl, ht⟩

theorem open_of_closedAt (hb : f.blocks[i]? = some b) (h : f.closedAt i = false) :
    b.terminator = none := by
  rw [closedAt_of_some hb] at h
  simpa using h

theorem getElem?_addBlock_of_lt {name : String} (h : i < f.blocks.length) :
    (f.addBlock name).blocks[i]? = f.blocks[i]? :=
  List.getElem?_append_left h

theorem getElem?_addBlock_length {name : String} :
    (f.addBlock name).blocks[f.blocks.length]? = some { name } := by
  simp [addBlock]

theorem getElem?_addBlock {name : String} (h : (f.addBlock name).blocks[i]? = some b) :
    f.blocks[i]? = some b ∨ i = f.blocks.length ∧ b = { name } := by
  by_cases hi : i < f.blocks.length
  · rw [getElem?_addBlock_of_lt hi] at h
    exact .inl h
  · obtain ⟨hlt, -⟩ := List.getElem?_eq_some_iff.1 h
    have hi' : i = f.blocks.length := by
      simp only [addBlock, List.length_append, List.length_singleton] at hlt
      omega
    subst hi'
    rw [getElem?_addBlock_length] at h
    exact .inr ⟨rfl, (Option.some.inj h).symm⟩

theorem getElem?_emit_self {ty : Ty} {a : Action} (h : f.blocks[i]? = some b) :
    (f.emit i ty a).blocks[i]? = some { b with insts := b.insts ++ [f.nextInst ty a] } := by
  simp [emit, h]

theorem getElem?_emit_of_ne {ty : Ty} {a : Action} (h : j ≠ i) :
    (f.emit i ty a).blocks[j]? = f.blocks[j]? := by
  simp [emit, Ne.symm h]

theorem getElem?_close_self {t : Terminator} (h : f.blocks[i]? = some b) :
    (f.close i t).blocks[i]? = some { b with terminator := some t } := by
  simp [close, h]

theorem getElem?_close_of_ne {t : Terminator} (h : j ≠ i) :
    (f.close i t).blocks[j]? = f.blocks[j]? := by
  simp [close, Ne.symm h]

theorem idsAt_addBlock {name : String} (i : Nat) : (f.addBlock name).idsAt i = f.idsAt i := by
  by_cases h : i < f.blocks.length
  · unfold idsAt
    rw [getElem?_addBlock_of_lt h]
  · have hn : f.blocks[i]? = none := List.getElem?_eq_none (by omega)
    cases hb : (f.addBlock name).blocks[i]? with
    | none => simp [idsAt, hb, hn]
    | some b =>
      rcases getElem?_addBlock hb with hs | ⟨-, rfl⟩
      · rw [hn] at hs
        cases hs
      · simp [idsAt, hb, hn]

theorem idsAt_close {t : Terminator} (j : Nat) : (f.close i t).idsAt j = f.idsAt j := by
  by_cases h : j = i
  · subst h
    cases hb : f.blocks[j]? with
    | none => simp [idsAt, close, hb]
    | some b => rw [idsAt_of_some hb, idsAt_of_some (getElem?_close_self hb)]
  · unfold idsAt
    rw [getElem?_close_of_ne h]

theorem idsAt_emit_of_ne {ty : Ty} {a : Action} (h : j ≠ i) :
    (f.emit i ty a).idsAt j = f.idsAt j := by
  unfold idsAt
  rw [getElem?_emit_of_ne h]

theorem idsAt_emit_self {ty : Ty} {a : Action} (h : f.blocks[i]? = some b) :
    (f.emit i ty a).idsAt i = f.idsAt i ++ (f.nextInst ty a).result.toList := by
  rw [idsAt_of_some h, idsAt_of_some (getElem?_emit_self h), resultIds_append, resultIds_cons,
    resultIds_nil, List.append_nil]

theorem closedAt_emit {ty : Ty} {a : Action} (j : Nat) :
    (f.emit i ty a).closedAt j = f.closedAt j := by
  by_cases h : j = i
  · subst h
    cases hb : f.blocks[j]? with
    | none => simp [closedAt, emit, hb]
    | some b => rw [closedAt_of_some hb, closedAt_of_some (getElem?_emit_self hb)]
  · unfold closedAt
    rw [getElem?_emit_of_ne h]

theorem closedAt_close_self {t : Terminator} (h : f.blocks[i]? = some b) :
    (f.close i t).closedAt i = true := by
  rw [closedAt_of_some (getElem?_close_self h)]
  rfl

theorem closedAt_close_of_ne {t : Terminator} (h : j ≠ i) :
    (f.close i t).closedAt j = f.closedAt j := by
  unfold closedAt
  rw [getElem?_close_of_ne h]

theorem closedAt_addBlock {name : String} (i : Nat) :
    (f.addBlock name).closedAt i = f.closedAt i := by
  by_cases h : i < f.blocks.length
  · unfold closedAt
    rw [getElem?_addBlock_of_lt h]
  · have hn : f.blocks[i]? = none := List.getElem?_eq_none (by omega)
    cases hb : (f.addBlock name).blocks[i]? with
    | none => simp [closedAt, hb, hn]
    | some b =>
      rcases getElem?_addBlock hb with hs | ⟨-, rfl⟩
      · rw [hn] at hs
        cases hs
      · simp [closedAt, hb, hn]

/-! ## Shape -/

/-- What holds of the blocks of a function while `cur` is being written and the blocks in `pend` wait
for their place. -/
structure Shape (f : Function) (cur : Nat) (pend : List Nat) : Prop where
  last : ∃ done, f.layout = done ++ [cur]
  perm : (f.layout ++ pend).Perm (List.range f.blocks.length)
  entry : f.entry? = some 0
  waiting : ∀ i ∈ pend, ∃ name, f.blocks[i]? = some { name }
  closed : ∀ i ∈ f.layout, i ≠ cur → f.closedAt i = true
  forward : ∀ i ∈ f.layout, ∀ b, f.blocks[i]? = some b → ∀ j, goesTo b j = true →
    j ∈ f.layout ++ pend ∧ f.layout.idxOf i < f.layout.idxOf j
  ids : f.layout.flatMap f.idsAt = List.range f.nextValue

theorem goesTo_of_open (h : b.terminator = none) : goesTo b j = false := by
  simp [goesTo, h]

namespace Shape

variable {cur : Nat} {pend : List Nat}

theorem cur_mem (h : f.Shape cur pend) : cur ∈ f.layout := by
  obtain ⟨done, hl⟩ := h.last
  simp [hl]

theorem nodup (h : f.Shape cur pend) : (f.layout ++ pend).Nodup :=
  h.perm.nodup_iff.2 List.nodup_range

theorem mem_iff (h : f.Shape cur pend) : i ∈ f.layout ++ pend ↔ i < f.blocks.length := by
  rw [h.perm.mem_iff, List.mem_range]

theorem lt_of_layout (h : f.Shape cur pend) (hi : i ∈ f.layout) : i < f.blocks.length :=
  h.mem_iff.1 (List.mem_append_left _ hi)

theorem lt_of_pend (h : f.Shape cur pend) (hi : i ∈ pend) : i < f.blocks.length :=
  h.mem_iff.1 (List.mem_append_right _ hi)

theorem not_layout (h : f.Shape cur pend) (hi : i ∈ pend) : i ∉ f.layout := fun hl =>
  (List.nodup_append.1 h.nodup).2.2 i hl i hi rfl

theorem cur_block (h : f.Shape cur pend) : ∃ b, f.blocks[cur]? = some b :=
  ⟨_, List.getElem?_eq_getElem (h.lt_of_layout h.cur_mem)⟩

theorem ne_cur (h : f.Shape cur pend) (hi : i ∈ pend) : i ≠ cur := by
  rintro rfl
  exact h.not_layout hi h.cur_mem

theorem idsAt_pend (h : f.Shape cur pend) (hi : i ∈ pend) : f.idsAt i = [] := by
  obtain ⟨name, hb⟩ := h.waiting i hi
  rw [idsAt_of_some hb, resultIds_nil]

theorem idxOf_pend (h : f.Shape cur pend) (hi : i ∈ pend) : f.layout.idxOf i = f.layout.length :=
  List.idxOf_eq_length (h.not_layout hi)

/-- The order in which blocks wait does not matter. -/
theorem permute {pend' : List Nat} (h : f.Shape cur pend) (hp : pend.Perm pend') :
    f.Shape cur pend' where
  last := h.last
  perm := (hp.append_left f.layout).symm.trans h.perm
  entry := h.entry
  waiting i hi := h.waiting i (hp.mem_iff.2 hi)
  closed := h.closed
  forward i hi b hb j hj := by
    obtain ⟨hm, hlt⟩ := h.forward i hi b hb j hj
    exact ⟨(hp.append_left f.layout).mem_iff.1 hm, hlt⟩
  ids := h.ids

theorem addSlot (h : f.Shape cur pend) (s : Slot) : (f.addSlot s).Shape cur pend :=
  ⟨h.last, h.perm, h.entry, h.waiting, h.closed, h.forward, h.ids⟩

theorem addBlock (h : f.Shape cur pend) (name : String) :
    (f.addBlock name).Shape cur (f.blocks.length :: pend) where
  last := h.last
  perm := by
    have hlen : (f.addBlock name).blocks.length = f.blocks.length + 1 := by simp [Function.addBlock]
    rw [hlen, List.range_succ]
    refine List.perm_middle.trans ((h.perm.cons _).trans ?_)
    exact (List.perm_append_singleton ..).symm
  entry := h.entry
  waiting i hi := by
    rcases List.mem_cons.1 hi with rfl | hi
    · exact ⟨name, getElem?_addBlock_length⟩
    · rw [getElem?_addBlock_of_lt (h.lt_of_pend hi)]
      exact h.waiting i hi
  closed i hi hne := by
    rw [closedAt_addBlock]
    exact h.closed i hi hne
  forward i hi b hb j hj := by
    rw [getElem?_addBlock_of_lt (h.lt_of_layout hi)] at hb
    obtain ⟨hm, hlt⟩ := h.forward i hi b hb j hj
    refine ⟨?_, hlt⟩
    rcases List.mem_append.1 hm with hm | hm
    · exact List.mem_append_left _ hm
    · exact List.mem_append_right _ (List.mem_cons_of_mem _ hm)
  ids := by
    rw [funext (f.idsAt_addBlock)]
    exact h.ids

theorem idxOf_lt_append {l : List Nat} {x : Nat} (hi : i ∈ l) (h : l.idxOf i < l.idxOf j) :
    (l ++ [x]).idxOf i < (l ++ [x]).idxOf j := by
  rw [List.idxOf_append_of_mem hi]
  by_cases hj : j ∈ l
  · rwa [List.idxOf_append_of_mem hj]
  · rw [List.idxOf_append_of_notMem hj]
    have := List.idxOf_lt_length_of_mem hi
    omega

/-- Writing goes on in a block that waited, once the one before is closed. -/
theorem place (h : f.Shape cur (j :: pend)) (hc : f.closedAt cur = true) :
    (f.place j).Shape j pend := by
  have hj : j ∈ j :: pend := List.mem_cons_self
  obtain ⟨name, hb⟩ := h.waiting j hj
  refine ⟨⟨f.layout, rfl⟩, ?_, ?_, ?_, ?_, ?_, ?_⟩
  · have e : (f.place j).layout ++ pend = f.layout ++ j :: pend := by
      simp [Function.place, List.append_assoc]
    rw [e]
    exact h.perm
  · have he : f.layout.head? = some 0 := h.entry
    show (f.layout ++ [j]).head? = some 0
    rw [List.head?_append, he]
    rfl
  · intro i hi
    exact h.waiting i (List.mem_cons_of_mem _ hi)
  · intro i hi hne
    have hi : i ∈ f.layout := by
      rcases List.mem_append.1 hi with hi | hi
      · exact hi
      · exact absurd (List.mem_singleton.1 hi) hne
    by_cases hcur : i = cur
    · rw [hcur]
      exact hc
    · exact h.closed i hi hcur
  · intro i hi c hci k hk
    rcases List.mem_append.1 hi with hi | hi
    · obtain ⟨hm, hlt⟩ := h.forward i hi c hci k hk
      refine ⟨?_, idxOf_lt_append hi hlt⟩
      show k ∈ (f.layout ++ [j]) ++ pend
      rw [List.append_assoc]
      exact hm
    · -- the block that was just placed is open and leads nowhere
      cases List.mem_singleton.1 hi
      cases hb.symm.trans hci
      rw [goesTo_of_open rfl] at hk
      cases hk
  · show (f.layout ++ [j]).flatMap f.idsAt = _
    rw [List.flatMap_append, List.flatMap_singleton, h.idsAt_pend hj, List.append_nil]
    exact h.ids

theorem emit (h : f.Shape cur pend) (ty : Ty) (a : Action) :
    (f.emit cur ty a).Shape cur pend := by
  obtain ⟨done, hl⟩ := h.last
  obtain ⟨b, hb⟩ := h.cur_block
  have hlen : (f.emit cur ty a).blocks.length = f.blocks.length := by simp [Function.emit]
  refine ⟨h.last, ?_, h.entry, ?_, ?_, ?_, ?_⟩
  · rw [hlen]
    exact h.perm
  · intro i hi
    rw [getElem?_emit_of_ne (h.ne_cur hi)]
    exact h.waiting i hi
  · intro i hi hne
    rw [closedAt_emit]
    exact h.closed i hi hne
  · intro i hi c hc k hk
    by_cases hcur : i = cur
    · subst hcur
      rw [getElem?_emit_self hb] at hc
      cases hc
      exact h.forward i hi b hb k hk
    · rw [getElem?_emit_of_ne hcur] at hc
      exact h.forward i hi c hc k hk
  · have hnd : (done ++ [cur]).Nodup := by
      rw [← hl]
      exact (List.nodup_append.1 h.nodup).1
    have hdone : done.flatMap (f.emit cur ty a).idsAt = done.flatMap f.idsAt := by
      apply List.flatMap_congr
      intro i hi
      apply idsAt_emit_of_ne
      rintro rfl
      exact (List.nodup_append.1 hnd).2.2 i hi i List.mem_cons_self rfl
    have hids := h.ids
    rw [hl, List.flatMap_append, List.flatMap_singleton] at hids
    show f.layout.flatMap _ = _
    rw [hl, List.flatMap_append, List.flatMap_singleton, hdone, idsAt_emit_self hb,
      ← List.append_assoc, hids]
    by_cases hv : ty = .void <;> simp [Function.emit, nextInst, hv, List.range_succ]

theorem close (h : f.Shape cur pend) {t : Terminator} (ht : ∀ j ∈ t.successors, j ∈ pend) :
    (f.close cur t).Shape cur pend := by
  obtain ⟨b, hb⟩ := h.cur_block
  have hlen : (f.close cur t).blocks.length = f.blocks.length := by simp [Function.close]
  refine ⟨h.last, ?_, h.entry, ?_, ?_, ?_, ?_⟩
  · rw [hlen]
    exact h.perm
  · intro i hi
    rw [getElem?_close_of_ne (h.ne_cur hi)]
    exact h.waiting i hi
  · intro i hi hne
    rw [closedAt_close_of_ne hne]
    exact h.closed i hi hne
  · intro i hi c hc k hk
    by_cases hcur : i = cur
    · subst hcur
      rw [getElem?_close_self hb] at hc
      cases hc
      have hk := ht k ((goesTo_iff rfl).1 hk)
      refine ⟨List.mem_append_right _ hk, ?_⟩
      show f.layout.idxOf i < f.layout.idxOf k
      rw [h.idxOf_pend hk]
      exact List.idxOf_lt_length_of_mem hi
    · rw [getElem?_close_of_ne hcur] at hc
      exact h.forward i hi c hc k hk
  · rw [funext (f.idsAt_close)]
    exact h.ids

/-- A result that any block defines has the type of the instruction that defines it. -/
theorem resultType? (h : f.Shape cur pend) {id : Nat} {t : Ty} (hr : (id, t) ∈ f.results) :
    f.resultType? id = some t := by
  obtain ⟨i, b, hb, inst, hinst, hid, rfl⟩ := mem_results.1 hr
  have hlt := (List.getElem?_eq_some_iff.1 hb).1
  rcases List.mem_append.1 (h.mem_iff.2 hlt) with hi | hi
  · refine f.resultType?_of_attached ?_ ?_ hi hb hinst hid
    · rw [h.ids]
      exact List.nodup_range
    · intro j hj hnl _ _ id' hid'
      have hp : j ∈ pend := by
        rcases List.mem_append.1 (h.mem_iff.2 hj) with hl | hp
        · exact absurd hl hnl
        · exact hp
      rw [h.idsAt_pend hp] at hid'
      cases hid'
  · obtain ⟨name, hn⟩ := h.waiting i hi
    cases hb.symm.trans hn
    cases hinst

end Shape

/-! ## Growth -/

/-- What a function keeps while its body grows: slots, blocks and instructions stay where they are,
and a closed block does not change. -/
structure Extends (f f' : Function) : Prop where
  name : f'.name = f.name
  signature : f'.signature = f.signature
  slots : f.slots <+: f'.slots
  layout : f.layout <+: f'.layout
  nextValue : f.nextValue ≤ f'.nextValue
  blocks : ∀ (i : Nat) (b : Block), f.blocks[i]? = some b →
    ∃ b', f'.blocks[i]? = some b' ∧ b.insts <+: b'.insts ∧ (b.terminator ≠ none → b' = b)

namespace Extends

variable {f' f'' : Function}

theorem refl (f : Function) : f.Extends f :=
  ⟨rfl, rfl, List.prefix_rfl, List.prefix_rfl, Nat.le_refl _,
    fun _ b h => ⟨b, h, List.prefix_rfl, fun _ => rfl⟩⟩

theorem trans (h : f.Extends f') (h' : f'.Extends f'') : f.Extends f'' where
  name := h'.name.trans h.name
  signature := h'.signature.trans h.signature
  slots := h.slots.trans h'.slots
  layout := h.layout.trans h'.layout
  nextValue := Nat.le_trans h.nextValue h'.nextValue
  blocks i b hb := by
    obtain ⟨b', hb', hp, hc⟩ := h.blocks i b hb
    obtain ⟨b'', hb'', hp', hc'⟩ := h'.blocks i b' hb'
    refine ⟨b'', hb'', hp.trans hp', fun ht => ?_⟩
    have e := hc ht
    subst e
    exact hc' ht

theorem addSlot (f : Function) (s : Slot) : f.Extends (f.addSlot s) :=
  { refl f with slots := List.prefix_append .. }

theorem place (f : Function) (i : Nat) : f.Extends (f.place i) :=
  { refl f with layout := List.prefix_append .. }

theorem addBlock (f : Function) (name : String) : f.Extends (f.addBlock name) :=
  { refl f with
    blocks := fun i b hb => by
      have hlt := (List.getElem?_eq_some_iff.1 hb).1
      exact ⟨b, (getElem?_addBlock_of_lt hlt).trans hb, List.prefix_rfl, fun _ => rfl⟩ }

theorem emit (ho : f.closedAt i = false) (ty : Ty) (a : Action) : f.Extends (f.emit i ty a) :=
  { refl f with
    nextValue := by
      show f.nextValue ≤ if ty = .void then f.nextValue else f.nextValue + 1
      split <;> omega
    blocks := fun j b hb => by
      by_cases hj : j = i
      · subst hj
        refine ⟨_, getElem?_emit_self hb, List.prefix_append .., fun ht => ?_⟩
        exact absurd (open_of_closedAt hb ho) ht
      · exact ⟨b, (getElem?_emit_of_ne hj).trans hb, List.prefix_rfl, fun _ => rfl⟩ }

theorem close (ho : f.closedAt i = false) (t : Terminator) : f.Extends (f.close i t) :=
  { refl f with
    blocks := fun j b hb => by
      by_cases hj : j = i
      · subst hj
        refine ⟨_, getElem?_close_self hb, List.prefix_rfl, fun ht => ?_⟩
        exact absurd (open_of_closedAt hb ho) ht
      · exact ⟨b, (getElem?_close_of_ne hj).trans hb, List.prefix_rfl, fun _ => rfl⟩ }

theorem mem_results {id : Nat} {t : Ty} (h : f.Extends f') (hr : (id, t) ∈ f.results) :
    (id, t) ∈ f'.results := by
  obtain ⟨i, b, hb, inst, hinst, hid, ht⟩ := Function.mem_results.1 hr
  obtain ⟨b', hb', hp, -⟩ := h.blocks i b hb
  exact Function.mem_results.2 ⟨i, b', hb', inst, hp.subset hinst, hid, ht⟩

theorem slot (h : f.Extends f') {s : Slot} (hs : f.slots[i]? = some s) : f'.slots[i]? = some s := by
  obtain ⟨more, e⟩ := h.slots
  rw [← e, List.getElem?_append_left (List.getElem?_eq_some_iff.1 hs).1]
  exact hs

theorem keepsTypes (h : f.Extends f') {cur : Nat} {pend : List Nat} (hs : f'.Shape cur pend) :
    f.KeepsTypes f' where
  params := by rw [h.signature]
  slots := h.slot
  results hr := hs.resultType? (h.mem_results (mem_results_of_resultType? hr))

end Extends

/-! ## Typing -/

/-- Slots are for variables, and all code that was written so far obeys the typing rules. -/
structure TypedIn (m : Module) (f : Function) : Prop where
  slots : ∀ s ∈ f.slots, s.ty.isArithmetic = true
  blocks : ∀ (i : Nat) (b : Block), f.blocks[i]? = some b → b.Typed m f

namespace TypedIn

variable {m : Module} {f' : Function} {cur : Nat} {pend : List Nat}

theorem grow {m' : Module} (hm : m.Grows m') (h : f.TypedIn m) : f.TypedIn m' :=
  ⟨h.slots, fun i b hb => (h.blocks i b hb).mono hm ⟨rfl, id, id⟩ rfl⟩

/-- Blocks that did not change stay typed in a function that has grown. -/
theorem kept (h : f.TypedIn m) (he : f.Extends f') (hs : f'.Shape cur pend)
    (hb : f.blocks[i]? = some b) : b.Typed m f' :=
  (h.blocks i b hb).mono (.refl m) (he.keepsTypes hs) (by rw [he.signature])

theorem addSlot (h : f.TypedIn m) (hs : f.Shape cur pend) {s : Slot}
    (ht : s.ty.isArithmetic = true) : (f.addSlot s).TypedIn m := by
  refine ⟨?_, fun i b hb => h.kept (.addSlot f s) (hs.addSlot s) hb⟩
  intro s' hs'
  rcases List.mem_append.1 hs' with hs' | hs'
  · exact h.slots s' hs'
  · rwa [List.mem_singleton.1 hs']

theorem place (h : f.TypedIn m) (hs : f.Shape cur (i :: pend)) (hc : f.closedAt cur = true) :
    (f.place i).TypedIn m :=
  ⟨h.slots, fun _ _ hb => h.kept (.place f i) (hs.place hc) hb⟩

theorem addBlock (h : f.TypedIn m) (hs : f.Shape cur pend) (name : String) :
    (f.addBlock name).TypedIn m := by
  refine ⟨h.slots, fun i b hb => ?_⟩
  rcases getElem?_addBlock hb with hb | ⟨-, rfl⟩
  · exact h.kept (.addBlock f name) (hs.addBlock name) hb
  · exact ⟨trivial, nofun⟩

theorem emit (h : f.TypedIn m) (hs : f.Shape cur pend) (ho : f.closedAt cur = false) {ty : Ty}
    {a : Action} (hi : (f.nextInst ty a).Typed m (m.Uses f (f.idsAt cur))) :
    (f.emit cur ty a).TypedIn m := by
  have he := Extends.emit ho ty a
  have hs' := hs.emit ty a
  refine ⟨h.slots, fun i b hb => ?_⟩
  by_cases hcur : i = cur
  · subst hcur
    obtain ⟨c, hc⟩ := hs.cur_block
    rw [getElem?_emit_self hc] at hb
    cases hb
    have hold := h.kept he hs' hc
    refine ⟨instsTyped_append.2 ⟨hold.insts, ?_, trivial⟩, fun t ht => ?_⟩
    · refine hi.mono (.refl m) fun o t ho => ?_
      refine (ho.mono (.refl m) (he.keepsTypes hs')).weaken fun id hid => ?_
      rw [idsAt_of_some hc] at hid
      simpa using hid
    · rw [open_of_closedAt hc ho] at ht
      cases ht
  · rw [getElem?_emit_of_ne hcur] at hb
    exact h.kept he hs' hb

theorem close (h : f.TypedIn m) (hs : f.Shape cur pend) (ho : f.closedAt cur = false)
    {t : Terminator} (hp : ∀ j ∈ t.successors, j ∈ pend) (ht : t.Typed m f (f.idsAt cur)) :
    (f.close cur t).TypedIn m := by
  have he := Extends.close ho t
  have hs' := hs.close hp
  refine ⟨h.slots, fun i b hb => ?_⟩
  by_cases hcur : i = cur
  · subst hcur
    obtain ⟨c, hc⟩ := hs.cur_block
    rw [getElem?_close_self hc] at hb
    cases hb
    refine ⟨(h.kept he hs' hc).insts, fun t' ht' => ?_⟩
    cases ht'
    rw [idsAt_of_some hc] at ht
    exact ht.mono (.refl m) (he.keepsTypes hs') (by rw [he.signature])
  · rw [getElem?_close_of_ne hcur] at hb
    exact h.kept he hs' hb

end TypedIn

end Function

end SlotIR
