import SlotIR.Proofs.Preservation
import SlotIR.Proofs.Renaming

/-!
# Labels of generated code

The entry of a function that was generated is labelled after the function, and every other block
has one of four labels that have nothing to do with names (`Function.Labelled`,
`generated_labelled`). So other names for everything that carries one leave all labels of a
generated module alone but those of entries (`rename_eq_renamed`).
-/

namespace SlotIR

/-- The first block has the label of the function's entry, and the others have inner labels. -/
def Function.Labelled (f : Function) : Prop :=
  ∃ inner, f.blocks.map (·.name) = entryLabel f.name :: inner ∧
    ∀ label ∈ inner, label ∈ innerLabels

namespace Function.Labelled

variable {f : Function}

theorem addBlock (h : f.Labelled) {label : String} (hl : label ∈ innerLabels) :
    (f.addBlock label).Labelled := by
  obtain ⟨inner, e, hi⟩ := h
  refine ⟨inner ++ [label], ?_, List.forall_mem_append.2 ⟨hi, List.forall_mem_singleton.2 hl⟩⟩
  rw [Function.addBlock, List.map_append, e]
  rfl

theorem addBlocks {labels : List String} (h : f.Labelled)
    (hl : ∀ label ∈ labels, label ∈ innerLabels) : (labels.foldl Function.addBlock f).Labelled := by
  induction labels generalizing f with
  | nil => exact h
  | cons label labels ih =>
    obtain ⟨hlabel, hlabels⟩ := List.forall_mem_cons.1 hl
    exact ih (h.addBlock hlabel) hlabels

/-- A change of one block that keeps its label. -/
theorem modify (h : f.Labelled) {g : Function} {i : Nat} {change : Block → Block}
    (hb : g.blocks = f.blocks.modify i change) (hc : ∀ b, (change b).name = b.name)
    (hn : g.name = f.name) : g.Labelled := by
  obtain ⟨inner, e, hi⟩ := h
  refine ⟨inner, ?_, hi⟩
  rw [hb, hn, ← e]
  apply List.ext_getElem?
  intro j
  simp only [List.getElem?_map, List.getElem?_modify]
  split
  · cases f.blocks[j]? <;> simp [hc]
  · simp

end Function.Labelled

/-! ## Bodies -/

namespace Draft

/-- The labels of the function that is written. -/
abbrev Labelled (d : Draft) : Prop := d.function.Labelled

variable {d : Draft}

theorem Labelled.moveTo (h : d.Labelled) (i : Nat) : (d.moveTo i).Labelled := h

theorem Labelled.enter (h : d.Labelled) (scope : ScopeId) : (d.enter scope).Labelled := h

theorem Labelled.leave (h : d.Labelled) (inner : ScopeId) : (d.leave inner).Labelled := h

theorem Labelled.addSlot (h : d.Labelled) (s : Slot) : (d.addSlot s).Labelled := h

theorem Labelled.reopen (h : d.Labelled) : d.reopen.Labelled := by
  unfold Draft.reopen
  split
  · exact Function.Labelled.addBlock h (by decide)
  · exact h

theorem Labelled.emit (h : d.Labelled) (ty : Ty) (a : Action) : (d.emit ty a).Labelled :=
  Function.Labelled.modify h.reopen rfl (fun _ => rfl) rfl

theorem Labelled.close (h : d.Labelled) (t : Terminator) : (d.close t).Labelled :=
  Function.Labelled.modify h.reopen rfl (fun _ => rfl) rfl

theorem Labelled.fallThrough (h : d.Labelled) (target : Nat) : (d.fallThrough target).Labelled := by
  unfold Draft.fallThrough
  split
  · exact h
  · exact h.close _

theorem Labelled.fork (h : d.Labelled) (cond : Operand) {labels : List String}
    (hl : ∀ label ∈ labels, label ∈ innerLabels) : (d.fork cond labels).Labelled := by
  have hadd : (d.addBlocks ("then" :: labels)).Labelled :=
    Function.Labelled.addBlocks h (List.forall_mem_cons.2 ⟨by decide, hl⟩)
  exact (hadd.close _).moveTo _

end Draft

namespace Lowering

open Syntax (Node)

theorem convertIn_labelled {d d' : Draft} {v w : Value} {ty : Ty}
    (h : convertIn d v ty = some (w, d')) (hd : d.Labelled) : d'.Labelled := by
  unfold convertIn at h
  split at h
  · cases h
    exact hd
  · obtain ⟨op, -, e⟩ := Option.map_eq_some_iff.1 h
    cases e
    exact hd.emit _ _

theorem conditionIn_labelled {d d' : Draft} {v : Value} {cond : Operand}
    (h : conditionIn d v = some (cond, d')) (hd : d.Labelled) : d'.Labelled := by
  obtain ⟨⟨w, d₁⟩, hc, e⟩ := Option.map_eq_some_iff.1 h
  cases e
  exact (convertIn_labelled hc hd).emit _ _

/-- Every emission adds blocks with inner labels only. -/
structure KeepsLabels (sub : Emission) : Prop where
  step : ∀ {n : Node} {scope : ScopeId} {d d' : Draft} {r : Lowered}, sub n scope d r d' →
    d.Labelled → d'.Labelled

section labels

variable {sub : Emission} {scope : ScopeId} {d d' : Draft}

theorem emitsAll_labelled (hsub : KeepsLabels sub) {ns : List Node}
    (h : EmitsAll sub scope ns d d') (hd : d.Labelled) : d'.Labelled := by
  induction h with
  | nil => exact hd
  | cons head _ ih => exact ih (hsub.step head hd)

theorem emitsValues_labelled (hsub : KeepsLabels sub) {ns : List Node} {vs : List Value}
    (h : EmitsValues sub scope ns d vs d') (hd : d.Labelled) : d'.Labelled := by
  induction h with
  | nil => exact hd
  | cons head _ ih => exact ih (hsub.step head hd)

theorem emitsDeclarators_labelled (hsub : KeepsLabels sub) {ty : Ty} {ns : List Node}
    (h : EmitsDeclarators sub scope ty ns d d') (hd : d.Labelled) : d'.Labelled := by
  induction h with
  | nil => exact hd
  | cons head _ ih =>
    refine ih ?_
    cases head with
    | prototype => exact hd
    | bare => exact hd
    | initialized _ _ _ _ value => exact (hsub.step value (hd.addSlot _)).emit _ _

theorem emitsArm_labelled (hsub : KeepsLabels sub) {arm : Node} {merge : Nat}
    (h : EmitsArm sub scope arm merge d d') (hd : d.Labelled) : d'.Labelled := by
  cases h with
  | arm body => exact ((hsub.step body (hd.enter scope)).leave _).fallThrough merge

theorem emitsNode_keepsLabels (hsub : KeepsLabels sub) :
    KeepsLabels (fun n scope d r d' => EmitsNode sub scope n d r d') := by
  refine ⟨fun {n scope d d' r} h hd => ?_⟩
  cases h with
  | sequence _ all => exact emitsAll_labelled hsub all hd
  | wrapper _ _ body => exact hsub.step body hd
  | literal => exact hd
  | identifier => exact hd.emit _ _
  | declaration _ _ all => exact emitsDeclarators_labelled hsub all hd
  | ifThen _ _ _ _ value test arm =>
    have htest := conditionIn_labelled test (hsub.step value hd)
    refine (emitsArm_labelled hsub arm (htest.fork _ ?_)).moveTo _
    decide
  | ifElse _ _ _ _ value test arm other =>
    have htest := conditionIn_labelled test (hsub.step value hd)
    refine (emitsArm_labelled hsub other ((emitsArm_labelled hsub arm ?_).moveTo _)).moveTo _
    exact htest.fork _ (by decide)
  | returnNothing => exact hd.close _
  | returnValue _ _ _ value converts =>
    exact (convertIn_labelled converts (hsub.step value hd)).close _
  | assignment _ _ _ _ _ value => exact (hsub.step value hd).emit _ _
  | call _ _ _ values => exact (emitsValues_labelled hsub values hd).emit _ _

theorem emits_keepsLabels : ∀ h : Nat, KeepsLabels (Emits h)
  | 0 => ⟨fun he => he.elim⟩
  | h + 1 => emitsNode_keepsLabels (emits_keepsLabels h)

end labels

theorem spills_labelled {scope : ScopeId} {i : Nat} {ps : List (Node × Ty)} {d d' : Draft}
    (h : Spills scope i ps d d') (hd : d.Labelled) : d'.Labelled := by
  induction h with
  | nil => exact hd
  | cons _ _ ih => exact ih ((hd.addSlot _).emit _ _)

theorem Compiled.labelled {m : Module} {f : Function} {def_ : Source.Definition}
    (h : Compiled m f def_) : f.Labelled := by
  cases h with
  | @intro h k scope file g params body d opens built same finished grows =>
    subst same
    cases built with
    | @body d₁ d₂ d₃ r spills emits closes =>
      have hstart : ((file.start g params).enter scope).Labelled := ⟨[], rfl, by simp⟩
      have hbody := (emits_keepsLabels h).step emits (spills_labelled spills hstart)
      cases closes with
      | closed | live => exact hbody
      | void | dead => exact hbody.close _

end Lowering

/-! ## Other names for generated modules -/

open Lowering

section renamed

variable (r : String → String)

/-- A function with other names for itself, its parameters and its slots, and with its entry
labelled after it. -/
def Function.renamed (f : Function) : Function :=
  { f with
    name := r f.name
    paramNames := f.paramNames.map r
    slots := f.slots.map (Slot.rename r)
    blocks := match f.entry? with
      | some entry => f.blocks.modify entry fun b => { b with name := entryLabel (r f.name) }
      | none => f.blocks }

/-- A module with other names for its functions and globals. -/
def Module.renamed (m : Module) : Module :=
  { m with
    functions := m.functions.map (Function.renamed r)
    globals := m.globals.map (Global.rename r)
    functionTable := m.functionTable.rename r
    globalTable := m.globalTable.rename r }

/-- Only the label of the entry is made from a name. -/
theorem Function.Labelled.rename_eq {f : Function} (h : f.Labelled) (he : f.entry? = some 0) :
    f.rename r = f.renamed r := by
  obtain ⟨inner, e, hi⟩ := h
  obtain ⟨b, bs, hblocks⟩ := List.exists_cons_of_ne_nil (l := f.blocks) (by rintro h; simp [h] at e)
  rw [hblocks, List.map_cons] at e
  obtain ⟨hb, hbs⟩ := List.cons.inj e
  have hentry : b.rename r = { b with name := entryLabel (r f.name) } := by
    rw [Block.rename, hb, relabel_entryLabel]
  have hrest : bs.map (Block.rename r) = bs := by
    refine (List.map_congr_left fun c hc => ?_).trans (List.map_id bs)
    have hc' : c.name ∈ innerLabels := hi _ (hbs ▸ List.mem_map_of_mem hc)
    rw [Block.rename, relabel_inner r hc', id_eq]
  simp only [Function.rename, Function.renamed, he, hblocks, List.map_cons, hentry, hrest]
  rfl

end renamed

theorem generated_labelled {name : String} {root : Syntax.Node} {m : Module}
    (hm : generate name root = .ok m) {f : Function} (hf : f ∈ m.functions) :
    f = { name := f.name, signature := f.signature } ∨ f.entry? = some 0 ∧ f.Labelled := by
  obtain ⟨file, rfl, hbuilt, hinv⟩ := generate_ok hm
  have hr := buildsAll_reflects hbuilt (initial_inv name) (initial_reflects name)
  rcases hinv.functions f hf with bare | finished
  · exact .inl bare
  · obtain ⟨cur, hs, -⟩ := finished.shape
    refine .inr ⟨hs.entry, ?_⟩
    cases hd : (Source.Program.ofItems ([] ++ Source.items root)).definition? f.name with
    | some def_ => exact (hr.compiled f hf def_ hd).labelled
    | none =>
      have hentry := hs.entry
      rw [ Function.entry?, hr.bare f hf hd] at hentry
      cases hentry

/-- In a generated module labels are what they should be under other names. -/
theorem rename_eq_renamed (r : String → String) {name : String} {root : Syntax.Node} {m : Module}
    (hm : generate name root = .ok m) : m.rename r = m.renamed r := by
  have hfunctions : m.functions.map (Function.rename r) = m.functions.map (Function.renamed r) := by
    refine List.map_congr_left fun f hf => ?_
    rcases generated_labelled hm hf with bare | ⟨hentry, hl⟩
    · rw [bare]
      rfl
    · exact hl.rename_eq r hentry
  rw [Module.rename, Module.renamed, hfunctions]

end SlotIR
