import SlotIR.Proofs.FileEmission

/-!
# Lowering at file scope

The lowering of a file either builds what `BuildsAll` describes or is refused: because of an error of
the tree, or because the body that was just built does not return (`lowerWithin_lowersFile`). So
verification refuses a tree for one reason only (`verification_refuses`), and never after the root was
lowered.
-/

namespace SlotIR.Lowering

open Syntax (Node Span)
open Builder

/-! ## Refusals -/

/-- The function with this name should return something, but the last block of its body, which has
the other name, is open. All blocks before it are closed. -/
def MissesReturn (m : Module) (function block : String) : Prop :=
  ∃ (k : Nat) (f : Function) (done : List Nat) (last : Nat) (b : Block),
    m.functionIndex? function = some k ∧ m.functions[k]? = some f ∧ f.signature.ret ≠ .void ∧
      f.layout = done ++ [last] ∧ f.blocks[last]? = some b ∧ b.name = block ∧
      b.terminator = none ∧ ∀ i ∈ done, ∃ c, f.blocks[i]? = some c ∧ c.terminator ≠ none

/-- An error of the tree, or a body that misses a return. -/
def Refuses (e : Fault Error) (b : Builder) : Prop :=
  OfTree e ∨ ∃ function block,
    e = .error ⟨none, .verification (.missingTerminator function block)⟩ ∧
      MissesReturn b.module function block

/-- A step that is refused, or goes on to a file that satisfies `P`. -/
abbrev Builds {α : Type} (r : EStateM.Result (Fault Error) Builder α) (P : α → File → Prop) : Prop :=
  EndsIn File.builder r P Refuses

section refusals

variable {α : Type} {file : File} {P : α → File → Prop}

theorem fail_builds {span : Option Span} {cause : Cause} (h : cause.OfTree) :
    Builds (fail span cause file.builder) P :=
  .inl ⟨⟨span, cause⟩, rfl, h⟩

theorem malformed_builds {span : Option Span} {how : Malformation} :
    Builds (malformed span how file.builder) P :=
  fail_builds nofun

theorem liftError_builds {x : Except Error α} (h : ∀ e, x = .error e → e.cause.OfTree) :
    Builds (liftError x file.builder) (fun a file' => file' = file ∧ x = .ok a) := by
  cases x with
  | ok a => exact ⟨file, rfl, rfl, rfl⟩
  | error e => exact .inl ⟨e, rfl, h e rfl⟩

/-- There is no place for instructions outside of bodies. -/
theorem pushInst_builds {ty : Ty} {a : Action} {Q : Option Operand → File → Prop} :
    Builds (pushInst ty a file.builder) Q :=
  malformed_builds

end refusals

/-! ## Declarations -/

section declarations

variable {file : File} {scope : ScopeId}

theorem function_builds (file : File) {i : Nat} {f : Function}
    (hf : file.module.functions[i]? = some f) :
    Builder.function i file.builder = .ok f file.builder :=
  function_of_some hf

theorem declareFunction_builds (hm : file.module.Indexed) {name : Node} {sig : Signature} :
    Builds (declareFunction name sig file.builder) (fun i file' => ∃ m,
      file' = { file with module := m } ∧ file.module.Registers name.text sig m i) := by
  unfold declareFunction
  refine .bind_eq (get_run _) ?_
  cases hg : file.builder.module.globalIndex? name.text with
  | some j => exact fail_builds nofun
  | none =>
    cases hf : file.builder.module.functionIndex? name.text with
    | none =>
      have hnew := (Module.functionIndex?_none hm).1 hf
      exact ⟨{ file with module := file.module.addFunction _ _ }, rfl, _, rfl, .new hg hf hnew⟩
    | some i =>
      obtain ⟨f, hi, hname⟩ := Module.functionIndex?_some hm hf
      refine .bind_eq (function_builds file hi) ?_
      by_cases e : f.signature ≠ sig
      · rw [if_pos e]
        exact fail_builds nofun
      · rw [if_neg e]
        exact ⟨file, rfl, _, rfl, .known hg hf hi (Decidable.not_not.1 e) hname⟩

theorem lowerPrototype_builds (hm : file.module.Indexed) {ty : Ty} {n : Node}
    (hk : n.kind = .functionDeclarator) :
    Builds (lowerPrototype ty n file.builder)
      (fun _ file' => BuildsDeclarator scope ty n file file') := by
  unfold lowerPrototype
  refine (liftError_builds fun e he => functionDeclarator_error he).bind ?_
  rintro decl _ ⟨rfl, hdecl⟩
  refine (declareFunction_builds hm).bind ?_
  rintro i _ ⟨m, rfl, hr⟩
  exact ⟨_, rfl, .prototype hk hdecl hr⟩

theorem namedParams_error {n : Node} {name : String} {ps : List Syntax.Param} {e : Error}
    (h : namedParams n name ps = .error e) : e.cause.OfTree := by
  induction ps with
  | nil => cases h
  | cons p ps ih =>
    unfold namedParams at h
    cases hp : p.name with
    | none =>
      rw [hp] at h
      cases h
      rintro _ ⟨⟩
    | some node =>
      cases hr : namedParams n name ps with
      | error e' =>
        simp only [hp, hr, bind, Except.bind, Except.error.injEq] at h
        subst h
        exact ih hr
      | ok rest => simp [hp, hr, bind, Except.bind, pure, Except.pure] at h

theorem globalInit_error {name : Node} {ty : Ty} {init : Option Node} {e : Error}
    (h : globalInit name ty init = .error e) : e.cause.OfTree := by
  unfold globalInit at h
  split at h
  · split at h <;> cases h
    nofun
  · dsimp only at h
    split at h
    · cases h
      nofun
    · split at h <;> cases h
      nofun

theorem zero?_ty {ty : Ty} {v : Scalar} (h : Scalar.zero? ty = some v) : v.ty = ty := by
  cases ty <;> cases h <;> rfl

theorem globalInit_ok {name : Node} {ty : Ty} {init : Option Node} {v : Scalar}
    (h : globalInit name ty init = .ok v) : v.ty = ty := by
  unfold globalInit at h
  split at h
  · split at h
    · rename_i hz
      cases h
      exact zero?_ty hz
    · cases h
  · dsimp only at h
    split at h
    · cases h
    · split at h
      · rename_i hty
        cases h
        exact hty
      · cases h

theorem lowerGlobal_builds {n name : Node} {ty : Ty} (hk : n.kind ≠ .functionDeclarator)
    (hid : n.identifier? = some name) (hv : ty ≠ .void) :
    Builds (lowerGlobal name ty n.initializer? scope file.builder)
      (fun _ file' => BuildsDeclarator scope ty n file file') := by
  unfold lowerGlobal
  refine .bind_eq (get_run _) ?_
  by_cases hfree : (file.builder.module.globalIndex? name.text).isSome ∨
      (file.builder.module.functionIndex? name.text).isSome
  · rw [if_pos hfree]
    exact fail_builds nofun
  rw [if_neg hfree]
  obtain ⟨hg, hf⟩ := not_or.1 hfree
  refine (liftError_builds fun e he => globalInit_error he).bind ?_
  rintro init file ⟨rfl, hinit⟩
  refine .bind_eq (modifyGet_run _ _) ?_
  unfold bindVariable
  cases hd : file.scopes.define? scope name.text ⟨.global file.module.globals.length, .ptr ty⟩ with
  | none =>
    refine .bind_eq (define_of_none hd) ?_
    exact .inl ⟨_, rfl, nofun⟩
  | some c =>
    refine .bind_eq (define_of_some hd) ?_
    refine ⟨{ module := file.module.addGlobal _, scopes := c }, rfl, ?_⟩
    refine .global hk hid hv ?_ ?_ (globalInit_ok hinit) hd
    · exact Option.not_isSome_iff_eq_none.1 hg
    · exact Option.not_isSome_iff_eq_none.1 hf

theorem lowerVariable_builds {lower : Lower} {ty : Ty} {n : Node}
    (hk : n.kind ≠ .functionDeclarator) :
    Builds (lowerVariable lower ty n scope file.builder)
      (fun _ file' => BuildsDeclarator scope ty n file file') := by
  unfold lowerVariable
  cases hid : n.identifier? with
  | none => exact malformed_builds
  | some name =>
    dsimp only
    by_cases hv : ty = .void
    · rw [if_pos hv]
      exact fail_builds nofun
    · rw [if_neg hv]
      refine .bind_eq (get_run _) ?_
      exact lowerGlobal_builds hk hid hv

theorem BuildsDeclarator.indexed {ty : Ty} {n : Node} {file' : File}
    (h : BuildsDeclarator scope ty n file file') (hm : file.module.Indexed) : file'.module.Indexed := by
  cases h with
  | prototype kind reads registers => exact registers.indexed hm
  | global => exact hm.addGlobal _

theorem lowerDeclarators_builds {lower : Lower} {ty : Ty} {ns : List Node} :
    ∀ {file : File}, file.module.Indexed → Builds (lowerDeclarators lower ty scope ns file.builder)
      (fun _ file' => BuildsDeclarators scope ty ns file file') := by
  induction ns with
  | nil =>
    intro file _
    exact ⟨file, rfl, .nil⟩
  | cons n ns ih =>
    intro file hm
    have hrest : ∀ (_ : Unit) file₁, BuildsDeclarator scope ty n file file₁ →
        Builds (lowerDeclarators lower ty scope ns file₁.builder)
          (fun _ file' => BuildsDeclarators scope ty (n :: ns) file file') := by
      intro _ file₁ hd
      exact (ih (hd.indexed hm)).mono fun _ file' ht => .cons hd ht
    unfold lowerDeclarators
    by_cases hk : n.kind = .functionDeclarator
    · rw [if_pos hk]
      exact (lowerPrototype_builds hm hk).bind hrest
    · rw [if_neg hk]
      exact (lowerVariable_builds hk).bind hrest

end declarations

/-! ## Definitions -/

/-- Trees of at most height `h` are lowered to what the relations of bodies and files say. -/
structure LowersFile (lower : Lower) (h : Nat) : Prop where
  bodies : LowersAs lower (Emits h) h
  items : ∀ {n : Node}, n.height ≤ h → ∀ {scope : ScopeId} {file : File}, file.Inv scope →
    Builds (lower n scope file.builder)
      (fun _ file' => BuildsAll scope (Source.items n) file file')

section definitions

variable {lower : Lower} {h k : Nat} {file : File} {scope : ScopeId} {f : Function}
  {params : List (Node × Ty)} {body : Node}

theorem modifyFunction_builds {f : Function} (hf : file.module.functions[k]? = some f)
    (g : Function → Function) :
    modifyFunction k g file.builder =
      .ok () (File.builder { file with module := file.module.put k (g f) }) :=
  modifyFunction_of_some hf g

theorem enterFunction_builds (file : File) {f : Function} (hf : file.module.functions[k]? = some f)
    (name : String) :
    enterFunction k name file.builder = .ok none
      { module := file.module.put k
          { f with blocks := f.blocks ++ [{ name }], layout := f.layout ++ [f.blocks.length] }
        scopes := file.scopes
        cursor := some { function := k, block := f.blocks.length } } :=
  enterFunction_of_some hf name

/-- Entering a function without a body starts its draft. -/
theorem start_builds (ho : Opens file scope k f params) {f' : Function}
    (hf' : f' = { f with paramNames := params.map (·.1.text) }) :
    enterFunction k (f.name ++ "_block")
      (File.builder { file with module := file.module.put k f' }) =
      .ok none ((file.start f params).builder k) := by
  have hk := (List.getElem?_eq_some_iff.1 ho.function).1
  have hblocks : f'.blocks = [] := by rw [hf', ho.bare]
  have hlayout : f'.layout = [] := by rw [hf', ho.bare]
  refine (enterFunction_builds { file with module := file.module.put k f' }
    (Draft.getElem?_put hk) _).trans ?_
  rw [Draft.put_put, hblocks, hlayout, hf']
  rfl

theorem bodySteps (hl : LowersFile lower h) (hb : body.height ≤ h)
    (ho : Opens file scope k f params) :
    Steps k ((spillParams file.scopes.opened 0 params >>= fun _ =>
        lower body file.scopes.opened >>= fun _ => closeBody f.signature.ret)
      (((file.start f params).enter scope).builder k))
      (fun _ d => BuildsBody h scope file f params body d) := by
  refine (spillParams_steps (i := 0) ho.start_inv ho.start_scoped ho.arithmetic ho.types).bind ?_
  intro _ d₁ hsp
  obtain ⟨new, hc⟩ := ho.spills_continues hsp
  refine (hl.bodies.steps hb hc.inv hc.visible).bind fun r d₂ he => ?_
  obtain ⟨new', hc', -⟩ := (emits_preserves h).step he hc.inv hc.visible
  exact (closeBody_steps hc'.inv).mono fun _ d₃ hcl => .body hsp he hcl

theorem lowerBody_builds (hl : LowersFile lower h) (hb : body.height ≤ h)
    (ho : Opens file scope k f params) :
    Builds (lowerBody lower k f.name params f.signature.ret body scope file.builder)
      (fun _ file' => ∃ d, BuildsBody h scope file f params body d ∧
        file' = file.finish k d) := by
  have hsteps : Steps k (inChildScope scope (fun inner => spillParams inner 0 params >>= fun _ =>
      lower body inner >>= fun _ => closeBody f.signature.ret) ((file.start f params).builder k))
      (fun _ d' => ∃ d, BuildsBody h scope file f params body d ∧
        d' = d.leave file.scopes.opened) := inChildScope_steps (bodySteps hl hb ho)
  unfold lowerBody
  refine .bind_eq (modifyFunction_builds ho.function _) ?_
  refine .bind_eq (start_builds ho rfl) ?_
  cases hr : inChildScope scope (fun inner => spillParams inner 0 params >>= fun _ =>
      lower body inner >>= fun _ => closeBody f.signature.ret)
      ((file.start f params).builder k) with
  | ok a b' =>
    obtain ⟨_, rfl, d, hd, rfl⟩ := Ends.of_ok hsteps hr
    exact ⟨file.finish k d, rfl, d, hd, rfl⟩
  | error e b' => exact .inl (Ends.of_error hsteps hr)

theorem verifyFunction_finished {m : Module} (hf : m.functions[k]? = some f) (hok : f.Finished m) :
    m.verifyFunction k = .ok () := by
  rw [Module.verifyFunction, Module.function, hf]
  exact Module.verifyBody_ok.2 fun _ => hok.bodyOk

theorem verifyFunction_open {m : Module} {cur : Nat} {b : Block} (hf : m.functions[k]? = some f)
    (hs : f.Shape cur []) (ht : f.TypedIn m) (hb : f.blocks[cur]? = some b)
    (ho : f.closedAt cur = false) :
    m.verifyFunction k = Checked.violation (.missingTerminator f.name b.name) := by
  rw [Module.verifyFunction, Module.function, hf]
  exact hs.verifyBody_open ht hb ho

theorem verifyLowered_of_ok {b : Builder} (h : b.module.verifyFunction k = .ok ()) :
    verifyLowered k b = .ok () b := by
  unfold verifyLowered
  rw [bind_of_ok (get_run b), h]
  rfl

theorem verifyLowered_of_violation {b : Builder} {e : VerifyError}
    (h : b.module.verifyFunction k = Checked.violation e) :
    verifyLowered k b = .error (.error ⟨none, .verification e⟩) b := by
  unfold verifyLowered
  rw [bind_of_ok (get_run b), h]
  rfl

theorem verifyLowered_finished (file : File) {f : Function} (hf : file.module.functions[k]? = some f)
    (hok : f.Finished file.module) : verifyLowered k file.builder = .ok () file.builder :=
  verifyLowered_of_ok (b := file.builder) (verifyFunction_finished hf hok)

/-- The last block of a body that was left open is the one that verification names. -/
theorem verifyLowered_open (file : File) {f : Function} {cur : Nat} {P : Unit → File → Prop}
    (hm : file.module.Sane) (hf : file.module.functions[k]? = some f) (hs : f.Shape cur [])
    (ht : f.TypedIn file.module) (hr : f.signature.ret ≠ .void) (ho : f.closedAt cur = false) :
    Builds (verifyLowered k file.builder) P := by
  obtain ⟨b, hb⟩ := hs.cur_block
  have hv : file.builder.module.verifyFunction k =
      Checked.violation (.missingTerminator f.name b.name) := verifyFunction_open hf hs ht hb ho
  rw [verifyLowered_of_violation hv]
  refine .inr ⟨f.name, b.name, rfl, ?_⟩
  obtain ⟨done, hl⟩ := hs.last
  refine ⟨k, f, done, cur, b, ?_, hf, hr, hl, hb, rfl, Function.open_of_closedAt hb ho, ?_⟩
  · exact hm.functionIndex? hf
  · intro i hi
    have hnd := (List.nodup_append.1 hs.nodup).1
    rw [hl] at hnd
    have hne : i ≠ cur := fun e => (List.nodup_append.1 hnd).2.2 i hi cur (by simp) e
    obtain ⟨c, t, hc, hct⟩ := Function.exists_of_closedAt (hs.closed i (by simp [hl, hi]) hne)
    exact ⟨c, hc, by simp [hct]⟩

theorem hasBody_of_finished {m : Module} (hf : f.Finished m) : f.hasBody = true := by
  obtain ⟨cur, hs, -⟩ := hf.shape
  obtain ⟨done, hl⟩ := hs.last
  simp [Function.hasBody, hl]

/-- A function of a file that has no body is only declared. -/
theorem File.Inv.bare_of_registers (hi : file.Inv scope) {name : String} {sig : Signature} {m : Module}
    (hp : sig.Plain) (hr : file.module.Registers name sig m k) (hf : m.functions[k]? = some f)
    (hb : f.hasBody = false) : f = { name, signature := sig } := by
  obtain ⟨g, hg, hname, hsig⟩ := hr.get
  cases hf.symm.trans hg
  rcases (hi.register hp hr).functions f (List.mem_of_getElem? hf) with hbare | hfin
  · rw [hbare, hname, hsig]
  · rw [hasBody_of_finished hfin] at hb
    cases hb

theorem lowerDefinition_builds (hl : LowersFile lower h) {n : Node} (hn : n.height ≤ h + 1)
    (hk : n.kind = .functionDefinition) (hi : file.Inv scope) :
    Builds (lowerDefinition lower n scope file.builder)
      (fun _ file' => BuildsItem scope n file file') := by
  unfold lowerDefinition
  cases h0 : n.nth? 0 with
  | none => exact malformed_builds
  | some specifiers =>
  cases h1 : n.child? .functionDeclarator with
  | none => exact malformed_builds
  | some declarator =>
  cases h2 : n.child? .compoundStatement with
  | none => exact malformed_builds
  | some body =>
  have hheight := Node.height_child? h2
  refine (liftError_builds fun e he => specifiedType_error he).bind ?_
  rintro ret _ ⟨rfl, hret⟩
  refine (liftError_builds fun e he => functionDeclarator_error he).bind ?_
  rintro decl _ ⟨rfl, hdecl⟩
  refine .bind_eq (get_run _) ?_
  refine (liftError_builds fun e he => namedParams_error he).bind ?_
  rintro params file ⟨rfl, hparams⟩
  refine (declareFunction_builds hi.sane.indexed).bind ?_
  rintro k _ ⟨m, rfl, hreg⟩
  obtain ⟨f, hf, hname, hsig⟩ := hreg.get
  refine .bind_eq (function_builds { file with module := m } hf) ?_
  by_cases hbody : f.hasBody = true
  · rw [if_pos hbody]
    exact .inl ⟨_, rfl, nofun⟩
  rw [if_neg hbody]
  have hp := Syntax.FunctionDeclarator.signature_plain (Node.functionDeclarator_ok hdecl)
    (Node.specifiedType_ok hret)
  have hbare := hi.bare_of_registers hp hreg hf (Bool.not_eq_true _ ▸ hbody)
  have ho := opens_of_definition hi hret hdecl hparams hreg hf hbare
  have hheight : body.height ≤ h := by omega
  have hlower := lowerBody_builds hl hheight ho
  rw [hname, hsig] at hlower
  refine hlower.bind ?_
  rintro _ _ ⟨d, hd, rfl⟩
  have hleft := ho.leaves hd
  have hkd := hleft.declares.getElem? ho.function
  have hput := put_grows (f := d.function) hkd hleft.name.symm hleft.signature.symm
  have hget := Draft.getElem?_put (f := d.function) (List.getElem?_eq_some_iff.1 hkd).1
  rcases ho.cases hd with hfin | ⟨hinv, hv, hopen⟩
  · refine .bind_eq (verifyLowered_finished (file.finish k d) hget (hfin.grow hput)) ?_
    exact ⟨_, rfl, .definition hk h0 h1 h2 hret hdecl hparams hreg hf hbare hd hfin⟩
  · refine EndsIn.stop ?_
    refine verifyLowered_open (file.finish k d)
      (put_sane hleft.sane hkd hleft.name.symm hleft.signature.symm) hget hinv.shape
      (hinv.typed.grow hput) ?_ hopen
    rw [hleft.signature]
    exact hv

end definitions

/-! ## Statements outside of bodies -/

section outside

variable {lower : Lower} {h : Nat} {file : File} {scope : ScopeId} {P : Lowered → File → Prop}

theorem lower_builds (hl : LowersFile lower h) {n : Node} (hn : n.height ≤ h)
    (hi : file.Inv scope) :
    Builds (lower n scope file.builder)
      (fun _ file' => file'.Inv scope ∧ file.module.Grows file'.module) :=
  (hl.items hn hi).mono fun _ _ hb => buildsAll_preserves hb hi

theorem lowerValue_builds (hl : LowersFile lower h) {n : Node} (hn : n.height ≤ h)
    (hi : file.Inv scope) :
    Builds (lowerValue lower n scope file.builder)
      (fun _ file' => file'.Inv scope ∧ file.module.Grows file'.module) := by
  unfold lowerValue
  refine (lower_builds hl hn hi).bind fun r file' hr => ?_
  cases r with
  | value v => exact ⟨file', rfl, hr⟩
  | unit => exact fail_builds nofun
  | function i => exact fail_builds nofun

theorem lowerValues_builds (hl : LowersFile lower h) {ns : List Node} : ∀ {file : File},
    (∀ n ∈ ns, n.height ≤ h) → file.Inv scope →
      Builds (lowerValues lower scope ns file.builder)
        (fun _ file' => file.module.Grows file'.module) := by
  induction ns with
  | nil =>
    intro file _ _
    exact ⟨file, rfl, .refl _⟩
  | cons n ns ih =>
    intro file hh hi
    obtain ⟨hn, hns⟩ := List.forall_mem_cons.1 hh
    unfold lowerValues
    refine (lowerValue_builds hl hn hi).bind ?_
    rintro v file₁ ⟨hi₁, hg₁⟩
    refine (ih hns hi₁).bind fun vs file' hg' => ?_
    exact ⟨file', rfl, hg₁.trans hg'⟩

theorem lowerCondition_builds {v : Value} {span : Option Span} {Q : Value → File → Prop} :
    Builds (lowerCondition v span file.builder) Q := by
  unfold lowerCondition
  cases v.ty with
  | int | char => exact EndsIn.stop (EndsIn.stop pushInst_builds)
  | float => exact .bind_eq (pure_run v _) (EndsIn.stop pushInst_builds)
  | _ => exact fail_builds nofun

theorem lowerIf_builds (hl : LowersFile lower h) {n : Node} (hn : n.height ≤ h + 1)
    (hi : file.Inv scope) : Builds (lowerIf lower n scope file.builder) P := by
  unfold lowerIf
  cases h0 : n.nth? 0 with
  | none => exact malformed_builds
  | some condNode =>
  cases h1 : n.nth? 1 with
  | none => exact malformed_builds
  | some thenNode =>
  have hheight := Node.height_nth? h0
  refine (lowerValue_builds hl (by omega) hi).bind fun v file₁ _ => ?_
  exact EndsIn.stop lowerCondition_builds

theorem lowerAddress_builds {n : Node} :
    Builds (lowerAddress n scope file.builder) (fun _ file' => file' = file) := by
  unfold lowerAddress
  refine .bind_eq (get_run _) ?_
  cases file.builder.scopes.lookup? scope n.text with
  | none => exact fail_builds nofun
  | some a => exact ⟨file, rfl, rfl⟩

theorem lowerIdentifier_builds {n : Node} {Q : Value → File → Prop} :
    Builds (lowerIdentifier n scope file.builder) Q := by
  unfold lowerIdentifier
  refine lowerAddress_builds.bind ?_
  rintro a _ rfl
  unfold load
  cases a.ty.pointee? with
  | none => exact malformed_builds
  | some ty => exact EndsIn.stop pushInst_builds

theorem expectType_builds {v : Value} {ty : Ty} {context : TypeContext} {span : Option Span} :
    Builds (expectType v ty context span file.builder) (fun _ file' => file' = file) := by
  unfold expectType
  by_cases e : v.ty = ty
  · rw [if_pos e]
    exact ⟨file, rfl, rfl⟩
  · rw [if_neg e]
    exact fail_builds nofun

theorem lowerAssignment_builds (hl : LowersFile lower h) {n : Node} (hn : n.height ≤ h + 1)
    (hi : file.Inv scope) : Builds (lowerAssignment lower n scope file.builder) P := by
  unfold lowerAssignment
  cases h0 : n.nth? 0 with
  | none => exact malformed_builds
  | some target =>
  cases h1 : n.nth? 1 with
  | none => exact malformed_builds
  | some e =>
  have hheight := Node.height_nth? h1
  dsimp only
  by_cases hid : target.unwrapped.kind ≠ .identifier
  · rw [if_pos hid]
    exact fail_builds nofun
  rw [if_neg hid]
  refine lowerAddress_builds.bind ?_
  rintro a _ rfl
  refine (lowerValue_builds hl (by omega) hi).bind fun v file₁ _ => ?_
  refine expectType_builds.bind ?_
  rintro _ _ rfl
  refine EndsIn.stop ?_
  exact EndsIn.stop pushInst_builds

theorem expectTypes_builds {call : Option Span} {vs : List Value} :
    ∀ {tys : List Ty} {ns : List Node},
      Builds (expectTypes call vs tys ns file.builder) (fun _ file' => file' = file) := by
  induction vs with
  | nil =>
    intro tys ns
    exact ⟨file, rfl, rfl⟩
  | cons v vs ih =>
    intro tys ns
    rcases tys with _ | ⟨ty, tys⟩
    · exact ⟨file, rfl, rfl⟩
    rcases ns with _ | ⟨n, ns⟩
    · exact ⟨file, rfl, rfl⟩
    unfold expectTypes
    refine expectType_builds.bind ?_
    rintro _ _ rfl
    exact ih

theorem lowerCall_builds (hl : LowersFile lower h) {n : Node} (hn : n.height ≤ h + 1)
    (hi : file.Inv scope) : Builds (lowerCall lower n scope file.builder) P := by
  unfold lowerCall
  cases hc : (n.nth? 0).bind Node.identifier? with
  | none => exact malformed_builds
  | some callee =>
  refine .bind_eq (get_run _) ?_
  cases hf : file.builder.module.functionIndex? callee.text with
  | none => exact fail_builds nofun
  | some i =>
  have hheight : ∀ c ∈ n.arguments, c.height ≤ h := by
    intro c hc
    have := Node.height_arguments hc
    omega
  refine (lowerValues_builds hl hheight hi).bind fun vs file₁ hg => ?_
  obtain ⟨g, hg₀, -⟩ := Module.functionIndex?_some hi.sane.indexed hf
  obtain ⟨g', hg', -⟩ := hg.functions hg₀
  refine .bind_eq (function_builds file₁ hg') ?_
  by_cases hlen : vs.length ≠ g'.signature.params.length
  · rw [if_pos hlen]
    exact fail_builds nofun
  rw [if_neg hlen]
  refine expectTypes_builds.bind ?_
  rintro _ file₁ rfl
  refine EndsIn.stop ?_
  refine .bind_eq (function_builds file₁ hg') ?_
  exact EndsIn.stop pushInst_builds

end outside

/-! ## Files -/

section files

theorem items_sequence {n : Node} (h : n.kind.isSequence = true) :
    Source.items n = Source.itemsAll n.children := by
  obtain ⟨kind, value, span, children⟩ := n
  unfold Source.items
  exact if_pos h

theorem items_expression {n inner : Node} (h : n.kind = .expression) (hc : n.children = [inner]) :
    Source.items n = Source.items inner := by
  obtain ⟨kind, value, span, children⟩ := n
  cases h
  cases hc
  simp [Source.items, Source.itemsAll, Syntax.Kind.isSequence]

theorem items_single {n : Node} (h : n.kind.isSequence = false) (he : n.kind ≠ .expression) :
    Source.items n = [n] := by
  obtain ⟨kind, value, span, children⟩ := n
  have hs : ¬ kind.isSequence = true := by
    rw [show kind.isSequence = false from h]
    exact Bool.false_ne_true
  unfold Source.items
  exact (if_neg hs).trans (if_neg he)

variable {lower : Lower} {h : Nat} {file : File} {scope : ScopeId}

theorem lowerAll_builds (hl : LowersFile lower h) {ns : List Node} : ∀ {file : File},
    (∀ n ∈ ns, n.height ≤ h) → file.Inv scope →
      Builds (lowerAll lower scope ns file.builder)
        (fun _ file' => BuildsAll scope (Source.itemsAll ns) file file') := by
  induction ns with
  | nil =>
    intro file _ _
    exact ⟨file, rfl, .nil⟩
  | cons n ns ih =>
    intro file hh hi
    obtain ⟨hn, hns⟩ := List.forall_mem_cons.1 hh
    unfold lowerAll
    refine (hl.items hn hi).bind fun _ file₁ hb => ?_
    obtain ⟨hi₁, -⟩ := buildsAll_preserves hb hi
    exact (ih hns hi₁).mono fun _ _ hb' => hb.append hb'

theorem lowerNode_builds (hl : LowersFile lower h) {n : Node} (hn : n.height ≤ h + 1)
    (hi : file.Inv scope) :
    Builds (lowerNode lower n scope file.builder)
      (fun _ file' => BuildsAll scope (Source.items n) file file') := by
  have hheight : ∀ c ∈ n.children, c.height ≤ h := by
    intro c hc
    have := Node.height_lt_of_mem hc
    omega
  have hseq : n.kind.isSequence = true → Builds (lowerSequence lower n scope file.builder)
      (fun _ file' => BuildsAll scope (Source.items n) file file') := by
    intro hkind
    rw [items_sequence hkind]
    unfold lowerSequence
    exact (lowerAll_builds hl hheight hi).bind fun _ file' hall => ⟨file', rfl, hall⟩
  have hone : n.kind.isSequence = false → n.kind ≠ .expression →
      ∀ file', BuildsItem scope n file file' → BuildsAll scope (Source.items n) file file' := by
    intro hkind he file' hb
    rw [items_single hkind he]
    exact .cons hb .nil
  unfold lowerNode
  cases hk : n.kind with
  | translationUnit | statementList | compoundStatement | declarationList =>
    exact hseq (by rw [hk]; rfl)
  | functionDefinition =>
    refine (lowerDefinition_builds hl hn hk hi).mono fun _ file' hb => ?_
    exact hone (by rw [hk]; rfl) (by simp [hk]) file' hb
  | declaration =>
    refine (liftError_builds fun e he => specifiedType_error he).bind ?_
    rintro ty file ⟨rfl, hty⟩
    refine (lowerDeclarators_builds hi.sane.indexed).bind fun _ file' hall => ⟨file', rfl, ?_⟩
    exact hone (by rw [hk]; rfl) (by simp [hk]) file' (.declaration hk hty hall)
  | ifElseStatement => exact lowerIf_builds hl hn hi
  | returnExpr => exact malformed_builds
  | assignmentExpression => exact lowerAssignment_builds hl hn hi
  | functionCall => exact lowerCall_builds hl hn hi
  | expression =>
    rcases hc : n.children with _ | ⟨inner, _ | ⟨c, cs⟩⟩
    · exact malformed_builds
    · rw [items_expression hk hc]
      exact hl.items (hheight inner (by simp [hc])) hi
    · exact malformed_builds
  | int | float | char =>
    refine ⟨file, rfl, hone (by rw [hk]; rfl) (by simp [hk]) file ?_⟩
    exact .literal (by simp only [Node.literal?, hk]; rfl)
  | identifier => exact EndsIn.stop lowerIdentifier_builds
  | _ => exact malformed_builds

theorem lowerWithin_lowersFile : ∀ h : Nat, LowersFile (lowerWithin h) h
  | 0 => by
    refine ⟨lowerWithin_lowersAs 0, fun {n} hn => ?_⟩
    obtain ⟨_, _, _, _⟩ := n
    simp [Node.height] at hn
  | h + 1 => ⟨lowerWithin_lowersAs (h + 1), fun hn _ _ hi =>
      lowerNode_builds (lowerWithin_lowersFile h) hn hi⟩

/-- The file before its first item. -/
def File.initial (name : String) : File :=
  { module := { name }, scopes := ((ScopeChain.push {} none).2) }

theorem initial_inv (name : String) : (File.initial name).Inv 0 := by
  refine ⟨⟨⟨rfl, rfl⟩, by simp [File.initial], by simp [File.initial], by simp [File.initial]⟩,
    by simp [File.initial], { parent := none }, ⟨rfl, ⟨rfl, by simp, trivial⟩, ?_⟩, rfl⟩
  exact Nat.lt_succ_self 0

theorem lowerRoot_builds (name : String) (root : Node) :
    Builds (lowerRoot root (fresh name))
      (fun _ file' => BuildsAll 0 (Source.items root) (.initial name) file') := by
  unfold lowerRoot
  by_cases hk : root.kind ≠ .translationUnit
  · rw [if_pos hk]
    exact .inl ⟨_, rfl, nofun⟩
  rw [if_neg hk]
  refine .bind_eq (modifyGet_run _ _) ?_
  refine ((lowerWithin_lowersFile root.height).items (Nat.le_refl _) (initial_inv name)).bind ?_
  exact fun _ file' hb => ⟨file', rfl, hb⟩

end files

end SlotIR.Lowering
