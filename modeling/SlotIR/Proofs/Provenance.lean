import SlotIR.Proofs.FileEmission

/-!
# Where functions come from

The module of a file reflects the program that the tree of the file states (`Reflects`): it has the
globals of the program in their order and the functions that are declared somewhere in it, and a
function has a body exactly if the program defines it. Then the body was built from the definition
(`Compiled`). This is kept by every item of a file (`buildsItem_reflects`).
-/

namespace SlotIR

open Syntax (Node)

/-! ## Names of functions -/

def Module.functionNames (m : Module) : List String := m.functions.map (·.name)

/-- The functions of `m'` are those of `m` and those with the given names. -/
def Module.Gains (m m' : Module) (names : List String) : Prop :=
  ∀ name, name ∈ m'.functionNames ↔ name ∈ m.functionNames ∨ name ∈ names

namespace Module.Gains

variable {m m' m'' : Module} {names names' : List String}

theorem refl (m : Module) : m.Gains m [] := by
  intro name
  simp

theorem trans (h : m.Gains m' names) (h' : m'.Gains m'' names') :
    m.Gains m'' (names ++ names') := by
  intro name
  rw [h' name, h name, List.mem_append, or_assoc]

theorem of_registers {name : String} {sig : Signature} {i : Nat}
    (h : m.Registers name sig m' i) : m.Gains m' [name] := by
  intro other
  cases h with
  | new => simp [Module.functionNames, Module.addFunction]
  | known hg hf hi hs hn =>
    have hm : name ∈ m.functionNames := List.mem_map.2 ⟨_, List.mem_of_getElem? hi, hn⟩
    rw [List.mem_singleton]
    constructor
    · exact Or.inl
    · rintro (h | rfl)
      · exact h
      · exact hm

end Module.Gains

theorem filterMap_cons_toList {α β : Type} (g : α → Option β) (a : α) (l : List α) :
    (a :: l).filterMap g = (g a).toList ++ l.filterMap g := by
  cases h : g a <;> simp [h]

namespace Lowering

/-! ## What bodies declare -/

theorem convertIn_module {d d' : Draft} {v w : Value} {ty : Ty}
    (h : convertIn d v ty = some (w, d')) : d'.module = d.module := by
  unfold convertIn at h
  split at h
  · cases h
    rfl
  · obtain ⟨op, -, e⟩ := Option.map_eq_some_iff.1 h
    cases e
    exact Draft.emit_module

theorem conditionIn_module {d d' : Draft} {v : Value} {cond : Operand}
    (h : conditionIn d v = some (cond, d')) : d'.module = d.module := by
  obtain ⟨⟨w, d₁⟩, hc, e⟩ := Option.map_eq_some_iff.1 h
  cases e
  exact Draft.emit_module.trans (convertIn_module hc)

theorem fork_module (d : Draft) (cond : Operand) (names : List String) :
    (d.fork cond names).module = d.module :=
  (d.addBlocks ("then" :: names)).reopen_module

theorem fallThrough_module (d : Draft) (target : Nat) :
    (d.fallThrough target).module = d.module := by
  unfold Draft.fallThrough
  split
  · rfl
  · exact Draft.close_module

/-- A node declares the functions that the tree says it declares, and none if it has a value. -/
structure DeclaresNames (sub : Emission) : Prop where
  step : ∀ {n : Node} {scope : ScopeId} {d d' : Draft} {r : Lowered}, sub n scope d r d' →
    d.module.Gains d'.module (Source.declaredIn n) ∧ ∀ v, r = .value v → Source.declaredIn n = []

section gains

variable {sub : Emission} {scope : ScopeId} {d d' : Draft}

theorem DeclaresNames.value (h : DeclaresNames sub) {n : Node} {v : Value}
    (hn : sub n scope d (.value v) d') : d.module.Gains d'.module [] := by
  obtain ⟨hg, he⟩ := h.step hn
  rw [he v rfl] at hg
  exact hg

theorem emitsAll_gains (hsub : DeclaresNames sub) {ns : List Node}
    (h : EmitsAll sub scope ns d d') : d.module.Gains d'.module (Source.declaredInAll ns) := by
  induction h with
  | nil => exact .refl _
  | cons head tail ih => exact (hsub.step head).1.trans ih

theorem emitsValues_gains (hsub : DeclaresNames sub) {ns : List Node} {vs : List Value}
    (h : EmitsValues sub scope ns d vs d') : d.module.Gains d'.module [] := by
  induction h with
  | nil => exact .refl _
  | cons head tail ih => exact (hsub.value head).trans ih

theorem prototypeName?_prototype {n : Node} {decl : Syntax.FunctionDeclarator}
    (kind : n.kind = .functionDeclarator) (reads : n.functionDeclarator = .ok decl) :
    Source.prototypeName? n = some decl.name.text := by
  rw [Source.prototypeName?, if_pos kind, reads]
  rfl

theorem prototypeName?_variable {n : Node} (kind : n.kind ≠ .functionDeclarator) :
    Source.prototypeName? n = none :=
  if_neg kind

theorem emitsDeclarator_gains (hsub : DeclaresNames sub) {ty : Ty} {n : Node}
    (h : EmitsDeclarator sub scope ty n d d') :
    d.module.Gains d'.module (Source.prototypeName? n).toList := by
  cases h with
  | prototype kind reads registers =>
    rw [prototypeName?_prototype kind reads]
    exact .of_registers registers
  | bare kind =>
    rw [prototypeName?_variable kind]
    exact .refl _
  | @initialized name init v d₁ c kind named object initializer value fits defines =>
    have hv := hsub.value value
    have hemit : (d₁.emit .void (.store (nextSlot d ty).operand v.operand)).module = d₁.module :=
      Draft.emit_module
    rw [prototypeName?_variable kind]
    rw [← hemit] at hv
    exact hv

theorem emitsDeclarators_gains (hsub : DeclaresNames sub) {ty : Ty} {ns : List Node}
    (h : EmitsDeclarators sub scope ty ns d d') :
    d.module.Gains d'.module (ns.filterMap Source.prototypeName?) := by
  induction h with
  | nil => exact .refl _
  | @cons n ns d d₁ d' head tail ih =>
    rw [filterMap_cons_toList]
    exact (emitsDeclarator_gains hsub head).trans ih

theorem emitsArm_gains (hsub : DeclaresNames sub) {arm : Node} {merge : Nat}
    (h : EmitsArm sub scope arm merge d d') :
    d.module.Gains d'.module (Source.declaredIn arm) := by
  cases h with
  | arm body =>
    rw [fallThrough_module]
    exact (hsub.step body).1

theorem emitsNode_gains (hsub : DeclaresNames sub) :
    DeclaresNames (fun n scope d r d' => EmitsNode sub scope n d r d') := by
  refine ⟨fun {n scope d d' r} h => ?_⟩
  -- a node with a value, or without effect on declarations
  have plain : ∀ {d' : Draft}, n.kind ∈ [Syntax.Kind.int, .float, .char, .identifier, .returnExpr,
      .assignmentExpression, .functionCall] → d.module.Gains d'.module [] →
      d.module.Gains d'.module (Source.declaredIn n) ∧
        ∀ v, r = .value v → Source.declaredIn n = [] := by
    intro d' hk hg
    have e := Source.declaredIn_expression hk
    rw [e]
    exact ⟨hg, fun _ _ => rfl⟩
  cases h with
  | sequence kind all =>
    rw [Source.declaredIn_sequence kind]
    exact ⟨emitsAll_gains hsub all, nofun⟩
  | wrapper kind children body =>
    rw [Source.declaredIn_wrapper kind children]
    exact hsub.step body
  | literal reads =>
    refine plain ?_ (.refl _)
    unfold Node.literal? at reads
    cases hk : n.kind <;> simp [hk] at reads ⊢
  | identifier kind bound object =>
    refine plain (by simp [kind]) ?_
    rw [Draft.emit_module]
    exact .refl _
  | declaration kind type all =>
    rw [Source.declaredIn_declaration kind]
    exact ⟨emitsDeclarators_gains hsub all, nofun⟩
  | ifThen kind first second third value test arm =>
    have hv := hsub.value value
    have ha := emitsArm_gains hsub arm
    rw [fork_module, conditionIn_module test] at ha
    rw [Source.declaredIn_if kind, second, third]
    refine ⟨?_, nofun⟩
    have hall := hv.trans ha
    simpa [Draft.moveTo] using hall
  | ifElse kind first second third value test arm other =>
    have hv := hsub.value value
    have ha := emitsArm_gains hsub arm
    have hb := emitsArm_gains hsub other
    rw [fork_module, conditionIn_module test] at ha
    rw [Source.declaredIn_if kind, second, third]
    refine ⟨?_, nofun⟩
    have hall := hv.trans (ha.trans hb)
    simpa [Draft.moveTo] using hall
  | returnNothing kind nothing void =>
    refine plain (by simp [kind]) ?_
    rw [Draft.close_module]
    exact .refl _
  | returnValue kind operand object value converts =>
    refine plain (by simp [kind]) ?_
    rw [Draft.close_module, convertIn_module converts]
    exact hsub.value value
  | assignment kind first second identifier bound value fits =>
    refine plain (by simp [kind]) ?_
    rw [Draft.emit_module]
    exact hsub.value value
  | call kind named known values function fits =>
    refine plain (by simp [kind]) ?_
    rw [Draft.emit_module]
    exact emitsValues_gains hsub values

theorem emits_gains : ∀ h : Nat, DeclaresNames (Emits h)
  | 0 => ⟨fun he => he.elim⟩
  | h + 1 => emitsNode_gains (emits_gains h)

end gains

/-! ## Programs and modules -/

/-- The function was built from a definition. -/
inductive Compiled (m : Module) (f : Function) : Source.Definition → Prop
  | intro {h k : Nat} {scope : ScopeId} {file : File} {g : Function} {params : List (Node × Ty)}
    {body : Node} {d : Draft} (opens : Opens file scope k g params)
    (built : BuildsBody h scope file g params body d) (same : d.function = f)
    (finished : d.function.Finished d.module) (grows : d.module.Grows m) :
    Compiled m f ⟨f.name, params.map (·.1.text), f.signature.ret, body⟩

theorem Compiled.grow {m m' : Module} {f : Function} {def_ : Source.Definition}
    (h : Compiled m f def_) (hm : m.Grows m') : Compiled m' f def_ := by
  cases h with
  | intro opens built same finished grows =>
    exact .intro opens built same finished (grows.trans hm)

/-- A definition has the name and as many parameters as the function that was built from it. -/
theorem Compiled.header {m : Module} {f : Function} {def_ : Source.Definition}
    (h : Compiled m f def_) :
    def_.name = f.name ∧ def_.params.length = f.signature.params.length := by
  cases h with
  | intro opens built same finished grows =>
    subst same
    refine ⟨rfl, ?_⟩
    rw [(opens.leaves built).signature, opens.types, List.length_map, List.length_map]

theorem Compiled.entry {m : Module} {f : Function} {def_ : Source.Definition}
    (h : Compiled m f def_) : ∃ rest, f.layout = 0 :: rest := by
  cases h with
  | intro opens built same finished grows =>
    subst same
    obtain ⟨cur, hs, -⟩ := finished.shape
    exact List.head?_eq_some_iff.1 hs.entry

/-- The module holds what the program states. -/
structure Reflects (p : Source.Program) (m : Module) : Prop where
  globals : m.globals.map (·.name) = p.globals
  functions : ∀ name, name ∈ m.functionNames ↔ name ∈ p.functions
  defined : ∀ d ∈ p.definitions, d.name ∈ p.functions
  bare : ∀ f ∈ m.functions, p.definition? f.name = none → f.layout = []
  compiled : ∀ f ∈ m.functions, ∀ d, p.definition? f.name = some d → Compiled m f d

section reflects

variable {p : Source.Program} {m m' : Module}

theorem definition?_name {name : String} {d : Source.Definition} (h : p.definition? name = some d) :
    d ∈ p.definitions ∧ d.name = name := by
  refine ⟨List.mem_of_find?_eq_some h, ?_⟩
  unfold Source.Program.definition? at h
  have hb := List.find?_some h
  simpa using hb

theorem Reflects.undefined (h : Reflects p m) {name : String} (hn : name ∉ m.functionNames) :
    p.definition? name = none := by
  by_contra hsome
  obtain ⟨d, hdef⟩ := Option.ne_none_iff_exists'.1 hsome
  obtain ⟨hm, e⟩ := definition?_name hdef
  exact hn ((h.functions name).2 (e ▸ h.defined d hm))

/-- More functions are declared. -/
theorem Reflects.declares (h : Reflects p m) (hd : m.Declares m') (hs : m'.Sane)
    {names : List String} (hg : m.Gains m' names) :
    Reflects { p with functions := p.functions ++ names } m' := by
  obtain ⟨new, hn, hbare⟩ := hd.functions
  -- a function that is new has no definition yet: its name was not known
  have hnew : ∀ f ∈ new, p.definition? f.name = none := by
    intro f hf
    refine h.undefined fun hold => ?_
    have hnd := (List.nodup_append.1 hs.names).2.1
    rw [hn, List.map_append, List.nodup_append] at hnd
    exact hnd.2.2 _ hold _ (List.mem_map.2 ⟨f, hf, rfl⟩) rfl
  refine ⟨?_, fun name => ?_, fun d hm => ?_, fun f hf hdef => ?_, fun f hf d hdef => ?_⟩
  · rw [hd.globals]
    exact h.globals
  · rw [hg name, h.functions name, List.mem_append]
  · exact List.mem_append_left _ (h.defined d hm)
  · rw [hn] at hf
    rcases List.mem_append.1 hf with hf | hf
    · exact h.bare f hf hdef
    · rw [hbare f hf]
  · rw [hn] at hf
    rcases List.mem_append.1 hf with hf | hf
    · exact (h.compiled f hf d hdef).grow hd.grows
    · cases (hnew f hf).symm.trans hdef

theorem Reflects.addGlobal (h : Reflects p m) (x : Global) :
    Reflects { p with globals := p.globals ++ [x.name] } (m.addGlobal x) := by
  refine ⟨?_, h.functions, h.defined, h.bare, fun f hf d hdef => ?_⟩
  · show (m.globals ++ [x]).map (·.name) = _
    rw [List.map_append, h.globals]
    rfl
  · exact (h.compiled f hf d hdef).grow addGlobal_grows

/-- A function that had no body gets one. -/
theorem Reflects.define (h : Reflects p m) (hs : m.Sane) {k : Nat} {f g : Function}
    {d : Source.Definition} (hg : m.functions[k]? = some g) (hbare : g.layout = [])
    (hn : f.name = g.name) (hsig : f.signature = g.signature)
    (hc : Compiled (m.put k f) f d) (hd : d.name = f.name) :
    Reflects { p with definitions := p.definitions ++ [d] } (m.put k f) := by
  have hgrows : m.Grows (m.put k f) := put_grows hg hn.symm hsig.symm
  have hfresh : p.definition? f.name = none := by
    by_contra hsome
    obtain ⟨d', hdef⟩ := Option.ne_none_iff_exists'.1 hsome
    rw [hn] at hdef
    obtain ⟨rest, hl⟩ := (h.compiled g (List.mem_of_getElem? hg) d' hdef).entry
    rw [hbare] at hl
    cases hl
  have hfind : ∀ name, ({ p with definitions := p.definitions ++ [d] } : Source.Program).definition?
      name = (p.definition? name).or (if d.name = name then some d else none) := by
    intro name
    show (p.definitions ++ [d]).find? _ = _
    rw [List.find?_append]
    congr 1
    by_cases e : d.name = name
    · simp [e]
    · simp [e]
  have hnames : (m.put k f).functionNames = m.functionNames := Module.put_names hg hn.symm
  -- every other function has another name
  have hother : ∀ e ∈ (m.put k f).functions, e = f ∨ e ∈ m.functions ∧ d.name ≠ e.name := by
    intro e he
    rcases mem_put_cases hs hg hn.symm he with e' | ⟨hm, hne⟩
    · exact .inl e'
    · exact .inr ⟨hm, hd ▸ hne.symm⟩
  refine ⟨h.globals, fun name => ?_, fun d' hd' => ?_, fun e he hdef => ?_, fun e he d' hdef => ?_⟩
  · rw [hnames]
    exact h.functions name
  · rcases List.mem_append.1 hd' with hd' | hd'
    · exact h.defined d' hd'
    · rw [List.mem_singleton.1 hd', hd, hn]
      exact (h.functions g.name).1 (List.mem_map.2 ⟨g, List.mem_of_getElem? hg, rfl⟩)
  · rw [hfind] at hdef
    rcases hother e he with rfl | ⟨hm, hne⟩
    · simp [hd] at hdef
    · rw [if_neg hne, Option.or_none] at hdef
      exact h.bare e hm hdef
  · rw [hfind] at hdef
    rcases hother e he with rfl | ⟨hm, hne⟩
    · rw [hfresh, hd, if_pos rfl, Option.none_or] at hdef
      cases hdef
      exact hc
    · rw [if_neg hne, Option.or_none] at hdef
      exact (h.compiled e hm d' hdef).grow hgrows

/-! ## Items -/

variable {scope : ScopeId} {file file' : File} {n : Node}

theorem buildsDeclarator_reflects {ty : Ty} (hty : ty = .void ∨ ty.isArithmetic = true)
    (hi : file.Inv scope) (hr : Reflects p file.module) (h : BuildsDeclarator scope ty n file file') :
    Reflects { p with
      globals := p.globals ++ (Source.variableName? n).toList
      functions := p.functions ++ (Source.prototypeName? n).toList } file'.module := by
  cases h with
  | prototype kind reads registers =>
    have hp := Syntax.FunctionDeclarator.signature_plain (Node.functionDeclarator_ok reads) hty
    have hnew := hr.declares registers.declares (registers.sane hi.sane hp) (.of_registers registers)
    rw [prototypeName?_prototype kind reads, Source.variableName?, if_pos kind]
    simpa using hnew
  | @global name init c kind named object noGlobal noFunction fits defines =>
    have hnew := hr.addGlobal { name := name.text, ty, init }
    rw [prototypeName?_variable kind, Source.variableName?, if_neg kind, named]
    simpa using hnew

theorem buildsDeclarators_reflects {ty : Ty} (hty : ty = .void ∨ ty.isArithmetic = true)
    {ns : List Node} (h : BuildsDeclarators scope ty ns file file') :
    ∀ {p : Source.Program}, file.Inv scope → Reflects p file.module →
      Reflects { p with
        globals := p.globals ++ ns.filterMap Source.variableName?
        functions := p.functions ++ ns.filterMap Source.prototypeName? } file'.module := by
  induction h with
  | nil =>
    intro p _ hr
    simpa using hr
  | cons head tail ih =>
    intro p hi hr
    have hi₁ := (buildsDeclarator_preserves hty hi head).1
    have hr₁ := ih hi₁ (buildsDeclarator_reflects hty hi hr head)
    rw [filterMap_cons_toList, filterMap_cons_toList, ← List.append_assoc, ← List.append_assoc]
    exact hr₁

/-- The program of more items. -/
theorem ofItems_concat (ns : List Node) (n : Node) : Source.Program.ofItems (ns ++ [n]) = {
    globals := (Source.Program.ofItems ns).globals ++ Source.variablesOf n
    functions := (Source.Program.ofItems ns).functions ++ Source.declaredBy n
    definitions := (Source.Program.ofItems ns).definitions ++ (Source.definition? n).toList } := by
  unfold Source.Program.ofItems
  rw [List.flatMap_append, List.flatMap_append, List.filterMap_append, List.flatMap_singleton,
    List.flatMap_singleton, filterMap_cons_toList]
  simp

theorem definition?_none (h : n.kind ≠ .functionDefinition) : Source.definition? n = none := by
  rw [Source.definition?, guard, if_neg h]
  rfl

theorem spills_module {i : Nat} {params : List (Node × Ty)} {d d' : Draft}
    (h : Spills scope i params d d') : d'.module = d.module := by
  induction h with
  | nil => rfl
  | @cons i name ty ps d d' c defines rest ih =>
    have hemit : ((d.addSlot (argSlot name ty i)).emit .void
        (.store (nextSlot d ty).operand (.arg i))).module = d.module := Draft.emit_module
    exact ih.trans hemit

theorem closes_module {ret : Ty} {d d' : Draft} (h : Closes ret d d') : d'.module = d.module := by
  cases h with
  | closed | live => rfl
  | void | dead => exact Draft.close_module

theorem buildsBody_gains {h : Nat} {f : Function} {params : List (Node × Ty)} {body : Node}
    {d : Draft} (hb : BuildsBody h scope file f params body d) :
    file.module.Gains d.module (Source.declaredIn body) := by
  cases hb with
  | body spills emits closes =>
    have hg := ((emits_gains h).step emits).1
    rw [spills_module spills] at hg
    rw [closes_module closes]
    exact hg

theorem buildsItem_reflects {ns : List Node} (hi : file.Inv scope)
    (hr : Reflects (.ofItems ns) file.module) (h : BuildsItem scope n file file') :
    Reflects (.ofItems (ns ++ [n])) file'.module := by
  rw [ofItems_concat]
  cases h with
  | literal reads =>
    unfold Node.literal? at reads
    have hk : n.kind ∈ [Syntax.Kind.int, .float, .char, .identifier, .returnExpr,
        .assignmentExpression, .functionCall] ∧ n.kind ≠ .declaration ∧
        n.kind ≠ .functionDefinition := by
      cases hk : n.kind <;> simp [hk] at reads ⊢
    rw [Source.variablesOf, if_neg hk.2.1, Source.declaredBy, definition?_none hk.2.2]
    dsimp only
    rw [Source.declaredIn_expression hk.1]
    simpa using hr
  | declaration kind type all =>
    have hnew := buildsDeclarators_reflects (Node.specifiedType_ok type) all hi hr
    rw [Source.variablesOf, if_pos kind, Source.declaredBy, definition?_none (by simp [kind])]
    dsimp only
    rw [Source.declaredIn_declaration kind]
    simpa using hnew
  | @definition specifiers declarator body ret decl params m k h f d kind first second third type
      reads named registers function bare built finished =>
    have ho := opens_of_definition hi type reads named registers function bare
    have hl := ho.leaves built
    have hk := hl.declares.getElem? function
    have hregistered := hr.declares registers.declares ho.inv.sane (.of_registers registers)
    have hdeclared := hregistered.declares hl.declares hl.sane (buildsBody_gains built)
    have hc : Compiled (d.module.put k d.function) d.function ⟨d.function.name,
        params.map (·.1.text), d.function.signature.ret, body⟩ :=
      .intro ho built rfl finished (put_grows hk hl.name.symm hl.signature.symm)
    have hdefined := hdeclared.define hl.sane hk (by rw [bare]) hl.name hl.signature hc rfl
    have hdef : Source.definition? n = some ⟨d.function.name, params.map (·.1.text),
        d.function.signature.ret, body⟩ := by
      rw [hl.name, hl.signature, bare, Source.definition?, guard, if_pos kind]
      simp [first, second, third, type, reads, (namedParams_ok named).2, Except.toOption,
        Syntax.FunctionDeclarator.signature]
    have hname : d.function.name = decl.name.text := by rw [hl.name, bare]
    rw [Source.variablesOf, if_neg (by simp [kind]), Source.declaredBy, hdef]
    rw [← hname] at hdefined
    simpa [File.finish] using hdefined

theorem buildsAll_reflects {ns : List Node} (h : BuildsAll scope ns file file') :
    ∀ {ms : List Node}, file.Inv scope → Reflects (.ofItems ms) file.module →
      Reflects (.ofItems (ms ++ ns)) file'.module := by
  induction h with
  | nil =>
    intro ms _ hr
    rwa [List.append_nil]
  | cons head tail ih =>
    intro ms hi hr
    rw [List.append_cons]
    exact ih (buildsItem_preserves hi head).1 (buildsItem_reflects hi hr head)

end reflects

end Lowering

end SlotIR
