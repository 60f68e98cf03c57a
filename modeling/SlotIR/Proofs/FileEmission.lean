import SlotIR.Proofs.Definition

/-!
# What lowering builds at file scope

Outside of bodies lowering declares globals and functions and builds one body after the other.
`BuildsAll` relates the items of a file to the module and the scopes before and after them. Between
any two items every function is declared only or has a finished body, and the names in scope are the
globals (`File.Inv`); `buildsAll_preserves` is the run lemma for that.
-/

namespace SlotIR

/-- A function that was only declared, or has a finished body. -/
def Function.Complete (m : Module) (f : Function) : Prop :=
  f = { name := f.name, signature := f.signature } ∨ f.Finished m

theorem Function.Complete.grow {m m' : Module} {f : Function} (hm : m.Grows m')
    (h : f.Complete m) : f.Complete m' :=
  h.imp id (·.grow hm)

namespace Lowering

open Syntax (Node)
open Builder

/-! ## Files -/

/-- A module between two items of a file. -/
structure File where
  module : Module
  scopes : ScopeChain

def File.builder (file : File) : Builder :=
  { module := file.module, scopes := file.scopes }

/-- The bindings of globals, the latest first. -/
def globalBindings (gs : List Global) : List (String × Value) :=
  (gs.mapIdx fun i g => (g.name, (⟨.global i, .ptr g.ty⟩ : Value))).reverse

/-- What holds between two items: the scope of the file is the only one and binds the globals. -/
structure File.Inv (scope : ScopeId) (file : File) : Prop where
  sane : file.module.Sane
  functions : ∀ f ∈ file.module.functions, f.Complete file.module
  nested : ∃ s, file.scopes.Nested scope s [] ∧ s.symbols = globalBindings file.module.globals

/-- The draft of a function at the start of its body. -/
def File.start (file : File) (f : Function) (params : List (Node × Ty)) : Draft where
  module := file.module
  scopes := file.scopes
  function := { f with
    paramNames := params.map (·.1.text)
    blocks := [{ name := f.name ++ "_block" }]
    layout := [0] }
  block := 0

/-- The file after the body of the function with index `k`, which was built in a scope of its own. -/
def File.finish (file : File) (k : Nat) (d : Draft) : File where
  module := d.module.put k d.function
  scopes := d.scopes.pop file.scopes.opened

/-- The body of a definition from its start to its end. -/
inductive BuildsBody (h : Nat) (scope : ScopeId) (file : File) (f : Function)
    (params : List (Node × Ty)) (body : Node) : Draft → Prop
  | body {d₁ d₂ d₃ : Draft} {r : Lowered}
    (spills : Spills file.scopes.opened 0 params ((file.start f params).enter scope) d₁)
    (emits : Emits h body file.scopes.opened d₁ r d₂) (closes : Closes f.signature.ret d₂ d₃) :
    BuildsBody h scope file f params body d₃

/-- A declarator at file scope. -/
inductive BuildsDeclarator (scope : ScopeId) (ty : Ty) (n : Node) (file : File) : File → Prop
  | prototype {decl : Syntax.FunctionDeclarator} {m : Module} {i : Nat}
    (kind : n.kind = .functionDeclarator) (reads : n.functionDeclarator = .ok decl)
    (registers : file.module.Registers decl.name.text (decl.signature ty) m i) :
    BuildsDeclarator scope ty n file { file with module := m }
  | global {name : Node} {init : Scalar} {c : ScopeChain} (kind : n.kind ≠ .functionDeclarator)
    (named : n.identifier? = some name) (object : ty ≠ .void)
    (noGlobal : file.module.globalIndex? name.text = none)
    (noFunction : file.module.functionIndex? name.text = none) (fits : init.ty = ty)
    (defines : file.scopes.define? scope name.text
      ⟨.global file.module.globals.length, .ptr ty⟩ = some c) :
    BuildsDeclarator scope ty n file
      { module := file.module.addGlobal { name := name.text, ty, init }, scopes := c }

inductive BuildsDeclarators (scope : ScopeId) (ty : Ty) : List Node → File → File → Prop
  | nil {file : File} : BuildsDeclarators scope ty [] file file
  | cons {n : Node} {ns : List Node} {file file₁ file' : File}
    (head : BuildsDeclarator scope ty n file file₁)
    (tail : BuildsDeclarators scope ty ns file₁ file') :
    BuildsDeclarators scope ty (n :: ns) file file'

/-- An item of a file. -/
inductive BuildsItem (scope : ScopeId) (n : Node) (file : File) : File → Prop
  | literal {v : Scalar} (reads : n.literal? = some v) : BuildsItem scope n file file
  | declaration {ty : Ty} {file' : File} (kind : n.kind = .declaration)
    (type : n.specifiedType = .ok ty)
    (all : BuildsDeclarators scope ty n.declarators file file') : BuildsItem scope n file file'
  | definition {specifiers declarator body : Node} {ret : Ty} {decl : Syntax.FunctionDeclarator}
    {params : List (Node × Ty)} {m : Module} {k h : Nat} {f : Function} {d : Draft}
    (kind : n.kind = .functionDefinition) (first : n.nth? 0 = some specifiers)
    (second : n.child? .functionDeclarator = some declarator)
    (third : n.child? .compoundStatement = some body) (type : specifiers.specifiedType = .ok ret)
    (reads : declarator.functionDeclarator = .ok decl)
    (named : namedParams n decl.name.text decl.params = .ok params)
    (registers : file.module.Registers decl.name.text (decl.signature ret) m k)
    (function : m.functions[k]? = some f)
    (bare : f = { name := decl.name.text, signature := decl.signature ret })
    (built : BuildsBody h scope { file with module := m } f params body d)
    (finished : d.function.Finished d.module) :
    BuildsItem scope n file (file.finish k d)

inductive BuildsAll (scope : ScopeId) : List Node → File → File → Prop
  | nil {file : File} : BuildsAll scope [] file file
  | cons {n : Node} {ns : List Node} {file file₁ file' : File}
    (head : BuildsItem scope n file file₁) (tail : BuildsAll scope ns file₁ file') :
    BuildsAll scope (n :: ns) file file'

theorem BuildsAll.append {scope : ScopeId} {ns ms : List Node} {file file₁ file' : File}
    (h : BuildsAll scope ns file file₁) (h' : BuildsAll scope ms file₁ file') :
    BuildsAll scope (ns ++ ms) file file' := by
  induction h with
  | nil => exact h'
  | cons head tail ih => exact .cons head (ih h')

/-! ## Modules between items -/

section module

variable {m : Module} {k : Nat} {f g : Function}

theorem put_grows (hg : m.functions[k]? = some g) (hn : g.name = f.name)
    (hs : g.signature = f.signature) : m.Grows (m.put k f) := by
  refine ⟨fun h => h, fun {i} {e} he => ?_⟩
  by_cases hik : i = k
  · subst hik
    cases hg.symm.trans he
    exact ⟨f, Draft.getElem?_put (List.getElem?_eq_some_iff.1 hg).1, hn.symm, hs.symm⟩
  · exact ⟨e, (Draft.getElem?_put_of_ne hik).trans he, rfl, rfl⟩

theorem put_sane (hm : m.Sane) (hg : m.functions[k]? = some g) (hn : g.name = f.name)
    (hs : g.signature = f.signature) : (m.put k f).Sane := by
  refine ⟨hm.indexed.put hg hn, ?_, hm.globals, fun e he => ?_⟩
  · rw [Module.put_names hg hn]
    exact hm.names
  · rcases List.mem_or_eq_of_mem_set he with he | rfl
    · exact hm.signatures e he
    · rw [← hs]
      exact hm.signatures g (List.mem_of_getElem? hg)

/-- Every function but the one that was put has another name. -/
theorem mem_put_cases (hm : m.Sane) (hg : m.functions[k]? = some g) (hn : g.name = f.name)
    {e : Function} (he : e ∈ (m.put k f).functions) :
    e = f ∨ e ∈ m.functions ∧ e.name ≠ f.name := by
  obtain ⟨i, hi⟩ := List.mem_iff_getElem?.1 he
  by_cases hik : i = k
  · subst hik
    rw [Draft.getElem?_put (List.getElem?_eq_some_iff.1 hg).1] at hi
    exact .inl (Option.some.inj hi).symm
  · rw [Draft.getElem?_put_of_ne hik] at hi
    refine .inr ⟨List.mem_of_getElem? hi, fun hname => hik ?_⟩
    exact index_eq_of_nodup (List.nodup_append.1 hm.names).2.1 hi hg (hname.trans hn.symm)

theorem put_complete (hm : ∀ e ∈ m.functions, e.Complete m) (hf : f.Finished m)
    (hgrow : m.Grows (m.put k f)) : ∀ e ∈ (m.put k f).functions, e.Complete (m.put k f) := by
  intro e he
  rcases List.mem_or_eq_of_mem_set he with he | rfl
  · exact (hm e he).grow hgrow
  · exact .inr (hf.grow hgrow)

theorem declares_complete {m' : Module} (hm : ∀ e ∈ m.functions, e.Complete m)
    (hd : m.Declares m') : ∀ e ∈ m'.functions, e.Complete m' := by
  obtain ⟨new, hn, hb⟩ := hd.functions
  intro e he
  rw [hn] at he
  rcases List.mem_append.1 he with he | he
  · exact (hm e he).grow hd.grows
  · exact .inl (hb e he)

variable {x : Global}

theorem addGlobal_grows : m.Grows (m.addGlobal x) := by
  refine ⟨fun {i} {y} h => ?_, fun {i} {e} h => ⟨e, h, rfl, rfl⟩⟩
  show (m.globals ++ [x])[i]? = some y
  rw [List.getElem?_append_left (List.getElem?_eq_some_iff.1 h).1]
  exact h

theorem addGlobal_sane (hm : m.Sane) (hg : m.globalIndex? x.name = none)
    (hf : m.functionIndex? x.name = none) (ha : x.ty.isArithmetic = true) (hi : x.init.ty = x.ty) :
    (m.addGlobal x).Sane := by
  refine ⟨hm.indexed.addGlobal x, ?_, fun y hy => ?_, hm.signatures⟩
  · have hnew : x.name ∉ m.globals.map (·.name) ++ m.functions.map (·.name) := by
      rw [List.mem_append]
      rintro (h | h)
      · exact (Module.globalIndex?_none hm.indexed).1 hg h
      · exact (Module.functionIndex?_none hm.indexed).1 hf h
    show ((m.globals ++ [x]).map (·.name) ++ m.functions.map (·.name)).Nodup
    rw [List.map_append, List.append_assoc]
    exact List.nodup_middle.2 (List.nodup_cons.2 ⟨hnew, hm.names⟩)
  · rcases List.mem_append.1 hy with hy | hy
    · exact hm.globals y hy
    · rw [List.mem_singleton.1 hy]
      exact ⟨ha, hi⟩

end module

theorem globalBindings_append (gs : List Global) (x : Global) :
    globalBindings (gs ++ [x]) = (x.name, ⟨.global gs.length, .ptr x.ty⟩) :: globalBindings gs := by
  simp [globalBindings, List.mapIdx_append]

theorem mem_globalBindings {gs : List Global} {p : String × Value} (h : p ∈ globalBindings gs) :
    ∃ (i : Nat) (x : Global), p = (x.name, ⟨.global i, .ptr x.ty⟩) ∧ gs[i]? = some x := by
  obtain ⟨i, hi, rfl⟩ := List.mem_mapIdx.1 (List.mem_reverse.1 h)
  exact ⟨i, gs[i], rfl, List.getElem?_eq_getElem hi⟩

/-! ## Bodies -/

section start

variable {file : File} {scope : ScopeId} {k : Nat} {f : Function} {params : List (Node × Ty)}

theorem start_inv (hm : file.module.Sane) (hf : file.module.functions[k]? = some f)
    (hb : f = { name := f.name, signature := f.signature }) :
    (file.start f params).Inv k [] := by
  have hone : ∀ {i : Nat} {b : Block}, (file.start f params).function.blocks[i]? = some b →
      i = 0 ∧ b = { name := f.name ++ "_block" } := by
    intro i b h
    cases i with
    | zero => exact ⟨rfl, (Option.some.inj h).symm⟩
    | succ i => cases h
  refine ⟨hm, ⟨f, hf, rfl, rfl⟩, ?_, ?_, ?_⟩
  · refine ⟨⟨[], rfl⟩, List.Perm.refl _, rfl, by simp, ?_, ?_, ?_⟩
    · intro i hi hne
      exact absurd (List.mem_singleton.1 hi) hne
    · intro i hi b hbl j hj
      obtain ⟨-, rfl⟩ := hone hbl
      rw [Function.goesTo_of_open rfl] at hj
      cases hj
    · have hz : f.nextValue = 0 := by rw [hb]
      show [0].flatMap _ = List.range f.nextValue
      rw [hz]
      rfl
  · refine ⟨fun s hs => ?_, fun i b hbl => ?_⟩
    · have hz : f.slots = [] := by rw [hb]
      rw [show (file.start f params).function.slots = f.slots from rfl, hz] at hs
      cases hs
    · obtain ⟨-, rfl⟩ := hone hbl
      exact ⟨trivial, nofun⟩
  · intro i b hbl
    obtain ⟨-, rfl⟩ := hone hbl
    nofun

theorem start_scoped {s : Scope} (hn : file.scopes.Nested scope s [])
    (hs : s.symbols = globalBindings file.module.globals) :
    (file.start f params).Scoped scope [] (globalBindings file.module.globals) := by
  refine ⟨⟨s, [], hn⟩, ?_, by simp, by simp, fun p hp => ?_⟩
  · show bindingsOf file.scopes.live = _
    rw [hn.live, bindingsOf_cons, hs]
    simp [bindingsOf]
  · obtain ⟨i, x, rfl, hx⟩ := mem_globalBindings hp
    exact ⟨i, x, rfl, hx⟩

end start

/-- The parameters of a definition are those of its declarator, all with names. -/
theorem namedParams_ok {n : Node} {name : String} {ps : List Syntax.Param} :
    ∀ {params : List (Node × Ty)}, namedParams n name ps = .ok params →
      ps.map (·.ty) = params.map (·.2) ∧ ps.filterMap (·.name) = params.map (·.1) := by
  induction ps with
  | nil =>
    intro params h
    cases h
    exact ⟨rfl, rfl⟩
  | cons p ps ih =>
    intro params h
    unfold namedParams at h
    cases hp : p.name with
    | none =>
      rw [hp] at h
      cases h
    | some node =>
      cases hr : namedParams n name ps with
      | error e => simp [hp, hr, bind, Except.bind] at h
      | ok rest =>
        simp only [hp, hr, bind, Except.bind, pure, Except.pure, Except.ok.injEq] at h
        subst h
        obtain ⟨hty, hnames⟩ := ih hr
        simp [hp, hty, hnames]

/-- What a definition has to say about the function that its body is for. -/
structure Opens (file : File) (scope : ScopeId) (k : Nat) (f : Function)
    (params : List (Node × Ty)) : Prop where
  inv : file.Inv scope
  function : file.module.functions[k]? = some f
  bare : f = { name := f.name, signature := f.signature }
  types : f.signature.params = params.map (·.2)
  arithmetic : ∀ p ∈ params, p.2.isArithmetic = true

section body

variable {h k : Nat} {file : File} {scope : ScopeId} {f : Function} {params : List (Node × Ty)}
  {body : Node} {d d₁ d₂ : Draft}

theorem Opens.start_inv (ho : Opens file scope k f params) :
    ((file.start f params).enter scope).Inv k [] :=
  (Lowering.start_inv ho.inv.sane ho.function ho.bare).rescope _

theorem Opens.start_scoped (ho : Opens file scope k f params) :
    ((file.start f params).enter scope).Scoped file.scopes.opened []
      (globalBindings file.module.globals) := by
  obtain ⟨s, hn, hs⟩ := ho.inv.nested
  exact (Lowering.start_scoped hn hs).enter

theorem Opens.spills_continues (ho : Opens file scope k f params)
    (hsp : Spills file.scopes.opened 0 params ((file.start f params).enter scope) d₁) :
    ∃ new, Continues k [] file.scopes.opened [] (globalBindings file.module.globals) new
      ((file.start f params).enter scope) d₁ :=
  spills_preserves hsp ho.start_inv ho.start_scoped ho.arithmetic ho.types

theorem Opens.continues (ho : Opens file scope k f params) {r : Lowered}
    (hsp : Spills file.scopes.opened 0 params ((file.start f params).enter scope) d₁)
    (he : Emits h body file.scopes.opened d₁ r d₂) :
    ∃ new, Continues k [] file.scopes.opened [] (globalBindings file.module.globals) new
      ((file.start f params).enter scope) d₂ := by
  obtain ⟨new, hc⟩ := ho.spills_continues hsp
  obtain ⟨new', hc', -⟩ := (emits_preserves h).step he hc.inv hc.visible
  exact ⟨new' ++ new, hc.trans hc'⟩

/-- What a body leaves behind besides the function. -/
structure Leaves (file : File) (scope : ScopeId) (f : Function) (d : Draft) : Prop where
  name : d.function.name = f.name
  signature : d.function.signature = f.signature
  declares : file.module.Declares d.module
  sane : d.module.Sane
  nested : ∃ s, (d.scopes.pop file.scopes.opened).Nested scope s [] ∧
    s.symbols = globalBindings file.module.globals

theorem Opens.leaves (ho : Opens file scope k f params)
    (hb : BuildsBody h scope file f params body d) : Leaves file scope f d := by
  cases hb with
  | body spills emits closes =>
    obtain ⟨new, hc⟩ := ho.continues spills emits
    obtain ⟨hext, hscopes⟩ := closes_extends closes
    obtain ⟨s, hn, hs⟩ := ho.inv.nested
    have hgrows := hc.grows.trans hext
    refine ⟨hgrows.function.name, hgrows.function.signature, hgrows.module, ?_, s, ?_, hs⟩
    · cases closes with
      | closed | live => exact hc.inv.sane
      | void | dead =>
        rw [Draft.close_module]
        exact hc.inv.sane
    · rw [hscopes]
      exact (hc.widens _ _ hn.push).pop

/-- A body that is not finished has an open end in a function that should return something. -/
theorem Opens.cases (ho : Opens file scope k f params)
    (hb : BuildsBody h scope file f params body d) :
    d.function.Finished d.module ∨ (d.Inv k [] ∧ f.signature.ret ≠ .void ∧
      d.function.closedAt d.block = false) := by
  cases hb with
  | body spills emits closes =>
    obtain ⟨new, hc⟩ := ho.continues spills emits
    have hret := congrArg Signature.ret hc.grows.function.signature
    rcases closes_cases hc.inv hret closes with hf | ⟨rfl, hv, hopen⟩
    · exact .inl hf
    · exact .inr ⟨hc.inv, hv, hopen⟩

end body

/-! ## Items -/

section items

variable {scope : ScopeId} {file file' : File}

theorem File.Inv.register (hi : file.Inv scope) {name : String} {sig : Signature} {m : Module}
    {i : Nat} (hp : sig.Plain) (hr : file.module.Registers name sig m i) :
    File.Inv scope { file with module := m } := by
  have hd := hr.declares
  refine ⟨hr.sane hi.sane hp, declares_complete hi.functions hd, ?_⟩
  rw [hd.globals]
  exact hi.nested

theorem buildsDeclarator_preserves {ty : Ty} {n : Node}
    (hty : ty = .void ∨ ty.isArithmetic = true) (hi : file.Inv scope)
    (h : BuildsDeclarator scope ty n file file') :
    file'.Inv scope ∧ file.module.Grows file'.module := by
  cases h with
  | prototype kind reads registers =>
    have hp := Syntax.FunctionDeclarator.signature_plain (Node.functionDeclarator_ok reads) hty
    exact ⟨hi.register hp registers, registers.declares.grows⟩
  | @global name init c kind named object noGlobal noFunction fits defines =>
    have hgrows := addGlobal_grows (m := file.module) (x := { name := name.text, ty, init })
    obtain ⟨s, hn, hs⟩ := hi.nested
    obtain ⟨-, hn'⟩ := hn.define defines
    refine ⟨⟨?_, fun f hf => (hi.functions f hf).grow hgrows, _, hn', ?_⟩, hgrows⟩
    · exact addGlobal_sane hi.sane noGlobal noFunction (hty.resolve_left object) fits
    · show (name.text, _) :: s.symbols = globalBindings (file.module.globals ++ [_])
      rw [globalBindings_append, hs]

theorem buildsDeclarators_preserves {ty : Ty} {ns : List Node}
    (hty : ty = .void ∨ ty.isArithmetic = true) (h : BuildsDeclarators scope ty ns file file') :
    file.Inv scope → file'.Inv scope ∧ file.module.Grows file'.module := by
  induction h with
  | @nil file =>
    intro hi
    exact ⟨hi, .refl _⟩
  | cons head tail ih =>
    intro hi
    obtain ⟨hi₁, hg₁⟩ := buildsDeclarator_preserves hty hi head
    obtain ⟨hi', hg'⟩ := ih hi₁
    exact ⟨hi', hg₁.trans hg'⟩

/-- The file in which the body of a definition is built. -/
theorem opens_of_definition (hi : file.Inv scope) {n specifiers declarator : Node} {ret : Ty}
    {decl : Syntax.FunctionDeclarator} {params : List (Node × Ty)} {m : Module} {k : Nat}
    {f : Function} (type : specifiers.specifiedType = .ok ret)
    (reads : declarator.functionDeclarator = .ok decl)
    (named : namedParams n decl.name.text decl.params = .ok params)
    (registers : file.module.Registers decl.name.text (decl.signature ret) m k)
    (function : m.functions[k]? = some f)
    (bare : f = { name := decl.name.text, signature := decl.signature ret }) :
    Opens { file with module := m } scope k f params := by
  have harith := Node.functionDeclarator_ok reads
  have hp := Syntax.FunctionDeclarator.signature_plain harith (Node.specifiedType_ok type)
  obtain ⟨htypes, -⟩ := namedParams_ok named
  refine ⟨hi.register hp registers, function, by rw [bare], by rw [bare]; exact htypes, ?_⟩
  intro p hpm
  have hm : p.2 ∈ decl.params.map (·.ty) := by
    rw [htypes]
    exact List.mem_map_of_mem hpm
  obtain ⟨q, hq, e⟩ := List.mem_map.1 hm
  rw [← e]
  exact harith q hq

theorem buildsItem_preserves {n : Node} (hi : file.Inv scope) (h : BuildsItem scope n file file') :
    file'.Inv scope ∧ file.module.Grows file'.module := by
  cases h with
  | literal => exact ⟨hi, .refl _⟩
  | declaration kind type all =>
    exact buildsDeclarators_preserves (Node.specifiedType_ok type) all hi
  | @definition specifiers declarator body ret decl params m k h f d kind first second third type
      reads named registers function bare built finished =>
    have ho := opens_of_definition hi type reads named registers function bare
    have hl := ho.leaves built
    have hk := hl.declares.getElem? ho.function
    have hput := put_grows (f := d.function) hk hl.name.symm hl.signature.symm
    refine ⟨⟨put_sane hl.sane hk hl.name.symm hl.signature.symm, ?_, ?_⟩, ?_⟩
    · exact put_complete (declares_complete ho.inv.functions hl.declares) finished hput
    · obtain ⟨s, hn, hs⟩ := hl.nested
      refine ⟨s, hn, hs.trans ?_⟩
      rw [← hl.declares.globals]
      rfl
    · exact (registers.declares.grows.trans hl.declares.grows).trans hput

theorem buildsAll_preserves {ns : List Node} (h : BuildsAll scope ns file file') :
    file.Inv scope → file'.Inv scope ∧ file.module.Grows file'.module := by
  induction h with
  | @nil file =>
    intro hi
    exact ⟨hi, .refl _⟩
  | cons head tail ih =>
    intro hi
    obtain ⟨hi₁, hg₁⟩ := buildsItem_preserves hi head
    obtain ⟨hi', hg'⟩ := ih hi₁
    exact ⟨hi', hg₁.trans hg'⟩

end items

end Lowering

end SlotIR
