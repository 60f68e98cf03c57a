import SlotIR.Proofs.Generated
import SlotIR.Proofs.Provenance

/-!
# Declared functions

A function is declared by prototypes, at file scope or in a body, and by its definition.
`Source.declarations` lists them in the order in which a tree is lowered. The functions of the module are
those of the list: each stands where its name was declared first, has the signature of all its
declarations, and has a body exactly if one of them, and then only one, defines it
(`Module.Realizes`).
-/

namespace SlotIR

open Syntax (Node)

/-! ## Declarations of a tree -/

namespace Source

/-- A function as one place of a tree declares it. -/
structure Declaration where
  name : String
  signature : Signature
  /-- Whether a body comes with it. -/
  defines : Bool
deriving DecidableEq, Repr

/-- What a declarator of a function declares, with the type that stands before it. -/
def declaration? (ret : Ty) (defines : Bool) (d : Node) : Option Declaration :=
  d.functionDeclarator.toOption.map fun decl =>
    { name := decl.name.text, signature := decl.signature ret, defines }

/-- What a definition declares. -/
def heading? (n : Node) : Option Declaration := do
  let ret ← (← n.nth? 0).specifiedType.toOption
  declaration? ret true (← n.child? .functionDeclarator)

/-- What is met at a declarator: the declaration of a function, or the initializer of a variable.
Outside of bodies initializers are constants and have nothing to lower. -/
def declaratorParts (inside : Bool) (ty : Ty) (d : Node) : List (Declaration ⊕ Node) :=
  if d.kind = .functionDeclarator then (declaration? ty false d).toList.map .inl
  else if inside then (initial? d).toList.map .inr
  else []

/-- What is met at a node while it is lowered, in order: declarations of functions, and nodes below. -/
def parts (inside : Bool) (n : Node) : List (Declaration ⊕ Node) :=
  match n.kind with
  | .translationUnit | .statementList | .compoundStatement | .declarationList =>
    n.children.map .inr
  | .functionDefinition =>
    (heading? n).toList.map .inl ++ (n.child? .compoundStatement).toList.map .inr
  | .declaration => n.specifiedType.toOption.toList.flatMap fun ty =>
    n.declarators.flatMap (declaratorParts inside ty)
  | .ifElseStatement => (n.children.take 3).map .inr
  | .returnExpr => (n.nth? 0).toList.map .inr
  | .assignmentExpression => (n.nth? 1).toList.map .inr
  | .functionCall => n.arguments.map .inr
  | .expression => if n.children.length = 1 then n.children.map .inr else []
  | _ => []

/-- The declarations in a tree of at most the given height, inside or outside of a body. -/
def declarationsWithin : Nat → Bool → Node → List Declaration
  | 0, _, _ => []
  | depth + 1, inside, n => (parts inside n).flatMap fun p =>
    p.elim (fun d => [d]) (declarationsWithin depth (inside || n.kind = .functionDefinition))

def declarationsIn (inside : Bool) (n : Node) : List Declaration :=
  declarationsWithin n.height inside n

/-- What a declarator declares, with all that is in its initializer. -/
def declaratorDeclarations (inside : Bool) (ty : Ty) (d : Node) : List Declaration :=
  (declaratorParts inside ty d).flatMap fun p => p.elim (fun d => [d]) (declarationsIn inside)

/-- The declarations of functions that the lowering of a file meets, in order. -/
def declarations (root : Node) : List Declaration :=
  declarationsIn false root

section declarations

variable {inside : Bool} {n c : Node}

theorem height_declaratorParts {ty : Ty} (h : .inr c ∈ declaratorParts inside ty n) :
    c.height < n.height := by
  unfold declaratorParts at h
  split at h
  · simp at h
  · split at h
    · apply Node.height_initializer?
      simpa [initial?_eq] using h
    · cases h

theorem height_parts (h : .inr c ∈ parts inside n) : c.height < n.height := by
  unfold parts at h
  cases hk : n.kind with
  | translationUnit | statementList | compoundStatement | declarationList =>
    simp only [hk, List.mem_map, Sum.inr.injEq, exists_eq_right] at h
    exact Node.height_lt_of_mem h
  | functionDefinition =>
    have hc : n.child? .compoundStatement = some c := by simpa [hk] using h
    exact Node.height_child? hc
  | declaration =>
    simp only [hk] at h
    obtain ⟨ty, -, h⟩ := List.mem_flatMap.1 h
    obtain ⟨d, hd, h⟩ := List.mem_flatMap.1 h
    exact Nat.lt_trans (height_declaratorParts h) (Node.height_declarators hd)
  | ifElseStatement =>
    simp only [hk, List.mem_map, Sum.inr.injEq, exists_eq_right] at h
    exact Node.height_lt_of_mem (List.mem_of_mem_take h)
  | returnExpr =>
    refine Node.height_nth? (i := 0) ?_
    simpa [hk] using h
  | assignmentExpression =>
    refine Node.height_nth? (i := 1) ?_
    simpa [hk] using h
  | functionCall =>
    simp only [hk, List.mem_map, Sum.inr.injEq, exists_eq_right] at h
    exact Node.height_arguments h
  | expression =>
    simp only [hk] at h
    split at h
    · simp only [List.mem_map, Sum.inr.injEq, exists_eq_right] at h
      exact Node.height_lt_of_mem h
    · cases h
  | _ => simp [hk] at h

theorem parts_congr {sub sub' : Node → List Declaration}
    (h : ∀ c, c.height < n.height → sub c = sub' c) :
    ((parts inside n).flatMap fun p => p.elim (fun d => [d]) sub) =
      (parts inside n).flatMap fun p => p.elim (fun d => [d]) sub' := by
  apply List.flatMap_congr
  intro p hp
  cases p with
  | inl d => rfl
  | inr c => exact h c (height_parts hp)

theorem declarationsWithin_congr {depth depth' : Nat} (h : n.height ≤ depth)
    (h' : n.height ≤ depth') :
    declarationsWithin depth inside n = declarationsWithin depth' inside n := by
  induction depth generalizing depth' inside n with
  | zero => exact absurd n.height_pos (by omega)
  | succ depth ih =>
    cases depth' with
    | zero => exact absurd n.height_pos (by omega)
    | succ depth' => exact parts_congr fun c hc => ih (by omega) (by omega)

/-- What a node declares, from the nodes below it. -/
theorem declarationsIn_eq (inside : Bool) (n : Node) :
    declarationsIn inside n = (parts inside n).flatMap fun p =>
      p.elim (fun d => [d]) (declarationsIn (inside || n.kind = .functionDefinition)) := by
  rw [declarationsIn, declarationsWithin_congr (Nat.le_refl _) (Nat.le_succ n.height)]
  exact parts_congr fun c hc => declarationsWithin_congr (Nat.le_of_lt hc) (Nat.le_refl _)

/-- A node that is there only for the nodes below it. -/
theorem declarationsIn_of_parts {cs : List Node} (hk : n.kind ≠ .functionDefinition)
    (hp : parts inside n = cs.map .inr) :
    declarationsIn inside n = cs.flatMap (declarationsIn inside) := by
  rw [declarationsIn_eq, hp, List.flatMap_map]
  simp [hk]

theorem declarationsIn_sequence (h : n.kind.isSequence = true) :
    declarationsIn inside n = n.children.flatMap (declarationsIn inside) := by
  apply declarationsIn_of_parts
  · intro hk
    rw [hk] at h
    cases h
  · rw [parts]
    cases hk : n.kind <;> simp [hk, Syntax.Kind.isSequence] at h ⊢

theorem declarationsIn_wrapper (h : n.kind = .expression) (hc : n.children = [c]) :
    declarationsIn inside n = declarationsIn inside c := by
  rw [declarationsIn_of_parts (by simp [h]) (by rw [parts, h, hc]; rfl), List.flatMap_singleton]

theorem declarationsIn_return (h : n.kind = .returnExpr) :
    declarationsIn inside n = (n.nth? 0).toList.flatMap (declarationsIn inside) :=
  declarationsIn_of_parts (by simp [h]) (by rw [parts, h])

theorem declarationsIn_assignment (h : n.kind = .assignmentExpression) :
    declarationsIn inside n = (n.nth? 1).toList.flatMap (declarationsIn inside) :=
  declarationsIn_of_parts (by simp [h]) (by rw [parts, h])

theorem declarationsIn_call (h : n.kind = .functionCall) :
    declarationsIn inside n = n.arguments.flatMap (declarationsIn inside) :=
  declarationsIn_of_parts (by simp [h]) (by rw [parts, h])

theorem declarationsIn_if (h : n.kind = .ifElseStatement) :
    declarationsIn inside n = (n.nth? 0).toList.flatMap (declarationsIn inside) ++
      ((n.nth? 1).toList.flatMap (declarationsIn inside) ++
        (n.nth? 2).toList.flatMap (declarationsIn inside)) := by
  rw [declarationsIn_of_parts (by simp [h]) (by rw [parts, h]), Node.nth?, Node.nth?, Node.nth?]
  rcases n.children with _ | ⟨cond, _ | ⟨arm, _ | ⟨other, rest⟩⟩⟩ <;> simp

theorem declarationsIn_definition {body : Node} {d : Declaration} (h : n.kind = .functionDefinition)
    (hd : heading? n = some d) (hb : n.child? .compoundStatement = some body) :
    declarationsIn inside n = d :: declarationsIn true body := by
  rw [declarationsIn_eq, parts, h, hd, hb]
  simp

theorem declarationsIn_declaration {ty : Ty} (h : n.kind = .declaration)
    (ht : n.specifiedType = .ok ty) :
    declarationsIn inside n = n.declarators.flatMap (declaratorDeclarations inside ty) := by
  rw [declarationsIn_eq, parts, h, ht]
  simp only [Except.toOption, Option.toList_some, List.flatMap_singleton, List.flatMap_assoc,
    reduceCtorEq, decide_false, Bool.or_false]
  rfl

theorem declaratorDeclarations_prototype {ty : Ty} {decl : Syntax.FunctionDeclarator}
    (hk : n.kind = .functionDeclarator) (hr : n.functionDeclarator = .ok decl) :
    declaratorDeclarations inside ty n = [⟨decl.name.text, decl.signature ty, false⟩] := by
  rw [declaratorDeclarations, declaratorParts, if_pos hk, declaration?, hr]
  rfl

theorem declaratorDeclarations_variable {ty : Ty} (hk : n.kind ≠ .functionDeclarator) :
    declaratorDeclarations inside ty n =
      if inside then n.initializer?.toList.flatMap (declarationsIn inside) else [] := by
  rw [declaratorDeclarations, declaratorParts, if_neg hk, initial?_eq]
  cases inside with
  | false => rfl
  | true => simp [List.flatMap_map]

theorem declarationsIn_leaf (h : n.kind ∈ [Syntax.Kind.int, .float, .char, .identifier]) :
    declarationsIn inside n = [] := by
  simp only [List.mem_cons, List.not_mem_nil, or_false] at h
  rw [declarationsIn_eq, parts]
  rcases h with h | h | h | h <;> simp [h]

end declarations

theorem itemsAll_eq (ns : List Node) : itemsAll ns = ns.flatMap items := by
  induction ns with
  | nil => rfl
  | cons n ns ih => rw [itemsAll, ih, List.flatMap_cons]

theorem declarations_malformed {n : Node} (h : n.kind = .expression)
    (hlen : n.children.length ≠ 1) : items n = [] ∧ declarations n = [] := by
  rw [declarations, declarationsIn_eq, parts, h]
  obtain ⟨kind, value, span, children⟩ := n
  cases h
  rcases children with _ | ⟨inner, _ | ⟨c, cs⟩⟩
  · simp [items, Syntax.Kind.isSequence, Node.children]
  · exact absurd rfl hlen
  · simp [items, Syntax.Kind.isSequence, Node.children]

/-- The declarations of a file are those of its items. -/
theorem declarations_items (n : Node) : (items n).flatMap declarations = declarations n := by
  induction hh : n.height using Nat.strong_induction_on generalizing n with
  | _ h ih =>
    have hchildren : ∀ c ∈ n.children, (items c).flatMap declarations = declarations c :=
      fun c hc => ih c.height (hh ▸ Node.height_lt_of_mem hc) c rfl
    by_cases hs : n.kind.isSequence = true
    · have hseq : declarations n = n.children.flatMap declarations := declarationsIn_sequence hs
      rw [Lowering.items_sequence hs, hseq, itemsAll_eq, List.flatMap_assoc]
      exact List.flatMap_congr hchildren
    by_cases he : n.kind = .expression
    · by_cases hlen : n.children.length = 1
      · obtain ⟨inner, hc⟩ := List.length_eq_one_iff.1 hlen
        have hwrap : declarations n = declarations inner := declarationsIn_wrapper he hc
        rw [Lowering.items_expression he hc, hwrap]
        exact hchildren inner (by simp [hc])
      · obtain ⟨hitems, hdecls⟩ := declarations_malformed he hlen
        rw [hitems, hdecls, List.flatMap_nil]
    · rw [Lowering.items_single (by simpa using hs) he, List.flatMap_singleton]

end Source

/-! ## Declarations of a body -/

/-- The module after functions were declared in order, none of them with a body. -/
inductive Module.RegistersAll : Module → List Source.Declaration → Module → Prop
  | nil {m : Module} : RegistersAll m [] m
  | cons {m m₁ m' : Module} {d : Source.Declaration} {ds : List Source.Declaration} {i : Nat}
    (head : m.Registers d.name d.signature m₁ i) (prototype : d.defines = false)
    (tail : RegistersAll m₁ ds m') : RegistersAll m (d :: ds) m'

theorem Module.RegistersAll.append {m m' m'' : Module} {ds es : List Source.Declaration}
    (h : m.RegistersAll ds m') (h' : m'.RegistersAll es m'') : m.RegistersAll (ds ++ es) m'' := by
  induction h with
  | nil => exact h'
  | cons head prototype tail ih => exact .cons head prototype (ih h')

namespace Lowering

/-- A node declares the functions that the tree says it declares. -/
structure RegistersTree (sub : Emission) : Prop where
  step : ∀ {n : Node} {scope : ScopeId} {d d' : Draft} {r : Lowered}, sub n scope d r d' →
    d.module.RegistersAll (Source.declarationsIn true n) d'.module

section bodies

variable {sub : Emission} {scope : ScopeId} {d d' : Draft}

theorem emitsAll_registers (hsub : RegistersTree sub) {ns : List Node}
    (h : EmitsAll sub scope ns d d') :
    d.module.RegistersAll (ns.flatMap (Source.declarationsIn true)) d'.module := by
  induction h with
  | nil => exact .nil
  | cons head tail ih =>
    rw [List.flatMap_cons]
    exact (hsub.step head).append ih

theorem emitsValues_registers (hsub : RegistersTree sub) {ns : List Node} {vs : List Value}
    (h : EmitsValues sub scope ns d vs d') :
    d.module.RegistersAll (ns.flatMap (Source.declarationsIn true)) d'.module := by
  induction h with
  | nil => exact .nil
  | cons head tail ih =>
    rw [List.flatMap_cons]
    exact (hsub.step head).append ih

theorem emitsDeclarators_registers (hsub : RegistersTree sub) {ty : Ty} {ns : List Node}
    (h : EmitsDeclarators sub scope ty ns d d') :
    d.module.RegistersAll (ns.flatMap (Source.declaratorDeclarations true ty)) d'.module := by
  induction h with
  | nil => exact .nil
  | cons head tail ih =>
    rw [List.flatMap_cons]
    refine Module.RegistersAll.append ?_ ih
    cases head with
    | prototype kind reads registers =>
      rw [Source.declaratorDeclarations_prototype kind reads]
      exact .cons registers rfl .nil
    | bare kind named object bare defines =>
      rw [Source.declaratorDeclarations_variable kind, if_pos rfl, bare]
      exact .nil
    | initialized kind named object initializer value fits defines =>
      have hvalue := hsub.step value
      rw [Source.declaratorDeclarations_variable kind, if_pos rfl, initializer, Option.toList_some,
        List.flatMap_singleton]
      dsimp only
      rw [Draft.emit_module]
      exact hvalue

theorem emitsArm_registers (hsub : RegistersTree sub) {arm : Node} {merge : Nat}
    (h : EmitsArm sub scope arm merge d d') :
    d.module.RegistersAll (Source.declarationsIn true arm) d'.module := by
  cases h with
  | arm body =>
    rw [fallThrough_module]
    have hbody := hsub.step body
    exact hbody

theorem emitsNode_registers (hsub : RegistersTree sub) :
    RegistersTree (fun n scope d r d' => EmitsNode sub scope n d r d') := by
  refine ⟨fun {n scope d d' r} h => ?_⟩
  cases h with
  | sequence kind all =>
    rw [Source.declarationsIn_sequence kind]
    exact emitsAll_registers hsub all
  | wrapper kind children body =>
    rw [Source.declarationsIn_wrapper kind children]
    exact hsub.step body
  | literal reads =>
    rw [Source.declarationsIn_leaf]
    · exact .nil
    · unfold Node.literal? at reads
      cases hk : n.kind <;> simp [hk] at reads ⊢
  | identifier kind bound object =>
    rw [Source.declarationsIn_leaf (by simp [kind]), Draft.emit_module]
    exact .nil
  | declaration kind type all =>
    rw [Source.declarationsIn_declaration kind type]
    exact emitsDeclarators_registers hsub all
  | ifThen kind first second third value test arm =>
    have hv := hsub.step value
    have ha := emitsArm_registers hsub arm
    rw [fork_module, conditionIn_module test] at ha
    rw [Source.declarationsIn_if kind, first, second, third]
    simpa [Draft.moveTo] using hv.append ha
  | ifElse kind first second third value test arm other =>
    have hv := hsub.step value
    have ha := emitsArm_registers hsub arm
    have hb := emitsArm_registers hsub other
    rw [fork_module, conditionIn_module test] at ha
    rw [Source.declarationsIn_if kind, first, second, third]
    simpa [Draft.moveTo] using hv.append (ha.append hb)
  | returnNothing kind nothing void =>
    rw [Source.declarationsIn_return kind, nothing, Draft.close_module]
    exact .nil
  | returnValue kind operand object value converts =>
    rw [Source.declarationsIn_return kind, operand, Draft.close_module, convertIn_module converts]
    simpa using hsub.step value
  | assignment kind first second identifier bound value fits =>
    rw [Source.declarationsIn_assignment kind, second, Draft.emit_module]
    simpa using hsub.step value
  | call kind named known values function fits =>
    rw [Source.declarationsIn_call kind, Draft.emit_module]
    exact emitsValues_registers hsub values

theorem emits_registers : ∀ h : Nat, RegistersTree (Emits h)
  | 0 => ⟨fun he => he.elim⟩
  | h + 1 => emitsNode_registers (emits_registers h)

end bodies

end Lowering

/-! ## Declarations and functions -/

/-- The names of the functions that declarations define. -/
def Source.definedNames (ds : List Source.Declaration) : List String :=
  (ds.filter (·.defines)).map (·.name)

/-- The functions of the module are those that were declared, and those in `defined` have bodies. -/
structure Module.Realizes (m : Module) (ds : List Source.Declaration) (defined : List String) :
    Prop where
  signatures : ∀ d ∈ ds, ∃ f ∈ m.functions, f.name = d.name ∧ f.signature = d.signature
  order : m.functions.map (·.name) = (ds.map (·.name)).eraseDups
  bodies : ∀ f ∈ m.functions, f.hasBody = true ↔ f.name ∈ defined
  once : defined.Nodup
  declared : ∀ name ∈ defined, name ∈ ds.map (·.name)

/-- A name that is added counts only if it is new. -/
theorem eraseDups_concat (names : List String) (name : String) :
    (names ++ [name]).eraseDups =
      if name ∈ names then names.eraseDups else names.eraseDups ++ [name] := by
  rw [List.eraseDups_append]
  by_cases h : name ∈ names
  · simp [List.removeAll, h]
  · simp [List.removeAll, h, List.eraseDups_cons]

namespace Module.Realizes

variable {m m' : Module} {ds es : List Source.Declaration} {defined : List String}
  {d : Source.Declaration}

theorem mem_names (h : m.Realizes ds defined) {name : String} :
    name ∈ m.functions.map (·.name) ↔ name ∈ ds.map (·.name) := by
  rw [h.order, List.mem_eraseDups]

theorem register {i : Nat} (h : m.Realizes ds defined)
    (hr : m.Registers d.name d.signature m' i) : m'.Realizes (ds ++ [d]) defined := by
  have hsig : ∀ e ∈ ds ++ [d], ∃ f ∈ m'.functions, f.name = e.name ∧ f.signature = e.signature := by
    intro e he
    rcases List.mem_append.1 he with he | he
    · obtain ⟨f, hf, hfe⟩ := h.signatures e he
      obtain ⟨j, hj⟩ := List.mem_iff_getElem?.1 hf
      exact ⟨f, List.mem_of_getElem? (hr.declares.getElem? hj), hfe⟩
    · obtain ⟨f, hf, hfd⟩ := hr.get
      rw [List.mem_singleton.1 he]
      exact ⟨f, List.mem_of_getElem? hf, hfd⟩
  have hdeclared : ∀ name ∈ defined, name ∈ (ds ++ [d]).map (·.name) := by
    intro name hname
    rw [List.map_append]
    exact List.mem_append_left _ (h.declared name hname)
  cases hr with
  | known hg hf hi hs hn =>
    have hname : d.name ∈ ds.map (·.name) := by
      rw [← h.mem_names]
      exact List.mem_map.2 ⟨_, List.mem_of_getElem? hi, hn⟩
    refine ⟨hsig, ?_, h.bodies, h.once, hdeclared⟩
    rw [List.map_append, List.map_singleton, eraseDups_concat, if_pos hname]
    exact h.order
  | new hg hf hn =>
    have hname : d.name ∉ ds.map (·.name) := by
      rw [← h.mem_names]
      exact hn
    refine ⟨hsig, ?_, fun f hf => ?_, h.once, hdeclared⟩
    · rw [List.map_append, List.map_singleton, eraseDups_concat, if_neg hname, ← h.order]
      simp [addFunction]
    · rcases List.mem_append.1 hf with hf | hf
      · exact h.bodies f hf
      · -- the new function has no body, and no declaration before was for it
        have hnot : d.name ∉ defined := fun hmem => hname (h.declared _ hmem)
        rw [List.mem_singleton.1 hf]
        simp [Function.hasBody, hnot]

theorem registerAll (hr : m.RegistersAll es m') (h : m.Realizes ds defined) :
    m'.Realizes (ds ++ es) defined := by
  induction hr generalizing ds with
  | nil => rwa [List.append_nil]
  | cons head prototype tail ih =>
    rw [List.append_cons]
    exact ih (h.register head)

theorem addGlobal (h : m.Realizes ds defined) (x : Global) :
    (m.addGlobal x).Realizes ds defined :=
  ⟨h.signatures, h.order, h.bodies, h.once, h.declared⟩

/-- A function that had no body gets one. -/
theorem define (h : m.Realizes ds defined) (hs : m.Sane) {k : Nat} {f g : Function}
    (hg : m.functions[k]? = some g) (hbare : g.hasBody = false) (hn : f.name = g.name)
    (hsig : f.signature = g.signature) (hbody : f.hasBody = true) :
    (m.put k f).Realizes ds (defined ++ [f.name]) := by
  have hmem := List.mem_of_getElem? hg
  have hnew : f.name ∉ defined := by
    rw [hn, ← h.bodies g hmem, hbare]
    exact Bool.false_ne_true
  refine ⟨fun d hd => ?_, ?_, fun e he => ?_, ?_, fun name hname => ?_⟩
  · obtain ⟨e, he, hne, hse⟩ := h.signatures d hd
    obtain ⟨i, hi⟩ := List.mem_iff_getElem?.1 he
    obtain ⟨e', he', hn', hs'⟩ := (Lowering.put_grows hg hn.symm hsig.symm).functions hi
    exact ⟨e', List.mem_of_getElem? he', hn'.trans hne, hs'.trans hse⟩
  · rw [← h.order]
    exact Module.put_names hg hn.symm
  · rw [List.mem_append, List.mem_singleton]
    rcases Lowering.mem_put_cases hs hg hn.symm he with rfl | ⟨hm, hne⟩
    · simp [hbody]
    · simp [h.bodies e hm, hne]
  · refine List.nodup_append.2 ⟨h.once, by simp, ?_⟩
    intro a ha b hb
    rw [List.mem_singleton.1 hb]
    rintro rfl
    exact hnew ha
  · rcases List.mem_append.1 hname with hname | hname
    · exact h.declared name hname
    · rw [List.mem_singleton.1 hname, hn, ← h.mem_names]
      exact List.mem_map_of_mem hmem

end Module.Realizes

theorem Module.RegistersAll.definedNames {m m' : Module} {ds : List Source.Declaration}
    (h : m.RegistersAll ds m') : Source.definedNames ds = [] := by
  induction h with
  | nil => rfl
  | cons head prototype tail ih =>
    rw [Source.definedNames, List.filter_cons_of_neg (by simp [prototype])]
    exact ih

namespace Lowering

open Source (declarations definedNames)

theorem definedNames_append (ds es : List Source.Declaration) :
    definedNames (ds ++ es) = definedNames ds ++ definedNames es := by
  simp [definedNames]

/-! ## Items -/

section items

variable {scope : ScopeId} {file file' : File} {n : Node} {ds : List Source.Declaration}

theorem buildsDeclarators_realizes {ty : Ty} {ns : List Node}
    (h : BuildsDeclarators scope ty ns file file')
    (hr : file.module.Realizes ds (definedNames ds)) :
    file'.module.Realizes (ds ++ ns.flatMap (Source.declaratorDeclarations false ty))
      (definedNames (ds ++ ns.flatMap (Source.declaratorDeclarations false ty))) := by
  induction h generalizing ds with
  | nil => simpa using hr
  | cons head tail ih =>
    rw [List.flatMap_cons, ← List.append_assoc]
    apply ih
    cases head with
    | prototype kind reads registers =>
      rw [Source.declaratorDeclarations_prototype kind reads, definedNames_append]
      simpa [definedNames] using hr.register registers
    | global kind =>
      rw [Source.declaratorDeclarations_variable kind, if_neg Bool.false_ne_true, List.append_nil]
      exact hr.addGlobal _

theorem buildsBody_registers {h : Nat} {f : Function} {params : List (Node × Ty)} {body : Node}
    {d : Draft} (hb : BuildsBody h scope file f params body d) :
    file.module.RegistersAll (Source.declarationsIn true body) d.module := by
  cases hb with
  | body spills emits closes =>
    have hr := (emits_registers h).step emits
    rw [spills_module spills] at hr
    rw [closes_module closes]
    exact hr

theorem heading?_definition {specifiers declarator : Node} {ret : Ty}
    {decl : Syntax.FunctionDeclarator} (first : n.nth? 0 = some specifiers)
    (second : n.child? .functionDeclarator = some declarator)
    (type : specifiers.specifiedType = .ok ret) (reads : declarator.functionDeclarator = .ok decl) :
    Source.heading? n = some ⟨decl.name.text, decl.signature ret, true⟩ := by
  simp [Source.heading?, Source.declaration?, first, second, type, reads, Except.toOption]

theorem buildsItem_realizes (hi : file.Inv scope) (h : BuildsItem scope n file file')
    (hr : file.module.Realizes ds (definedNames ds)) :
    file'.module.Realizes (ds ++ declarations n) (definedNames (ds ++ declarations n)) := by
  cases h with
  | literal reads =>
    have hleaf : declarations n = [] := by
      apply Source.declarationsIn_leaf
      unfold Node.literal? at reads
      cases hk : n.kind <;> simp [hk] at reads ⊢
    rwa [hleaf, List.append_nil]
  | declaration kind type all =>
    rw [declarations, Source.declarationsIn_declaration kind type]
    exact buildsDeclarators_realizes all hr
  | @definition specifiers declarator body ret decl params m k h f d kind first second third type
      reads named registers function bare built finished =>
    have ho := opens_of_definition hi type reads named registers function bare
    have hl := ho.leaves built
    have hk := hl.declares.getElem? function
    have hbody := buildsBody_registers built
    have hheading := heading?_definition first second type reads
    have hname : d.function.name = decl.name.text := by rw [hl.name, bare]
    have hregistered := (hr.register (d := ⟨decl.name.text, decl.signature ret, true⟩)
      registers).registerAll hbody
    have hdefined := hregistered.define hl.sane hk (by rw [bare]; rfl) hl.name hl.signature
      (hasBody_of_finished finished)
    have hnames : definedNames (ds ++ declarations n) = definedNames ds ++ [d.function.name] := by
      rw [declarations, Source.declarationsIn_definition kind hheading third, List.append_cons,
        definedNames_append, hbody.definedNames, definedNames_append, hname]
      simp [definedNames]
    rw [hnames, declarations, Source.declarationsIn_definition kind hheading third, List.append_cons]
    exact hdefined

theorem buildsAll_realizes {ns : List Node} (h : BuildsAll scope ns file file')
    (hi : file.Inv scope) (hr : file.module.Realizes ds (definedNames ds)) :
    file'.module.Realizes (ds ++ ns.flatMap declarations)
      (definedNames (ds ++ ns.flatMap declarations)) := by
  induction h generalizing ds with
  | nil => simpa using hr
  | cons head tail ih =>
    rw [List.flatMap_cons, ← List.append_assoc]
    exact ih (buildsItem_preserves hi head).1 (buildsItem_realizes hi head hr)

end items

theorem generated_realizes {name : String} {root : Node} {m : Module}
    (h : generate name root = .ok m) :
    m.Sane ∧ m.Realizes (declarations root) (definedNames (declarations root)) := by
  obtain ⟨file, rfl, hb, hi⟩ := generate_ok h
  have hstart : (File.initial name).module.Realizes [] (definedNames []) := by
    refine ⟨?_, ?_, ?_, ?_, ?_⟩ <;> simp [File.initial, definedNames]
  have hr := buildsAll_realizes hb (initial_inv name) hstart
  rw [List.nil_append, Source.declarations_items] at hr
  exact ⟨hi.sane, hr⟩

/-- The table of functions of a generated module is what the declarations of the tree say. Every
declaration is for an entry with its signature, an entry has a body exactly if a declaration defines it,
no two do so, and the entries stand in the order in which they were declared first. The tables of names
lead from a name to the one entry that carries it, and from no other name to any; no name is in both. -/
theorem generated_registry {name : String} {root : Node} {m : Module}
    (h : generate name root = .ok m) :
    (∀ d ∈ declarations root, ∃ i f, m.functionIndex? d.name = some i ∧
      m.functions[i]? = some f ∧ f.signature = d.signature) ∧
    (((declarations root).filter (·.defines)).map (·.name)).Nodup ∧
    (∀ f ∈ m.functions, f.hasBody = true ↔
      ∃ d ∈ declarations root, d.defines = true ∧ d.name = f.name) ∧
    m.functions.map (·.name) = ((declarations root).map (·.name)).eraseDups ∧
    (∀ s i, m.functionTable.lookup s = some i ↔ ∃ f, m.functions[i]? = some f ∧ f.name = s) ∧
    (∀ s i, m.globalTable.lookup s = some i ↔ ∃ g, m.globals[i]? = some g ∧ g.name = s) ∧
    ∀ s, m.functionTable.lookup s = none ∨ m.globalTable.lookup s = none := by
  obtain ⟨hsane, hr⟩ := generated_realizes h
  obtain ⟨hglobals, hfunctions, hdisjoint⟩ := List.nodup_append.1 hsane.names
  have hx := hsane.indexed
  refine ⟨fun d hd => ?_, hr.once, fun f hf => ?_, hr.order,
    fun s i => Module.functionIndex?_eq_some_iff hx hfunctions,
    fun s i => Module.globalIndex?_eq_some_iff hx hglobals, fun s => ?_⟩
  · obtain ⟨f, hf, hn, hs⟩ := hr.signatures d hd
    obtain ⟨i, hi⟩ := List.mem_iff_getElem?.1 hf
    exact ⟨i, f, (Module.functionIndex?_eq_some_iff hx hfunctions).2 ⟨f, hi, hn⟩, hi, hs⟩
  · rw [hr.bodies f hf]
    simp [definedNames, and_assoc]
  · refine Or.imp (Module.functionIndex?_none hx).2 (Module.globalIndex?_none hx).2 ?_
    by_contra hboth
    obtain ⟨hf, hg⟩ := not_or.1 hboth
    exact hdisjoint s (not_not.1 hg) s (not_not.1 hf) rfl

/-- The prototype of `f`, a body that declares `h` in an arm and `f` once more, and the definition of
`f`. -/
def scatteredPrototypes : Node :=
  let int := branchNode .declarationSpecifiers [leaf .typeSpecifier "int"]
  let prototypeOf := fun name => branchNode .declaration [int,
    branchNode .functionDeclarator [leaf .identifier name,
      branchNode .parameterList [branchNode .parameterDeclaration [int, leaf .identifier "a"]]]]
  let callOf := fun name => branchNode .functionCall [leaf .identifier name,
    branchNode .argumentExpressionList [leaf .int "1"]]
  branchNode .translationUnit [
    prototypeOf "f",
    branchNode .functionDefinition [int,
      branchNode .functionDeclarator [leaf .identifier "g"],
      branchNode .compoundStatement [
        branchNode .ifElseStatement [callOf "f",
          branchNode .compoundStatement [prototypeOf "h", branchNode .returnExpr [callOf "h"]]],
        prototypeOf "f",
        branchNode .returnExpr [callOf "f"]]],
    branchNode .functionDefinition [int,
      branchNode .functionDeclarator [leaf .identifier "f",
        branchNode .parameterList [branchNode .parameterDeclaration [int, leaf .identifier "b"]]],
      branchNode .compoundStatement [branchNode .returnExpr [leaf .identifier "b"]]]]

theorem scattered_prototypes_registry : ∃ m, generate "scattered" scatteredPrototypes = .ok m ∧
    m.functions.map (·.name) = ["f", "g", "h"] ∧
    (∃ i f, m.functionIndex? "h" = some i ∧ m.functions[i]? = some f ∧
      f.signature = ⟨[.int], .int⟩) ∧
    ∀ f ∈ m.functions, f.hasBody = true ↔ "g" = f.name ∨ "f" = f.name := by
  have hok : (generate "scattered" scatteredPrototypes).toBool = true := by decide +kernel
  have hdeclared : declarations scatteredPrototypes = [⟨"f", ⟨[.int], .int⟩, false⟩,
      ⟨"g", ⟨[], .int⟩, true⟩, ⟨"h", ⟨[.int], .int⟩, false⟩, ⟨"f", ⟨[.int], .int⟩, false⟩,
      ⟨"f", ⟨[.int], .int⟩, true⟩] := by decide +kernel
  cases hm : generate "scattered" scatteredPrototypes with
  | error failure =>
    rw [hm] at hok
    cases hok
  | ok m =>
    obtain ⟨hsignatures, -, hbodies, horder, -⟩ := generated_registry hm
    rw [hdeclared] at hsignatures hbodies horder
    refine ⟨m, rfl, horder, hsignatures ⟨"h", ⟨[.int], .int⟩, false⟩ (by simp), fun f hf => ?_⟩
    rw [hbodies f hf]
    simp

end Lowering

end SlotIR
