import Mathlib.Data.List.Forall2
import SlotIR.Proofs.FilePrefixes
import SlotIR.Proofs.Mirroring

/-!
# Trees that read alike

Lowering reads a few things off a node: its kind, the names, types and literals in it, and the
nodes below it that are lowered in their turn. Two nodes read alike if they agree on that, up to
names and up to `expression` nodes around what is lowered (`ReadsAlike`). Nodes that read alike are
lowered to the same code under other names, provided that the nodes below them are (`lower_step`).

So two trees are lowered alike if they are related by anything that makes nodes read alike and
carries over to the nodes below (`generate_mirrors`). This is shown once, for every such relation.
-/

namespace SlotIR

open Syntax (Node Span Param FunctionDeclarator)
open Builder (ReadsMirrored)

/-! ## Reading alike -/

/-- The kinds of nodes that are parts of other nodes and cannot stand alone. -/
def Syntax.Kind.isPart : Kind → Bool
  | .functionDeclarator | .parameterList | .parameterDeclaration | .declarationSpecifiers
  | .typeSpecifier | .typeQualifier | .storageClassSpecifier | .pointer | .initDeclaratorList
  | .initDeclarator | .argumentExpressionList => true
  | _ => false

section alike

variable (r : String → String)

/-- The second node names under other names what the first one does. -/
def NamesAlike (n n' : Node) : Prop := n'.text = r n.text

structure ParamsAlike (p p' : Param) : Prop where
  name : Option.Rel (NamesAlike r) p.name p'.name
  ty : p'.ty = p.ty

structure DeclaratorsAlike (d d' : FunctionDeclarator) : Prop where
  name : NamesAlike r d.name d'.name
  params : List.Forall₂ (ParamsAlike r) d.params d'.params

/-- Two targets of assignments: of the same kind inside of their wrappers, and with names if they
are variables. -/
structure TargetsAlike (t t' : Node) : Prop where
  kind : t'.unwrapped.kind = t.unwrapped.kind
  name : t.unwrapped.kind = .identifier → NamesAlike r t.unwrapped t'.unwrapped

variable (sub : Node → Node → Prop)

/-- Two initializers, of a variable in a body or of a global. -/
structure InitsAlike (i i' : Node) : Prop where
  value : sub i i'
  literal : i'.unwrapped.literal? = i.unwrapped.literal?

/-- Two declarators of declarations. -/
structure ItemsAlike (d d' : Node) : Prop where
  kind : d'.kind = .functionDeclarator ↔ d.kind = .functionDeclarator
  function : d.kind = .functionDeclarator →
    ReadsMirrored r (DeclaratorsAlike r) d.functionDeclarator d'.functionDeclarator
  name : Option.Rel (NamesAlike r) d.identifier? d'.identifier?
  init : Option.Rel (InitsAlike sub) d.initializer? d'.initializer?

/-- Two nodes that lowering reads alike, where `sub` relates the nodes below them. -/
inductive ReadsAlike (n n' : Node) : Prop
  /-- A node, and an `expression` around a node like it. -/
  | wrapper {inner : Node} (kind : n'.kind = .expression) (children : n'.children = [inner])
    (body : sub n inner)
  | sequence (kind : n.kind.isSequence = true) (kind' : n'.kind.isSequence = true)
    (all : List.Forall₂ sub n.children n'.children)
  | expression (kind : n.kind = .expression) (kind' : n'.kind = .expression)
    (all : List.Forall₂ sub n.children n'.children)
  | literal {v : Scalar} (reads : n.literal? = some v) (reads' : n'.literal? = some v)
  | identifier (kind : n.kind = .identifier) (kind' : n'.kind = .identifier)
    (name : NamesAlike r n n')
  | declaration (kind : n.kind = .declaration) (kind' : n'.kind = .declaration)
    (type : ReadsMirrored r Eq n.specifiedType n'.specifiedType)
    (all : List.Forall₂ (ItemsAlike r sub) n.declarators n'.declarators)
  | definition (kind : n.kind = .functionDefinition) (kind' : n'.kind = .functionDefinition)
    (type : Option.Rel (fun s s' => ReadsMirrored r Eq s.specifiedType s'.specifiedType)
      (n.nth? 0) (n'.nth? 0))
    (declarator : Option.Rel (fun d d' =>
        ReadsMirrored r (DeclaratorsAlike r) d.functionDeclarator d'.functionDeclarator)
      (n.child? .functionDeclarator) (n'.child? .functionDeclarator))
    (body : Option.Rel sub (n.child? .compoundStatement) (n'.child? .compoundStatement))
  | conditional (kind : n.kind = .ifElseStatement) (kind' : n'.kind = .ifElseStatement)
    (cond : Option.Rel sub (n.nth? 0) (n'.nth? 0)) (arm : Option.Rel sub (n.nth? 1) (n'.nth? 1))
    (other : Option.Rel sub (n.nth? 2) (n'.nth? 2))
  | ret (kind : n.kind = .returnExpr) (kind' : n'.kind = .returnExpr)
    (operand : Option.Rel sub (n.nth? 0) (n'.nth? 0))
  | assignment (kind : n.kind = .assignmentExpression) (kind' : n'.kind = .assignmentExpression)
    (target : Option.Rel (TargetsAlike r) (n.nth? 0) (n'.nth? 0))
    (value : Option.Rel sub (n.nth? 1) (n'.nth? 1))
  | call (kind : n.kind = .functionCall) (kind' : n'.kind = .functionCall)
    (callee : Option.Rel (NamesAlike r) ((n.nth? 0).bind Node.identifier?)
      ((n'.nth? 0).bind Node.identifier?))
    (args : List.Forall₂ sub n.arguments n'.arguments)
  | misplaced (kind : n'.kind = n.kind)
    (misplaced : n.kind.isPart = true)

end alike

/-! ### Lists and parts of nodes -/

section restrict

variable {r : String → String} {sub sub' : Node → Node → Prop} {t n n' : Node}

theorem forall₂_getElem? {R : Node → Node → Prop} {ns ns' : List Node} (h : List.Forall₂ R ns ns')
    (i : Nat) : Option.Rel R ns[i]? ns'[i]? := by
  induction h generalizing i with
  | nil => exact .none
  | cons head _ ih =>
    cases i with
    | zero => exact .some head
    | succ i => exact ih i

theorem forall₂_find? {R : Node → Node → Prop} {ns ns' : List Node} (h : List.Forall₂ R ns ns')
    (hR : ∀ c c', R c c' → c'.kind = c.kind) (k : Syntax.Kind) :
    Option.Rel R (ns.find? (·.kind == k)) (ns'.find? (·.kind == k)) := by
  induction h with
  | nil => exact .none
  | @cons c c' _ _ head _ ih =>
    rw [List.find?_cons, List.find?_cons, hR c c' head]
    cases c.kind == k with
    | true => exact .some head
    | false => exact ih

theorem forall₂_filter {R : Node → Node → Prop} {ns ns' : List Node} (h : List.Forall₂ R ns ns')
    {p : Node → Bool} (hR : ∀ c c', R c c' → p c' = p c) :
    List.Forall₂ R (ns.filter p) (ns'.filter p) := by
  refine List.rel_filter (fun c c' hc => ?_) h
  exact Bool.coe_iff_coe.2 (hR c c' hc).symm

theorem forall₂_restrict {R Q : Node → Node → Prop} {ns ns' : List Node} (h : List.Forall₂ R ns ns')
    (hR : ∀ c c', c ∈ ns → c' ∈ ns' → R c c' → Q c c') : List.Forall₂ Q ns ns' := by
  induction h with
  | nil => exact .nil
  | cons head _ ih =>
    refine .cons (hR _ _ List.mem_cons_self List.mem_cons_self head) (ih fun c c' hc hc' => ?_)
    exact hR c c' (List.mem_cons_of_mem _ hc) (List.mem_cons_of_mem _ hc')

theorem rel_restrict {R Q : Node → Node → Prop} {o o' : Option Node} (h : Option.Rel R o o')
    (hR : ∀ c c', o = some c → o' = some c' → R c c' → Q c c') : Option.Rel Q o o' := by
  cases h with
  | none => exact .none
  | some h => exact .some (hR _ _ rfl rfl h)

theorem ItemsAlike.restrict {d d' : Node} (h : ItemsAlike r sub d d')
    (hsub : ∀ c c', d.initializer? = some c → d'.initializer? = some c' → sub c c' → sub' c c') :
    ItemsAlike r sub' d d' := by
  refine ⟨h.kind, h.function, h.name, rel_restrict h.init fun c c' hc hc' hi => ?_⟩
  exact ⟨hsub c c' hc hc' hi.value, hi.literal⟩

/-- Nodes that read alike, with less to say about the nodes below them: they are nodes of the tree,
and below the second node they are of less height. -/
theorem ReadsAlike.restrict (h : ReadsAlike r sub n n') (hn : t.Has n)
    (hsub : ∀ c c', t.Has c → c'.height < n'.height → sub c c' → sub' c c') :
    ReadsAlike r sub' n n' := by
  have hnth : ∀ {i : Nat}, Option.Rel sub (n.nth? i) (n'.nth? i) →
      Option.Rel sub' (n.nth? i) (n'.nth? i) := fun h =>
    rel_restrict h fun c c' hc hc' => hsub c c' (hn.nth? hc) (Node.height_nth? hc')
  have hall : List.Forall₂ sub n.children n'.children →
      List.Forall₂ sub' n.children n'.children := fun h =>
    forall₂_restrict h fun c c' hc hc' => hsub c c' (hn.child hc) (Node.height_lt_of_mem hc')
  cases h with
  | @wrapper inner kind children body =>
    have hlt := Node.height_lt_of_mem (children ▸ List.mem_singleton_self inner)
    exact .wrapper kind children (hsub n inner hn hlt body)
  | sequence kind kind' all => exact .sequence kind kind' (hall all)
  | expression kind kind' all => exact .expression kind kind' (hall all)
  | literal reads reads' => exact .literal reads reads'
  | identifier kind kind' name => exact .identifier kind kind' name
  | declaration kind kind' type all =>
    refine .declaration kind kind' type (forall₂_restrict all fun d d' hd hd' h => ?_)
    refine h.restrict fun c c' hc hc' => hsub c c' ((hn.declarators hd).initializer? hc) ?_
    exact (Node.height_initializer? hc').trans (Node.height_declarators hd')
  | definition kind kind' type declarator body =>
    refine .definition kind kind' type declarator (rel_restrict body fun c c' hc hc' => ?_)
    exact hsub c c' (hn.child? hc) (Node.height_child? hc')
  | conditional kind kind' cond arm other =>
    exact .conditional kind kind' (hnth cond) (hnth arm) (hnth other)
  | ret kind kind' operand => exact .ret kind kind' (hnth operand)
  | assignment kind kind' target value => exact .assignment kind kind' target (hnth value)
  | call kind kind' callee args =>
    refine .call kind kind' callee (forall₂_restrict args fun c c' hc hc' => ?_)
    exact hsub c c' (hn.arguments hc) (Node.height_arguments hc')
  | misplaced kind misplaced => exact .misplaced kind misplaced

end restrict

/-! ### Names in tables -/

namespace NamesAlike

variable {r : String → String} {n n' : Node} (h : NamesAlike r n n') (hr : Function.Injective r)
  (b : Builder)

include h hr

theorem functionIndex? :
    (b.rename r).module.functionIndex? n'.text = b.module.functionIndex? n.text := by
  rw [h]
  exact b.module.functionIndex?_rename hr n.text

theorem globalIndex? :
    (b.rename r).module.globalIndex? n'.text = b.module.globalIndex? n.text := by
  rw [h]
  exact b.module.globalIndex?_rename hr n.text

theorem lookup? (scope : ScopeId) :
    (b.rename r).scopes.lookup? scope n'.text = b.scopes.lookup? scope n.text := by
  rw [h]
  exact b.scopes.lookup?_rename hr scope n.text

theorem binds (scope : ScopeId) :
    (b.rename r).scopes.binds scope n'.text = b.scopes.binds scope n.text := by
  rw [h]
  exact b.scopes.binds_rename hr scope n.text

end NamesAlike

namespace DeclaratorsAlike

variable {r : String → String} {d d' : FunctionDeclarator}

theorem signature (h : DeclaratorsAlike r d d') (ret : Ty) :
    d'.signature ret = d.signature ret := by
  have types : ∀ {ps ps' : List Param}, List.Forall₂ (ParamsAlike r) ps ps' →
      ps'.map (·.ty) = ps.map (·.ty) := by
    intro ps ps' hps
    induction hps with
    | nil => rfl
    | cons head _ ih => rw [List.map_cons, List.map_cons, head.ty, ih]
  rw [FunctionDeclarator.signature, FunctionDeclarator.signature, types h.params]

end DeclaratorsAlike

namespace Lowering

open Builder

/-! ## Steps that are given names -/

section names

variable {r : String → String} (hr : Function.Injective r) {name name' : Node}
  (hname : NamesAlike r name name') (scope : ScopeId)

include hname in
theorem duplicateVariable_mirrors {α β : Type} {R : α → β → Prop} :
    Mirrors r R (duplicateVariable name) (duplicateVariable name') :=
  fail_mirrors (by rw [hname]; rfl)

include hr hname

theorem lowerAddress_mirrors :
    Mirrors r Eq (lowerAddress name scope) (lowerAddress name' scope) := by
  refine Mirrors.get fun b => ?_
  rw [hname.lookup? hr b scope]
  cases b.scopes.lookup? scope name.text with
  | some address => exact mirrors_pure rfl
  | none => exact fail_mirrors (by rw [hname]; rfl)

theorem lowerIdentifier_mirrors :
    Mirrors r Eq (lowerIdentifier name scope) (lowerIdentifier name' scope) :=
  (lowerAddress_mirrors hr hname scope).bind_eq fun address => load_mirrors address

theorem bindVariable_mirrors (address : Value) :
    Mirrors r Eq (bindVariable name address scope) (bindVariable name' address scope) := by
  have hdefine := define_mirrors hr scope name.text address
  rw [← hname] at hdefine
  refine hdefine.bind_eq fun defined => ?_
  cases defined with
  | true => exact mirrors_pure rfl
  | false => exact duplicateVariable_mirrors hname

theorem declareFunction_mirrors (signature : Signature) :
    Mirrors r Eq (declareFunction name signature) (declareFunction name' signature) := by
  refine Mirrors.get fun b => ?_
  dsimp only
  rw [hname.globalIndex? hr b, hname.functionIndex? hr b]
  refine Mirrors.ite (fail_mirrors (by rw [hname]; rfl)) ?_
  cases b.module.functionIndex? name.text with
  | none =>
    dsimp only
    rw [hname]
    exact addFunction_mirrors name.text signature
  | some index =>
    refine (function_mirrors index).bind ?_
    rintro f _ rfl
    exact Mirrors.ite (fail_mirrors (by rw [hname]; rfl)) (mirrors_pure rfl)

end names

/-! ## Values -/

section values

variable {r : String → String} {span span' : Option Span}

theorem convert_mirrors (v : Value) (ty : Ty) (context : TypeContext) :
    Mirrors r Eq (convert v ty context span) (convert v ty context span') := by
  refine Mirrors.ite (mirrors_pure rfl) ?_
  cases conversion? v.ty ty with
  | some op => exact cast_mirrors op v ty
  | none => exact fail_mirrors rfl

theorem lowerCondition_mirrors (v : Value) :
    Mirrors r Eq (lowerCondition v span) (lowerCondition v span') := by
  unfold lowerCondition
  cases v.ty with
  | int => exact (cast_mirrors .signedToFloat v .float).bind_eq fun _ => compare_mirrors _ _
  | char => exact (cast_mirrors .unsignedToFloat v .float).bind_eq fun _ => compare_mirrors _ _
  | float => exact compare_mirrors _ _
  | _ => exact (fail_mirrors (R := Eq) rfl).bind_eq fun _ => compare_mirrors _ _

theorem expectType_mirrors (v : Value) (ty : Ty) (context : TypeContext) :
    Mirrors r Eq (expectType v ty context span) (expectType v ty context span') :=
  Mirrors.ite (mirrors_pure rfl) (fail_mirrors rfl)

theorem expectTypes_mirrors {sub : Node → Node → Prop} {ns ns' : List Node}
    (h : List.Forall₂ sub ns ns') : ∀ vs tys,
      Mirrors r Eq (expectTypes span vs tys ns) (expectTypes span' vs tys ns') := by
  induction h with
  | nil =>
    intro vs tys
    cases vs <;> cases tys <;> exact mirrors_pure rfl
  | cons _ _ ih =>
    intro vs tys
    cases vs with
    | nil => exact mirrors_pure rfl
    | cons v vs =>
      cases tys with
      | nil => exact mirrors_pure rfl
      | cons ty tys => exact (expectType_mirrors v ty _).bind_eq fun _ => ih vs tys

end values

/-! ## Globals and functions -/

section functions

variable {r : String → String} (hr : Function.Injective r) {sub : Node → Node → Prop}

theorem globalInit_mirrors {name name' : Node} (hname : NamesAlike r name name') (ty : Ty)
    {init init' : Option Node} (h : Option.Rel (InitsAlike sub) init init') :
    ReadsMirrored r Eq (globalInit name ty init) (globalInit name' ty init') := by
  unfold globalInit
  cases h with
  | none =>
    cases Scalar.zero? ty with
    | some v => exact .ok rfl
    | none => exact .error ..
  | @some i i' h =>
    dsimp only
    rw [h.literal]
    cases i.unwrapped.literal? with
    | none =>
      rw [hname]
      exact .error ..
    | some v =>
      dsimp only
      split
      · exact .ok rfl
      · exact .error ..

theorem namedParams_mirrors {n n' : Node} (function : String) {ps ps' : List Param}
    (h : List.Forall₂ (ParamsAlike r) ps ps') :
    ReadsMirrored r (List.Forall₂ fun p p' => NamesAlike r p.1 p'.1 ∧ p'.2 = p.2)
      (namedParams n function ps) (namedParams n' (r function) ps') := by
  induction h with
  | nil => exact .ok .nil
  | @cons p p' ps ps' head _ ih =>
    obtain ⟨name, ty⟩ := p
    obtain ⟨name', ty'⟩ := p'
    obtain ⟨hname, hty⟩ := head
    cases hname with
    | none => exact .error ..
    | some hname => exact ih.bind fun _ _ hrest => .ok (.cons ⟨hname, hty⟩ hrest)

theorem closeBody_mirrors (ret : Ty) : Mirrors r Eq (closeBody ret) (closeBody ret) := by
  refine isTerminated_mirrors.bind_eq fun closed => Mirrors.ite (mirrors_pure rfl) ?_
  refine Mirrors.ite (terminate_mirrors _) (Mirrors.get fun b => ?_)
  rw [b.rename_cursor r]
  cases b.cursor with
  | none => exact mirrors_pure rfl
  | some c =>
    refine (function_mirrors c.function).bind ?_
    rintro f _ rfl
    rw [f.predecessors_rename r]
    refine Mirrors.ite ?_ (mirrors_pure rfl)
    have hpresent : Mirrors r Eq (present (f.predecessors c.block))
        (present (f.predecessors c.block)) := by
      cases f.predecessors c.block with
      | ok predecessors => exact mirrors_pure rfl
      | error what => exact fun _ => .error (.missing what)
    refine hpresent.bind_eq fun predecessors => ?_
    exact Mirrors.ite (terminate_mirrors _) (mirrors_pure rfl)

theorem verifyLowered_mirrors (index : Nat) :
    Mirrors r Eq (verifyLowered index) (verifyLowered index) := by
  refine Mirrors.get fun b => ?_
  have e : (b.rename r).module.verifyFunction index =
      (b.module.verifyFunction index).rename r := Module.verifyFunction_rename r b.module index
  rw [e]
  rcases b.module.verifyFunction index with (err | what | _) | _
  · exact fail_mirrors rfl
  · exact fun _ => .error (.missing what)
  · exact fun _ => .error .exhausted
  · exact mirrors_pure rfl

include hr

theorem lowerPrototype_mirrors {d d' : Node} (ret : Ty)
    (h : ReadsMirrored r (DeclaratorsAlike r) d.functionDeclarator d'.functionDeclarator) :
    Mirrors r Eq (lowerPrototype ret d) (lowerPrototype ret d') := by
  refine (liftError_mirrors h).bind fun decl decl' hd => ?_
  rw [hd.signature ret]
  exact (declareFunction_mirrors hr hd.name _).bind_eq fun _ => mirrors_pure rfl

theorem lowerGlobal_mirrors {name name' : Node} (hname : NamesAlike r name name') (ty : Ty)
    {init init' : Option Node} (h : Option.Rel (InitsAlike sub) init init') (scope : ScopeId) :
    Mirrors r Eq (lowerGlobal name ty init scope) (lowerGlobal name' ty init' scope) := by
  refine Mirrors.get fun b => ?_
  dsimp only
  rw [hname.globalIndex? hr b, hname.functionIndex? hr b]
  refine Mirrors.ite (duplicateVariable_mirrors hname) ?_
  refine Mirrors.bind_eq (liftError_mirrors (globalInit_mirrors hname ty h)) fun v => ?_
  have hadd := addGlobal_mirrors (r := r) { name := name.text, ty, init := v }
  rw [Global.rename, ← hname] at hadd
  exact hadd.bind_eq fun _ => bindVariable_mirrors hr hname scope _

theorem spillParams_mirrors {ps ps' : List (Node × Ty)}
    (h : List.Forall₂ (fun p p' => NamesAlike r p.1 p'.1 ∧ p'.2 = p.2) ps ps') (scope : ScopeId) :
    ∀ index, Mirrors r Eq (spillParams scope index ps) (spillParams scope index ps') := by
  induction h with
  | nil => exact fun _ => mirrors_pure rfl
  | @cons p p' ps ps' head _ ih =>
    intro index
    obtain ⟨name, ty⟩ := p
    obtain ⟨name', ty'⟩ := p'
    obtain ⟨hname, rfl⟩ := head
    have hslot := addSlot_mirrors (r := r) (some name.text) ty' (.argument index)
    rw [Option.map_some, ← hname] at hslot
    refine hslot.bind_eq fun slot => (store_mirrors slot _).bind_eq fun _ => ?_
    exact (bindVariable_mirrors hr hname scope slot).bind_eq fun _ => ih (index + 1)

end functions

/-! ## Nodes -/

section nodes

variable {r : String → String} (hr : Function.Injective r) {sub : Node → Node → Prop}
  {l : Lower} (hl : ∀ c c', sub c c' → ∀ scope, Mirrors r Eq (l c scope) (l c' scope))
  {n n' : Node} (scope : ScopeId)

include hl

theorem lowerValue_mirrors (h : sub n n') :
    Mirrors r Eq (lowerValue l n scope) (lowerValue l n' scope) := by
  refine (hl n n' h scope).bind_eq fun lowered => ?_
  cases lowered with
  | value v => exact mirrors_pure rfl
  | unit | function => exact fail_mirrors rfl

theorem lowerAll_mirrors {ns ns' : List Node} (h : List.Forall₂ sub ns ns') :
    Mirrors r Eq (lowerAll l scope ns) (lowerAll l scope ns') := by
  induction h with
  | nil => exact mirrors_pure rfl
  | cons head _ ih => exact (hl _ _ head scope).bind_eq fun _ => ih

theorem lowerValues_mirrors {ns ns' : List Node} (h : List.Forall₂ sub ns ns') :
    Mirrors r Eq (lowerValues l scope ns) (lowerValues l scope ns') := by
  induction h with
  | nil => exact mirrors_pure rfl
  | cons head _ ih =>
    refine (lowerValue_mirrors hl scope head).bind_eq fun v => ?_
    exact ih.bind_eq fun vs => mirrors_pure rfl

theorem lowerArm_mirrors (h : sub n n') (block merge : Nat) :
    Mirrors r Eq (lowerArm l n scope block merge) (lowerArm l n' scope block merge) := by
  refine (positionAtEnd_mirrors block).bind_eq fun _ => ?_
  refine (inChildScope_mirrors scope fun inner => hl n n' h inner).bind_eq fun _ => ?_
  refine isTerminated_mirrors.bind_eq fun closed => ?_
  cases closed with
  | true => exact mirrors_pure rfl
  | false => exact terminate_mirrors _

theorem lowerIf_mirrors (cond : Option.Rel sub (n.nth? 0) (n'.nth? 0))
    (arm : Option.Rel sub (n.nth? 1) (n'.nth? 1)) (other : Option.Rel sub (n.nth? 2) (n'.nth? 2)) :
    Mirrors r Eq (lowerIf l n scope) (lowerIf l n' scope) := by
  unfold lowerIf
  generalize n.nth? 0 = first, n'.nth? 0 = first' at cond ⊢
  generalize n.nth? 1 = second, n'.nth? 1 = second' at arm ⊢
  generalize n.nth? 2 = third, n'.nth? 2 = third' at other ⊢
  cases cond with
  | none => exact malformed_mirrors rfl
  | some hcond =>
  cases arm with
  | none => exact malformed_mirrors rfl
  | some harm =>
  refine (lowerValue_mirrors hl scope hcond).bind_eq fun v => ?_
  refine (lowerCondition_mirrors v).bind_eq fun cond => ?_
  refine (appendBlock_mirrors (by decide)).bind_eq fun thenBlock => ?_
  cases other with
  | none =>
    refine (createBlock_mirrors (by decide)).bind_eq fun merge => ?_
    refine (terminate_mirrors _).bind_eq fun _ => ?_
    refine (lowerArm_mirrors hl scope harm thenBlock merge).bind_eq fun _ => ?_
    refine (attachBlock_mirrors merge).bind_eq fun _ => ?_
    exact (positionAtEnd_mirrors merge).bind_eq fun _ => mirrors_pure rfl
  | some hother =>
    refine (createBlock_mirrors (by decide)).bind_eq fun elseBlock => ?_
    refine (createBlock_mirrors (by decide)).bind_eq fun merge => ?_
    refine (terminate_mirrors _).bind_eq fun _ => ?_
    refine (lowerArm_mirrors hl scope harm thenBlock merge).bind_eq fun _ => ?_
    refine (attachBlock_mirrors elseBlock).bind_eq fun _ => ?_
    refine (lowerArm_mirrors hl scope hother elseBlock merge).bind_eq fun _ => ?_
    refine (attachBlock_mirrors merge).bind_eq fun _ => ?_
    exact (positionAtEnd_mirrors merge).bind_eq fun _ => mirrors_pure rfl

theorem lowerReturn_mirrors (operand : Option.Rel sub (n.nth? 0) (n'.nth? 0)) :
    Mirrors r Eq (lowerReturn l n scope) (lowerReturn l n' scope) := by
  refine Mirrors.get fun b => ?_
  rw [b.rename_cursor r]
  cases b.cursor with
  | none => exact malformed_mirrors rfl
  | some c =>
    refine (function_mirrors c.function).bind ?_
    rintro f _ rfl
    generalize n.nth? 0 = first, n'.nth? 0 = first' at operand ⊢
    cases operand with
    | none =>
      refine Mirrors.ite ?_ (fail_mirrors rfl)
      exact (terminate_mirrors _).bind_eq fun _ => mirrors_pure rfl
    | some hoperand =>
      refine (lowerValue_mirrors hl scope hoperand).bind_eq fun v => ?_
      refine Mirrors.ite (fail_mirrors rfl) ?_
      refine (convert_mirrors v f.signature.ret .ret).bind_eq fun w => ?_
      exact (terminate_mirrors _).bind_eq fun _ => mirrors_pure rfl

include hr

theorem lowerLocal_mirrors {name name' : Node} (hname : NamesAlike r name name') (ty : Ty)
    {init init' : Option Node} (h : Option.Rel (InitsAlike sub) init init') :
    Mirrors r Eq (lowerLocal l name ty init scope) (lowerLocal l name' ty init' scope) := by
  refine Mirrors.get fun b => ?_
  rw [hname.binds hr b scope]
  refine Mirrors.ite (duplicateVariable_mirrors hname) ?_
  have hslot := addSlot_mirrors (r := r) (some name.text) ty .var
  rw [Option.map_some, ← hname] at hslot
  refine hslot.bind_eq fun slot => ?_
  cases h with
  | none => exact bindVariable_mirrors hr hname scope slot
  | some h =>
    refine (lowerValue_mirrors hl scope h.value).bind_eq fun v => ?_
    refine (expectType_mirrors v ty .initializer).bind_eq fun _ => ?_
    refine (store_mirrors slot v).bind_eq fun _ => ?_
    exact bindVariable_mirrors hr hname scope slot

theorem lowerVariable_mirrors {d d' : Node} (ty : Ty) (h : ItemsAlike r sub d d') :
    Mirrors r Eq (lowerVariable l ty d scope) (lowerVariable l ty d' scope) := by
  have hname := h.name
  unfold lowerVariable
  generalize d.identifier? = name, d'.identifier? = name' at hname ⊢
  cases hname with
  | none => exact malformed_mirrors rfl
  | some hname =>
  refine Mirrors.ite (fail_mirrors rfl) (Mirrors.get fun b => ?_)
  rw [b.rename_cursor r]
  cases b.cursor with
  | none => exact lowerGlobal_mirrors hr hname ty h.init scope
  | some c => exact lowerLocal_mirrors hr hl scope hname ty h.init

theorem lowerDeclarators_mirrors {ds ds' : List Node} (ty : Ty)
    (h : List.Forall₂ (ItemsAlike r sub) ds ds') :
    Mirrors r Eq (lowerDeclarators l ty scope ds) (lowerDeclarators l ty scope ds') := by
  induction h with
  | nil => exact mirrors_pure rfl
  | @cons d d' ds ds' head _ ih =>
    unfold lowerDeclarators
    by_cases hk : d.kind = .functionDeclarator
    · rw [if_pos hk, if_pos (head.kind.2 hk)]
      exact (lowerPrototype_mirrors hr ty (head.function hk)).bind_eq fun _ => ih
    · rw [if_neg hk, if_neg fun hk' => hk (head.kind.1 hk')]
      exact (lowerVariable_mirrors hr hl scope ty head).bind_eq fun _ => ih

theorem lowerAssignment_mirrors (target : Option.Rel (TargetsAlike r) (n.nth? 0) (n'.nth? 0))
    (value : Option.Rel sub (n.nth? 1) (n'.nth? 1)) :
    Mirrors r Eq (lowerAssignment l n scope) (lowerAssignment l n' scope) := by
  unfold lowerAssignment
  generalize n.nth? 0 = first, n'.nth? 0 = first' at target ⊢
  generalize n.nth? 1 = second, n'.nth? 1 = second' at value ⊢
  cases target with
  | none => exact malformed_mirrors rfl
  | @some t t' htarget =>
  cases value with
  | none => exact malformed_mirrors rfl
  | some hvalue =>
  dsimp only
  by_cases hk : t.unwrapped.kind ≠ .identifier
  · rw [if_pos hk, if_pos (by rw [htarget.kind]; exact hk)]
    exact fail_mirrors (by rw [htarget.kind]; rfl)
  rw [if_neg hk, if_neg (by rw [htarget.kind]; exact hk)]
  have hname := htarget.name (not_not.1 hk)
  refine (lowerAddress_mirrors hr hname scope).bind_eq fun address => ?_
  refine (lowerValue_mirrors hl scope hvalue).bind_eq fun v => ?_
  refine (expectType_mirrors v _ .assignment).bind_eq fun _ => ?_
  exact (store_mirrors address v).bind_eq fun _ => mirrors_pure rfl

theorem lowerCall_mirrors
    (callee : Option.Rel (NamesAlike r) ((n.nth? 0).bind Node.identifier?)
      ((n'.nth? 0).bind Node.identifier?))
    (args : List.Forall₂ sub n.arguments n'.arguments) :
    Mirrors r Eq (lowerCall l n scope) (lowerCall l n' scope) := by
  unfold lowerCall
  generalize (n.nth? 0).bind Node.identifier? = name, (n'.nth? 0).bind Node.identifier? = name'
    at callee ⊢
  cases callee with
  | none => exact malformed_mirrors rfl
  | @some name name' hname =>
  refine Mirrors.get fun b => ?_
  rw [hname.functionIndex? hr b]
  cases b.module.functionIndex? name.text with
  | none => exact fail_mirrors (by rw [hname]; rfl)
  | some index =>
    refine (lowerValues_mirrors hl scope args).bind_eq fun vs => ?_
    refine (function_mirrors index).bind ?_
    rintro f _ rfl
    refine Mirrors.ite (fail_mirrors (by rw [hname]; rfl)) ?_
    refine (expectTypes_mirrors args vs f.signature.params).bind_eq fun _ => ?_
    refine (call_mirrors index _).bind_eq fun result => ?_
    cases result with
    | some v => exact mirrors_pure rfl
    | none => exact mirrors_pure rfl

/-- The cursor goes back to where it was, under other names too. -/
theorem lowerBody_mirrors {body body' : Node} (h : sub body body') (index : Nat) (name : String)
    {ps ps' : List (Node × Ty)}
    (hps : List.Forall₂ (fun p p' => NamesAlike r p.1 p'.1 ∧ p'.2 = p.2) ps ps') (ret : Ty) :
    Mirrors r Eq (lowerBody l index name ps ret body scope)
      (lowerBody l index (r name) ps' ret body' scope) := by
  have hnames : ps'.map (·.1.text) = (ps.map (·.1.text)).map r := by
    clear h
    induction hps with
    | nil => rfl
    | cons head _ ih => rw [List.map_cons, List.map_cons, List.map_cons, ih, head.1]
  refine Mirrors.bind_eq (modifyFunction_mirrors index fun f => ?_) fun _ => ?_
  · simp only [Function.rename, hnames]
  refine (enterFunction_mirrors index name).bind_eq fun previous => ?_
  have hlowered : Mirrors r Eq
      (inChildScope scope fun inner => spillParams inner 0 ps >>= fun _ => l body inner >>= fun _ =>
        closeBody ret)
      (inChildScope scope fun inner => spillParams inner 0 ps' >>= fun _ =>
        l body' inner >>= fun _ => closeBody ret) := by
    refine inChildScope_mirrors scope fun inner => ?_
    refine (spillParams_mirrors hr hps inner 0).bind_eq fun _ => ?_
    exact (hl body body' h inner).bind_eq fun _ => closeBody_mirrors ret
  -- The cursor is put back after an error too, so this is no sequence of steps.
  intro b
  have hb := hlowered b
  dsimp only
  generalize inChildScope scope _ b = end₁ at hb ⊢
  generalize inChildScope scope _ (b.rename r) = end₂ at hb ⊢
  cases hb with
  | ok => exact .ok rfl
  | error fault => exact .error fault

theorem lowerDefinition_mirrors
    (type : Option.Rel (fun s s' => ReadsMirrored r Eq s.specifiedType s'.specifiedType)
      (n.nth? 0) (n'.nth? 0))
    (declarator : Option.Rel (fun d d' =>
        ReadsMirrored r (DeclaratorsAlike r) d.functionDeclarator d'.functionDeclarator)
      (n.child? .functionDeclarator) (n'.child? .functionDeclarator))
    (body : Option.Rel sub (n.child? .compoundStatement) (n'.child? .compoundStatement)) :
    Mirrors r Eq (lowerDefinition l n scope) (lowerDefinition l n' scope) := by
  unfold lowerDefinition
  generalize n.nth? 0 = first, n'.nth? 0 = first' at type ⊢
  generalize n.child? .functionDeclarator = second, n'.child? .functionDeclarator = second'
    at declarator ⊢
  generalize n.child? .compoundStatement = third, n'.child? .compoundStatement = third' at body ⊢
  cases type with
  | none => exact malformed_mirrors rfl
  | some htype =>
  cases declarator with
  | none => exact malformed_mirrors rfl
  | some hdeclarator =>
  cases body with
  | none => exact malformed_mirrors rfl
  | some hbody =>
  dsimp only
  refine (liftError_mirrors htype).bind_eq fun ret => ?_
  refine (liftError_mirrors hdeclarator).bind fun decl decl' hdecl => ?_
  refine Mirrors.get fun b => ?_
  have hname : decl'.name.text = r decl.name.text := hdecl.name
  rw [b.rename_cursor r, hname, hdecl.signature ret]
  cases b.cursor with
  | some c =>
    refine (function_mirrors c.function).bind ?_
    rintro outer _ rfl
    exact malformed_mirrors rfl
  | none =>
    refine (liftError_mirrors (namedParams_mirrors _ hdecl.params)).bind fun ps ps' hps => ?_
    refine (declareFunction_mirrors hr hdecl.name _).bind_eq fun index => ?_
    refine (function_mirrors index).bind ?_
    rintro f _ rfl
    refine Mirrors.ite (fail_mirrors rfl) ?_
    refine (lowerBody_mirrors hr hl scope hbody index decl.name.text hps ret).bind_eq fun _ => ?_
    exact (verifyLowered_mirrors index).bind_eq fun _ => mirrors_pure rfl

end nodes

section trees

variable {r : String → String} (hr : Function.Injective r) {sub : Node → Node → Prop} {n n' : Node}
  (scope : ScopeId)

theorem lower_of_literal {v : Scalar} (h : n.literal? = some v) :
    lower n scope = pure (.value (.const v)) := by
  rw [lower_eq, lowerNode]
  unfold Node.literal? at h
  cases hk : n.kind <;> rw [hk] at h <;> cases h <;> rfl

theorem lower_of_sequence (h : n.kind.isSequence = true) :
    lower n scope = lowerSequence lower n scope := by
  rw [lower_eq, lowerNode]
  cases hk : n.kind <;> simp_all [Syntax.Kind.isSequence]

theorem lower_of_isPart (h : n.kind.isPart = true) :
    lower n scope = malformed n.span (.misplaced n.kind) := by
  rw [lower_eq, lowerNode]
  cases hk : n.kind <;> simp_all [Syntax.Kind.isPart]

include hr

/-- Nodes that read alike are lowered alike if the nodes below them are. -/
theorem lower_step (h : ReadsAlike r sub n n')
    (hl : ∀ c c', sub c c' → ∀ scope, Mirrors r Eq (lower c scope) (lower c' scope)) :
    Mirrors r Eq (lower n scope) (lower n' scope) := by
  cases h with
  | @wrapper inner kind children body =>
    have hlower : lower n' scope = lower inner scope := by
      rw [lower_eq, lowerNode, kind, children]
    rw [hlower]
    exact hl n inner body scope
  | sequence kind kind' all =>
    rw [lower_of_sequence scope kind, lower_of_sequence scope kind']
    exact (lowerAll_mirrors hl scope all).bind_eq fun _ => mirrors_pure rfl
  | expression kind kind' all =>
    rw [lower_eq, lower_eq, lowerNode, lowerNode, kind, kind']
    dsimp only
    generalize n.children = cs at all ⊢
    generalize n'.children = cs' at all ⊢
    cases all with
    | nil => exact malformed_mirrors rfl
    | cons head tail =>
      cases tail with
      | nil => exact hl _ _ head scope
      | cons => exact malformed_mirrors rfl
  | literal reads reads' =>
    rw [lower_of_literal scope reads, lower_of_literal scope reads']
    exact mirrors_pure rfl
  | identifier kind kind' name =>
    rw [lower_eq, lower_eq, lowerNode, lowerNode, kind, kind']
    exact (lowerIdentifier_mirrors hr name scope).bind_eq fun _ => mirrors_pure rfl
  | declaration kind kind' type all =>
    rw [lower_eq, lower_eq, lowerNode, lowerNode, kind, kind']
    refine (liftError_mirrors type).bind_eq fun ty => ?_
    exact (lowerDeclarators_mirrors hr hl scope ty all).bind_eq fun _ => mirrors_pure rfl
  | definition kind kind' type declarator body =>
    rw [lower_eq, lower_eq, lowerNode, lowerNode, kind, kind']
    exact lowerDefinition_mirrors hr hl scope type declarator body
  | conditional kind kind' cond arm other =>
    rw [lower_eq, lower_eq, lowerNode, lowerNode, kind, kind']
    exact lowerIf_mirrors hl scope cond arm other
  | ret kind kind' operand =>
    rw [lower_eq, lower_eq, lowerNode, lowerNode, kind, kind']
    exact lowerReturn_mirrors hl scope operand
  | assignment kind kind' target value =>
    rw [lower_eq, lower_eq, lowerNode, lowerNode, kind, kind']
    exact lowerAssignment_mirrors hr hl scope target value
  | call kind kind' callee args =>
    rw [lower_eq, lower_eq, lowerNode, lowerNode, kind, kind']
    exact lowerCall_mirrors hr hl scope callee args
  | misplaced kind misplaced =>
    rw [lower_of_isPart scope misplaced, lower_of_isPart scope (kind ▸ misplaced), kind]
    exact malformed_mirrors rfl

/-- A relation under which nodes of a tree read alike, with related nodes below them, relates nodes
that are lowered alike. -/
theorem lower_mirrors {t : Node} (hsub : ∀ c c', t.Has c → sub c c' → ReadsAlike r sub c c')
    (hn : t.Has n) (h : sub n n') : Mirrors r Eq (lower n scope) (lower n' scope) := by
  -- By induction on the height of the second node, which has the wrappers.
  induction hh : n'.height using Nat.strong_induction_on generalizing n n' scope with
  | _ height ih =>
    subst hh
    have hbelow : ReadsAlike r (fun c c' => (t.Has c ∧ c'.height < n'.height) ∧ sub c c') n n' :=
      (hsub n n' hn h).restrict hn fun c c' hc hlt hcc => ⟨⟨hc, hlt⟩, hcc⟩
    refine lower_step hr scope hbelow fun c c' hc scope => ?_
    exact ih c'.height hc.1.2 scope hc.1.1 hc.2 rfl

/-- Two files of trees that are lowered alike, with roots of the same kind. -/
theorem lowerRoot_mirrors (hsub : ∀ c c', n.Has c → sub c c' → ReadsAlike r sub c c') (h : sub n n')
    (hkind : n'.kind = n.kind) : Mirrors r Eq (lowerRoot n) (lowerRoot n') := by
  unfold lowerRoot
  rw [hkind]
  refine Mirrors.ite (malformed_mirrors rfl) ?_
  have hpush : Mirrors r Eq (pushScope none) (pushScope none) :=
    mirrors_modifyGet (fun _ => rfl) fun _ => rfl
  refine hpush.bind_eq fun scope => ?_
  exact (lower_mirrors hr scope hsub .root h).bind_eq fun _ => mirrors_pure rfl

end trees

/-! ## Files -/

/-- Two results of files that are the same but for names and for the place of an error. -/
inductive OutcomesMirrored (r : String → String) :
    Except Failure Module → Except Failure Module → Prop
  | ok (m : Module) : OutcomesMirrored r (.ok m) (.ok (m.rename r))
  | error {e e' : Fault Error} (m : Module) (fault : FaultMirrors r e e') :
    OutcomesMirrored r (.error ⟨e, m⟩) (.error ⟨e', m.rename r⟩)

theorem generate_mirrors {r : String → String} (hr : Function.Injective r)
    {sub : Node → Node → Prop} {n n' : Node}
    (hsub : ∀ c c', n.Has c → sub c c' → ReadsAlike r sub c c') (h : sub n n')
    (hkind : n'.kind = n.kind) (name : String) :
    OutcomesMirrored r (generate name n) (generate name n') := by
  have hroot : EndsMirrored r Eq (lowerRoot n (fresh name)) (lowerRoot n' (fresh name)) :=
    lowerRoot_mirrors hr hsub h hkind (fresh name)
  cases hx : lowerRoot n (fresh name) <;> cases hy : lowerRoot n' (fresh name) <;>
    rw [hx, hy] at hroot <;> cases hroot
  · rw [generate_of_ok hx, generate_of_ok hy]
    exact .ok _
  · rw [generate_of_error hx, generate_of_error hy]
    exact .error _ ‹_›

end Lowering

end SlotIR
