import SlotIR.Proofs.Generated

/-!
# Prefixes of files

A file is lowered from its first item to its last, and what an item builds stays as it is. So the module
of the first items of a file is part of the module of the whole file (`Module.Retains`), and an error in
the first items is the error of the whole file. The depth that a tree is lowered within does not matter
as long as it is not less than the height (`lowerWithin_eq`), which is why two files of different heights
can be compared.
-/

namespace SlotIR

open Syntax (Node)

namespace Lowering

open Builder

/-! ## Depth -/

section depth

variable {l l' : Lower} {n : Node}

theorem lowerValue_congr (h : l n = l' n) : lowerValue l n = lowerValue l' n := by
  funext scope
  rw [lowerValue, lowerValue, h]

theorem lowerAll_congr {ns : List Node} (h : ∀ c ∈ ns, l c = l' c) (scope : ScopeId) :
    lowerAll l scope ns = lowerAll l' scope ns := by
  induction ns with
  | nil => rfl
  | cons n ns ih =>
    obtain ⟨hn, hns⟩ := List.forall_mem_cons.1 h
    rw [lowerAll, lowerAll, hn, ih hns]

theorem lowerValues_congr {ns : List Node} (h : ∀ c ∈ ns, l c = l' c) (scope : ScopeId) :
    lowerValues l scope ns = lowerValues l' scope ns := by
  induction ns with
  | nil => rfl
  | cons n ns ih =>
    obtain ⟨hn, hns⟩ := List.forall_mem_cons.1 h
    rw [lowerValues, lowerValues, lowerValue_congr hn, ih hns]

theorem lowerLocal_congr {init : Option Node} (h : ∀ c, init = some c → l c = l' c) (name : Node)
    (ty : Ty) (scope : ScopeId) :
    lowerLocal l name ty init scope = lowerLocal l' name ty init scope := by
  unfold lowerLocal
  cases init with
  | none => rfl
  | some c => simp only [lowerValue_congr (h c rfl)]

theorem lowerDeclarators_congr {ds : List Node}
    (h : ∀ d ∈ ds, ∀ c, d.initializer? = some c → l c = l' c) (ty : Ty) (scope : ScopeId) :
    lowerDeclarators l ty scope ds = lowerDeclarators l' ty scope ds := by
  induction ds with
  | nil => rfl
  | cons d ds ih =>
    obtain ⟨hd, hds⟩ := List.forall_mem_cons.1 h
    have hvar : lowerVariable l ty d scope = lowerVariable l' ty d scope := by
      unfold lowerVariable
      simp only [lowerLocal_congr hd]
    rw [lowerDeclarators, lowerDeclarators, hvar, ih hds]

theorem lowerArm_congr (h : l n = l' n) : lowerArm l n = lowerArm l' n := by
  funext scope block merge
  rw [lowerArm, lowerArm, h]

variable (h : ∀ c, c.height < n.height → l c = l' c) (scope : ScopeId)

include h

theorem lowerIf_congr : lowerIf l n scope = lowerIf l' n scope := by
  unfold lowerIf
  cases h0 : n.nth? 0 with
  | none => rfl
  | some condNode =>
  cases h1 : n.nth? 1 with
  | none => rfl
  | some thenNode =>
  have hcond := lowerValue_congr (h condNode (Node.height_nth? h0))
  have hthen := lowerArm_congr (h thenNode (Node.height_nth? h1))
  cases h2 : n.nth? 2 with
  | none => simp only [hcond, hthen]
  | some elseNode =>
    have helse := lowerArm_congr (h elseNode (Node.height_nth? h2))
    simp only [hcond, hthen, helse]

theorem lowerReturn_congr : lowerReturn l n scope = lowerReturn l' n scope := by
  unfold lowerReturn
  cases h0 : n.nth? 0 with
  | none => rfl
  | some e => simp only [lowerValue_congr (h e (Node.height_nth? h0))]

theorem lowerAssignment_congr : lowerAssignment l n scope = lowerAssignment l' n scope := by
  unfold lowerAssignment
  cases n.nth? 0 with
  | none => rfl
  | some target =>
  cases h1 : n.nth? 1 with
  | none => rfl
  | some e => simp only [lowerValue_congr (h e (Node.height_nth? h1))]

theorem lowerCall_congr : lowerCall l n scope = lowerCall l' n scope := by
  have hargs := lowerValues_congr (fun c hc => h c (Node.height_arguments hc)) scope
  unfold Node.arguments at hargs
  unfold lowerCall
  simp only [hargs]

theorem lowerDeclaration_congr : lowerDeclaration l n scope = lowerDeclaration l' n scope := by
  have hinit : ∀ d ∈ n.declarators, ∀ c, d.initializer? = some c → l c = l' c := fun d hd c hc =>
    h c (Nat.lt_trans (Node.height_initializer? hc) (Node.height_declarators hd))
  unfold lowerDeclaration
  simp only [lowerDeclarators_congr hinit]

theorem lowerDefinition_congr : lowerDefinition l n scope = lowerDefinition l' n scope := by
  unfold lowerDefinition
  cases n.nth? 0 with
  | none => rfl
  | some specifiers =>
  cases n.child? .functionDeclarator with
  | none => rfl
  | some declarator =>
  cases hc : n.child? .compoundStatement with
  | none => rfl
  | some body => simp only [lowerBody, h body (Node.height_child? hc)]

/-- One node is lowered in the same way if the nodes below it are. -/
theorem lowerNode_congr : lowerNode l n scope = lowerNode l' n scope := by
  have hall := lowerAll_congr (fun c hc => h c (Node.height_lt_of_mem hc)) scope
  unfold lowerNode
  cases n.kind with
  | translationUnit | statementList | compoundStatement | declarationList =>
    simp only [lowerSequence, hall]
  | functionDefinition => exact lowerDefinition_congr h scope
  | declaration => exact lowerDeclaration_congr h scope
  | ifElseStatement => exact lowerIf_congr h scope
  | returnExpr => exact lowerReturn_congr h scope
  | assignmentExpression => exact lowerAssignment_congr h scope
  | functionCall => exact lowerCall_congr h scope
  | expression =>
    rcases hc : n.children with _ | ⟨inner, _ | ⟨c, cs⟩⟩
    · rfl
    · have hi := h inner (Node.height_lt_of_mem (by simp [hc]))
      simp only [hi]
    · rfl
  | _ => rfl

end depth

theorem lowerWithin_congr {depth depth' : Nat} {n : Node} (h : n.height ≤ depth)
    (h' : n.height ≤ depth') : lowerWithin depth n = lowerWithin depth' n := by
  induction depth generalizing depth' n with
  | zero => exact absurd n.height_pos (by omega)
  | succ depth ih =>
    cases depth' with
    | zero => exact absurd n.height_pos (by omega)
    | succ depth' =>
      funext scope
      exact lowerNode_congr (fun c hc => ih (by omega) (by omega)) scope

/-- Every depth that is enough for a tree gives the same. -/
theorem lowerWithin_eq {depth : Nat} {n : Node} (h : n.height ≤ depth) :
    lowerWithin depth n = lower n := by
  funext scope
  rw [lower, lowerWithin_congr h (Nat.le_refl _)]

/-- A node is lowered from the nodes below it. -/
theorem lower_eq (n : Node) (scope : ScopeId) : lower n scope = lowerNode lower n scope := by
  rw [← lowerWithin_eq (Nat.le_succ n.height)]
  exact lowerNode_congr (fun c hc => lowerWithin_eq (Nat.le_of_lt hc)) scope

/-! ## Items in order -/

theorem lowerAll_append (l : Lower) (scope : ScopeId) (xs ys : List Node) :
    lowerAll l scope (xs ++ ys) = lowerAll l scope xs >>= fun _ => lowerAll l scope ys := by
  induction xs with
  | nil => rfl
  | cons x xs ih => simp only [List.cons_append, lowerAll, ih, bind_assoc]

/-- A file is lowered by lowering its items in order. -/
theorem lowerRoot_unit (name : String) (value : Option String) (span : Option Syntax.Span)
    (xs : List Node) : lowerRoot (.mk .translationUnit value span xs) (fresh name) =
      lowerAll lower 0 xs (File.initial name).builder := by
  have hpush : pushScope none (fresh name) = .ok 0 (File.initial name).builder := rfl
  have hunit : lower (.mk .translationUnit value span xs) 0 =
      lowerAll lower 0 xs >>= fun _ => pure .unit := lower_eq _ 0
  unfold lowerRoot
  rw [if_neg (by simp [Node.kind]), bind_of_ok hpush, hunit, bind_assoc]
  simp only [pure_bind, bind_pure_unit]

theorem lowerAll_lower_builds {scope : ScopeId} {file : File} {ns : List Node}
    (hi : file.Inv scope) : Builds (lowerAll lower scope ns file.builder)
      (fun _ file' => BuildsAll scope (Source.itemsAll ns) file file') := by
  have hheight : ∀ n ∈ ns, n.height ≤ Node.heightAll ns := fun n hn =>
    Nat.le_of_lt_succ (Node.height_lt_of_mem (n := .mk .translationUnit none none ns) hn)
  rw [← lowerAll_congr fun n hn => lowerWithin_eq (hheight n hn)]
  exact lowerAll_builds (lowerWithin_lowersFile _) hheight hi

end Lowering

/-! ## What a file keeps -/

/-- Globals and functions are where they were, and a function that had a body has not changed. -/
structure Module.Retains (m m' : Module) : Prop where
  globals : m.globals <+: m'.globals
  functions : ∀ (i : Nat) (f : Function), m.functions[i]? = some f →
    ∃ f', m'.functions[i]? = some f' ∧ f'.name = f.name ∧ f'.signature = f.signature ∧
      (f.hasBody = true → f' = f)

namespace Module.Retains

variable {m m' m'' : Module}

theorem refl (m : Module) : m.Retains m :=
  ⟨List.prefix_rfl, fun _ f hf => ⟨f, hf, rfl, rfl, fun _ => rfl⟩⟩

theorem trans (h : m.Retains m') (h' : m'.Retains m'') : m.Retains m'' := by
  refine ⟨h.globals.trans h'.globals, fun i f hf => ?_⟩
  obtain ⟨f', hf', hn, hs, hb⟩ := h.functions i f hf
  obtain ⟨f'', hf'', hn', hs', hb'⟩ := h'.functions i f' hf'
  refine ⟨f'', hf'', hn'.trans hn, hs'.trans hs, fun hbody => ?_⟩
  have e := hb hbody
  subst e
  exact hb' hbody

theorem of_declares (h : m.Declares m') : m.Retains m' :=
  ⟨h.globals ▸ List.prefix_rfl, fun _ f hf => ⟨f, h.getElem? hf, rfl, rfl, fun _ => rfl⟩⟩

theorem addGlobal (m : Module) (g : Global) : m.Retains (m.addGlobal g) :=
  ⟨List.prefix_append .., fun _ f hf => ⟨f, hf, rfl, rfl, fun _ => rfl⟩⟩

/-- A function that had no body gets one. -/
theorem put {k : Nat} {f g : Function} (hg : m.functions[k]? = some g) (hbare : g.hasBody = false)
    (hn : f.name = g.name) (hs : f.signature = g.signature) : m.Retains (m.put k f) := by
  refine ⟨List.prefix_rfl, fun i e he => ?_⟩
  by_cases hik : i = k
  · subst hik
    cases hg.symm.trans he
    refine ⟨f, Draft.getElem?_put (List.getElem?_eq_some_iff.1 hg).1, hn, hs, fun hbody => ?_⟩
    rw [hbare] at hbody
    cases hbody
  · exact ⟨e, (Draft.getElem?_put_of_ne hik).trans he, rfl, rfl, fun _ => rfl⟩

end Module.Retains

namespace Lowering

open Builder

variable {scope : ScopeId} {file file' : File}

theorem buildsDeclarators_retains {ty : Ty} {ns : List Node}
    (h : BuildsDeclarators scope ty ns file file') : file.module.Retains file'.module := by
  induction h with
  | nil => exact .refl _
  | cons head tail ih =>
    cases head with
    | prototype kind reads registers => exact (Module.Retains.of_declares registers.declares).trans ih
    | global => exact (Module.Retains.addGlobal _ _).trans ih

theorem buildsItem_retains {n : Node} (hi : file.Inv scope) (h : BuildsItem scope n file file') :
    file.module.Retains file'.module := by
  cases h with
  | literal => exact .refl _
  | declaration kind type all => exact buildsDeclarators_retains all
  | definition kind first second third type reads named registers function bare built finished =>
    have ho := opens_of_definition hi type reads named registers function bare
    have hl := ho.leaves built
    have hbare : Module.Retains _ _ := .put (hl.declares.getElem? ho.function) (by rw [bare]; rfl)
      hl.name hl.signature
    exact (Module.Retains.of_declares (registers.declares.trans hl.declares)).trans hbare

theorem buildsAll_retains {ns : List Node} (h : BuildsAll scope ns file file') :
    file.Inv scope → file.module.Retains file'.module := by
  induction h with
  | nil => exact fun _ => .refl _
  | cons head tail ih =>
    intro hi
    exact (buildsItem_retains hi head).trans (ih (buildsItem_preserves hi head).1)

/-! ## Generated modules -/

theorem generate_of_ok {name : String} {root : Node} {u : Unit} {b : Builder}
    (h : lowerRoot root (fresh name) = .ok u b) : generate name root = .ok b.module := by
  rw [generate, h]
  dsimp only
  rw [lowerRoot_verify h]

theorem generate_of_error {name : String} {root : Node} {e : Fault Error} {b : Builder}
    (h : lowerRoot root (fresh name) = .error e b) :
    generate name root = .error { fault := e, module := b.module } := by
  rw [generate, h]

/-- Items at the end of a file add to the module of the items before them and change nothing in it
but to give bodies to functions that had none; and they are not reached if there is an error before
them. -/
theorem generate_append (name : String) (value value' : Option String)
    (span span' : Option Syntax.Span) (xs ys : List Node) :
    (∀ m, generate name (.mk .translationUnit value span (xs ++ ys)) = .ok m →
      ∃ m₀, generate name (.mk .translationUnit value' span' xs) = .ok m₀ ∧
        m₀.globals <+: m.globals ∧
        ∀ (i : Nat) (f : Function), m₀.functions[i]? = some f →
          ∃ f', m.functions[i]? = some f' ∧ f'.name = f.name ∧ f'.signature = f.signature ∧
            (f.hasBody = true → f' = f)) ∧
    ∀ failure, generate name (.mk .translationUnit value' span' xs) = .error failure →
      generate name (.mk .translationUnit value span (xs ++ ys)) = .error failure := by
  have hxs := lowerRoot_unit name value' span' xs
  have hall := lowerRoot_unit name value span (xs ++ ys)
  rw [lowerAll_append] at hall
  cases hr : lowerAll lower 0 xs (File.initial name).builder with
  | error e b =>
    rw [hr] at hxs
    rw [bind_of_error hr] at hall
    rw [generate_of_error hxs, generate_of_error hall]
    refine ⟨fun m hm => ?_, fun failure hf => hf⟩
    cases hm
  | ok u b =>
    rw [hr] at hxs
    rw [bind_of_ok hr] at hall
    rw [generate_of_ok hxs]
    refine ⟨fun m hm => ⟨b.module, rfl, ?_⟩, fun failure hf => ?_⟩
    · obtain ⟨file, rfl, -, hi⟩ := lowerRoot_ok hxs
      cases hr' : lowerAll lower 0 ys file.builder with
      | error e b' =>
        rw [hr'] at hall
        rw [generate_of_error hall] at hm
        cases hm
      | ok u' b' =>
        rw [hr'] at hall
        rw [generate_of_ok hall] at hm
        cases hm
        obtain ⟨file', rfl, hb⟩ := Ends.of_ok (lowerAll_lower_builds hi) hr'
        have hretains := buildsAll_retains hb hi
        exact ⟨hretains.globals, hretains.functions⟩
    · cases hf

/-- A variable, a declaration of `f`, and a function that calls `f`. -/
def forwardCall : List Node := [
  branchNode .declaration [
    branchNode .declarationSpecifiers [leaf .typeSpecifier "int"], leaf .identifier "x"],
  branchNode .declaration [
    branchNode .declarationSpecifiers [leaf .typeSpecifier "int"],
    branchNode .functionDeclarator [leaf .identifier "f"]],
  branchNode .functionDefinition [
    branchNode .declarationSpecifiers [leaf .typeSpecifier "int"],
    branchNode .functionDeclarator [leaf .identifier "g"],
    branchNode .compoundStatement [
      branchNode .returnExpr [branchNode .functionCall [leaf .identifier "f"]]]]]

/-- The definition of `f`, and one more variable. -/
def lateDefinition : List Node := [
  branchNode .functionDefinition [
    branchNode .declarationSpecifiers [leaf .typeSpecifier "int"],
    branchNode .functionDeclarator [leaf .identifier "f"],
    branchNode .compoundStatement [branchNode .returnExpr [leaf .identifier "x"]]],
  branchNode .declaration [
    branchNode .declarationSpecifiers [leaf .typeSpecifier "char"], leaf .identifier "y"]]

/-- The definition alone has no `x` to read, and what follows it does not matter. -/
theorem late_definition_append :
    (∃ m m₀, generate "late" (branchNode .translationUnit (forwardCall ++ lateDefinition)) = .ok m ∧
      generate "late" (branchNode .translationUnit forwardCall) = .ok m₀ ∧
      m₀.globals <+: m.globals ∧ m.functions[1]? = m₀.functions[1]?) ∧
    ∃ failure,
      generate "late" (branchNode .translationUnit lateDefinition) = .error failure ∧
      generate "late" (branchNode .translationUnit (lateDefinition ++ forwardCall)) =
        .error failure := by
  constructor
  · have hok : (generate "late" (branchNode .translationUnit (forwardCall ++ lateDefinition))).toBool =
        true := by decide +kernel
    cases hm : generate "late" (branchNode .translationUnit (forwardCall ++ lateDefinition)) with
    | error failure =>
      rw [hm] at hok
      cases hok
    | ok m =>
      obtain ⟨m₀, hm₀, hglobals, hfunctions⟩ :=
        (generate_append "late" none none none none forwardCall lateDefinition).1 m hm
      have hbody : ((generate "late" (branchNode .translationUnit forwardCall)).toOption.bind
          fun m => m.functions[1]?).any (·.hasBody) = true := by decide +kernel
      change generate "late" (branchNode .translationUnit forwardCall) = .ok m₀ at hm₀
      rw [hm₀, Except.toOption, Option.bind_some] at hbody
      cases hf : m₀.functions[1]? with
      | none =>
        rw [hf] at hbody
        cases hbody
      | some f =>
        rw [hf] at hbody
        obtain ⟨f', hf', -, -, hsame⟩ := hfunctions 1 f hf
        rw [hsame hbody] at hf'
        exact ⟨m, m₀, rfl, hm₀, hglobals, hf'.trans hf.symm⟩
  · have hno : (generate "late" (branchNode .translationUnit lateDefinition)).toBool = false := by
      decide +kernel
    cases hm : generate "late" (branchNode .translationUnit lateDefinition) with
    | ok m =>
      rw [hm] at hno
      cases hno
    | error failure =>
      exact ⟨failure, rfl,
        (generate_append "late" none none none none lateDefinition forwardCall).2 failure hm⟩

end Lowering

end SlotIR
