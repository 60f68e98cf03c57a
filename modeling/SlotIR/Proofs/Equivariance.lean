import SlotIR.Proofs.AlikeTrees
import SlotIR.Proofs.Labels
import SlotIR.Proofs.TypeChecking

/-!
# Spans and names of trees

Two trees are alike if they differ in their spans and in the texts of their identifiers only, and
if the second has the texts of the first under other names (`Node.Like`). Everything that lowering
reads off a tree it reads alike off a tree like it (`Like.reads`). So trees of the same shape have
the same module, or fail for the same cause (`generate_ignores_spans`); and a tree in which every
identifier is renamed, no two of them to the same name, has the module of the tree under those
names (`generate_rename`).
-/

namespace SlotIR

open Syntax (Node Param FunctionDeclarator Kind paramsOf withoutVoid)
open Builder (ReadsMirrored)

/-! ## What is read off nodes -/

namespace Syntax.Node

theorem identifier?_eq (n : Node) :
    n.identifier? =
      if n.kind = .identifier then some n
      else (n.child? .identifier).or ((n.nth? 0).bind identifier?) := by
  obtain ⟨k, v, s, cs⟩ := n
  cases cs with
  | nil => rfl
  | cons c cs =>
    rw [identifier?]
    refine if_congr Iff.rfl rfl ?_
    show _ = ((c :: cs).find? (·.kind == .identifier)).or c.identifier?
    cases (c :: cs).find? (·.kind == .identifier) with
    | none => rfl
    | some found => rfl

theorem identifier?_of_first {n c : Node} (hk : n.kind ≠ .identifier) (h : n.nth? 0 = some c)
    (hc : c.kind = .identifier) : n.identifier? = some c := by
  have hchild : n.child? .identifier = some c := by
    obtain ⟨k, v, s, cs⟩ := n
    cases cs with
    | nil => cases h
    | cons first cs =>
      cases h
      exact List.find?_cons_of_pos (by simp [hc])
  rw [identifier?_eq, if_neg hk, hchild]
  rfl

theorem kind_of_child? {n c : Node} {k : Kind} (h : n.child? k = some c) : c.kind = k := by
  have hk := List.find?_some h
  exact eq_of_beq hk

theorem unwrapped_wrapper {n inner : Node} (hk : n.kind = .expression)
    (hc : n.children = [inner]) : n.unwrapped = inner.unwrapped := by
  obtain ⟨k, v, s, cs⟩ := n
  obtain rfl : k = .expression := hk
  obtain rfl : cs = [inner] := hc
  rw [unwrapped]

theorem unwrapped_of_kind {n : Node} (hk : n.kind ≠ .expression) : n.unwrapped = n := by
  fun_cases unwrapped n with
  | case1 | case2 | case3 => exact absurd rfl hk
  | case4 => rfl

theorem unwrapped_of_arity {n : Node} (hc : n.children.length ≠ 1) : n.unwrapped = n := by
  fun_cases unwrapped n with
  | case1 | case3 | case4 => rfl
  | case2 => exact absurd rfl hc

end Syntax.Node

section readers

variable {r : String → String}

theorem arguments_alike {R : Node → Node → Prop} {n n' : Node}
    (h : Option.Rel (fun a a' => List.Forall₂ R a.children a'.children)
      (n.child? .argumentExpressionList) (n'.child? .argumentExpressionList)) :
    List.Forall₂ R n.arguments n'.arguments := by
  unfold Node.arguments
  generalize n.child? .argumentExpressionList = list, n'.child? .argumentExpressionList = list'
    at h ⊢
  cases h with
  | none => exact .nil
  | some h => exact h

theorem withoutVoid_alike {ps ps' : List Param} (h : List.Forall₂ (ParamsAlike r) ps ps') :
    List.Forall₂ (ParamsAlike r) (withoutVoid ps) (withoutVoid ps') := by
  cases h with
  | nil => exact .nil
  | @cons p p' ps ps' head tail =>
    cases tail with
    | cons second rest =>
      have hmany : ∀ (p q : Param) (ps : List Param),
          withoutVoid (p :: q :: ps) = p :: q :: ps := by simp [withoutVoid]
      rw [hmany, hmany]
      exact .cons head (.cons second rest)
    | nil =>
      obtain ⟨name, ty⟩ := p
      obtain ⟨name', ty'⟩ := p'
      obtain ⟨hname, rfl⟩ := head
      cases hname with
      | some hname => exact .cons ⟨.some hname, rfl⟩ .nil
      | none =>
        cases ty' with
        | void => exact .nil
        | _ => exact .cons ⟨.none, rfl⟩ .nil

/-- Both lists have a parameter of type `void`, or neither has. -/
theorem findVoid_alike {ps ps' : List Param} (h : List.Forall₂ (ParamsAlike r) ps ps') :
    Option.Rel (ParamsAlike r) (ps.find? (·.ty = .void)) (ps'.find? (·.ty = .void)) := by
  induction h with
  | nil => exact .none
  | @cons p p' _ _ head _ ih =>
    rw [List.find?_cons, List.find?_cons, head.ty]
    cases decide (p.ty = .void) with
    | true => exact .some head
    | false => exact ih

theorem declaring_mirrors {n n' name name' : Node} (hname : NamesAlike r name name')
    {ps ps' : List Param} (h : List.Forall₂ (ParamsAlike r) ps ps') :
    ReadsMirrored r (DeclaratorsAlike r) (n.declaring name ps) (n'.declaring name' ps') := by
  have hps := withoutVoid_alike h
  have hvoid := findVoid_alike hps
  unfold Node.declaring
  generalize (withoutVoid ps).find? (·.ty = .void) = p,
    (withoutVoid ps').find? (·.ty = .void) = p' at hvoid ⊢
  cases hvoid with
  | none => exact .ok ⟨hname, hps⟩
  | some _ => exact .error ..

end readers

namespace Syntax.Node

/-! ## Trees that are alike -/

/-- The second tree is the first one with other spans and with other texts in its identifiers. -/
inductive Like (r : String → String) : Node → Node → Prop
  | mk {k : Kind} {v v' : Option String} {s s' : Option Span} {cs cs' : List Node}
    (name : k = .identifier → v'.getD "" = r (v.getD ""))
    (text : k ≠ .identifier → v'.getD "" = v.getD "")
    (children : List.Forall₂ (Like r) cs cs') : Like r (.mk k v s cs) (.mk k v' s' cs')

namespace Like

variable {r : String → String} {n n' : Node}

theorem kind (h : n.Like r n') : n'.kind = n.kind := by
  cases h
  rfl

theorem name (h : n.Like r n') (hk : n.kind = .identifier) : NamesAlike r n n' := by
  cases h with
  | mk name _ _ => exact name hk

theorem text (h : n.Like r n') (hk : n.kind ≠ .identifier) : n'.text = n.text := by
  cases h with
  | mk _ text _ => exact text hk

theorem children (h : n.Like r n') : List.Forall₂ (Like r) n.children n'.children := by
  cases h with
  | mk _ _ children => exact children

theorem nth? (h : n.Like r n') (i : Nat) : Option.Rel (Like r) (n.nth? i) (n'.nth? i) :=
  forall₂_getElem? h.children i

theorem child? (h : n.Like r n') (k : Kind) : Option.Rel (Like r) (n.child? k) (n'.child? k) :=
  forall₂_find? h.children (fun _ _ hc => hc.kind) k

theorem identifier? (h : n.Like r n') :
    Option.Rel (NamesAlike r) n.identifier? n'.identifier? := by
  induction hh : n.height using Nat.strong_induction_on generalizing n n' with
  | _ height ih =>
    have hchild := h.child? .identifier
    have hfirst := h.nth? 0
    rw [identifier?_eq n, identifier?_eq n', h.kind]
    by_cases hk : n.kind = .identifier
    · rw [if_pos hk, if_pos hk]
      exact .some (h.name hk)
    rw [if_neg hk, if_neg hk]
    generalize hc : n.child? .identifier = child, n'.child? .identifier = child' at hchild ⊢
    generalize hf : n.nth? 0 = first, n'.nth? 0 = first' at hfirst ⊢
    cases hchild with
    | some h => exact .some (h.name (kind_of_child? hc))
    | none =>
      cases hfirst with
      | none => exact .none
      | some h => exact ih _ (hh ▸ height_nth? hf) h rfl

theorem unwrapped (h : n.Like r n') : n.unwrapped.Like r n'.unwrapped := by
  induction hh : n.height using Nat.strong_induction_on generalizing n n' with
  | _ height ih =>
    by_cases hk : n.kind = .expression
    swap
    · rw [unwrapped_of_kind hk, unwrapped_of_kind (h.kind ▸ hk)]
      exact h
    by_cases hlen : n.children.length = 1
    swap
    · rw [unwrapped_of_arity hlen, unwrapped_of_arity (h.children.length_eq ▸ hlen)]
      exact h
    obtain ⟨inner, hc⟩ := List.length_eq_one_iff.1 hlen
    have hchildren := h.children
    rw [hc] at hchildren
    generalize hc' : n'.children = cs' at hchildren
    cases hchildren with
    | cons hinner hnil =>
      cases hnil
      rw [unwrapped_wrapper hk hc, unwrapped_wrapper (h.kind.trans hk) hc']
      exact ih _ (hh ▸ height_lt_of_mem (hc ▸ List.mem_singleton_self inner)) hinner rfl

theorem specifierText
    (h : Option.Rel (Like r) (n.child? .typeSpecifier) (n'.child? .typeSpecifier)) :
    Option.Rel (fun s s' => s'.text = s.text) (n.child? .typeSpecifier)
      (n'.child? .typeSpecifier) :=
  rel_restrict h fun _ _ hc _ hs => hs.text (by rw [kind_of_child? hc]; decide)

section specifiers

variable (hk : n'.kind = n.kind) (htext : n.kind ≠ .identifier → n'.text = n.text)
  (own : Option.Rel (Like r) (n.child? .typeSpecifier) (n'.child? .typeSpecifier))
  (held : Option.Rel (Like r) (n.child? .declarationSpecifiers) (n'.child? .declarationSpecifiers))

include hk htext own held

/-- The specifier of a type is the node itself, or is held by it, or by its specifiers. -/
theorem typeSpecifier? :
    Option.Rel (fun s s' => s'.text = s.text) n.typeSpecifier? n'.typeSpecifier? := by
  unfold Node.typeSpecifier?
  rw [hk]
  by_cases hself : n.kind = .typeSpecifier
  · rw [if_pos hself, if_pos hself]
    exact .some (htext (by rw [hself]; decide))
  rw [if_neg hself, if_neg hself]
  have hown := specifierText own
  generalize n.child? .typeSpecifier = s, n'.child? .typeSpecifier = s' at hown ⊢
  generalize n.child? .declarationSpecifiers = d, n'.child? .declarationSpecifiers = d' at held ⊢
  cases hown with
  | some htext => exact .some htext
  | none =>
    cases held with
    | none => exact .none
    | some held => exact specifierText (held.child? _)

theorem specifiedType_mirrors : ReadsMirrored r Eq n.specifiedType n'.specifiedType := by
  have hspecifier := typeSpecifier? hk htext own held
  unfold Node.specifiedType
  generalize n.typeSpecifier? = s, n'.typeSpecifier? = s' at hspecifier ⊢
  cases hspecifier with
  | none =>
    rw [hk]
    exact .error ..
  | some htext =>
    dsimp only
    rw [htext]
    unfold Syntax.primitiveType
    split
    case h_5 => exact .error ..
    all_goals exact .ok rfl

end specifiers

theorem specifiedType (h : n.Like r n') : ReadsMirrored r Eq n.specifiedType n'.specifiedType :=
  specifiedType_mirrors h.kind h.text (h.child? _) (h.child? _)

theorem literal? (h : n.Like r n') : n'.literal? = n.literal? := by
  unfold Node.literal?
  rw [h.kind]
  cases hk : n.kind <;> simp only <;> rw [h.text (by simp [hk])]

theorem paramsOf {ns ns' : List Node} (h : List.Forall₂ (Like r) ns ns') :
    ReadsMirrored r (List.Forall₂ (ParamsAlike r)) (paramsOf ns) (paramsOf ns') := by
  induction h with
  | nil => exact .ok .nil
  | cons head _ ih =>
    have hname := rel_restrict (Q := NamesAlike r) (head.child? .identifier) fun c _ hc _ hcc =>
      hcc.name (kind_of_child? hc)
    refine head.specifiedType.bind ?_
    rintro ty _ rfl
    exact ih.bind fun ps ps' hps => .ok (.cons ⟨hname, rfl⟩ hps)

theorem declaredParams (h : n.Like r n') :
    ReadsMirrored r (List.Forall₂ (ParamsAlike r)) n.declaredParams n'.declaredParams := by
  have hlist := h.child? .parameterList
  unfold Node.declaredParams
  generalize n.child? .parameterList = list, n'.child? .parameterList = list' at hlist ⊢
  cases hlist with
  | none => exact .ok .nil
  | some hlist => exact paramsOf hlist.children

/-- The identifier that the first child names. -/
theorem firstIdentifier? (h : n.Like r n') :
    Option.Rel (NamesAlike r) ((n.nth? 0).bind Node.identifier?)
      ((n'.nth? 0).bind Node.identifier?) := by
  have hfirst := h.nth? 0
  generalize n.nth? 0 = first, n'.nth? 0 = first' at hfirst ⊢
  cases hfirst with
  | none => exact .none
  | some hfirst => exact hfirst.identifier?

theorem functionDeclarator (h : n.Like r n') :
    ReadsMirrored r (DeclaratorsAlike r) n.functionDeclarator n'.functionDeclarator := by
  have hname := h.firstIdentifier?
  rw [functionDeclarator_eq, functionDeclarator_eq]
  generalize (n.nth? 0).bind Node.identifier? = name, (n'.nth? 0).bind Node.identifier? = name'
    at hname ⊢
  cases hname with
  | none => exact .error ..
  | some hname => exact h.declaredParams.bind fun ps ps' hps => declaring_mirrors hname hps

theorem initializer? (h : n.Like r n') :
    Option.Rel (Like r) n.initializer? n'.initializer? := by
  unfold Node.initializer?
  rw [h.kind]
  by_cases hk : n.kind = .initDeclarator
  · rw [if_pos hk, if_pos hk]
    exact h.nth? 1
  · rw [if_neg hk, if_neg hk]
    exact .none

theorem declarators (h : n.Like r n') : List.Forall₂ (Like r) n.declarators n'.declarators := by
  have hlist := h.child? .initDeclaratorList
  unfold Node.declarators
  generalize n.child? .initDeclaratorList = list, n'.child? .initDeclaratorList = list' at hlist ⊢
  cases hlist with
  | some hlist => exact hlist.children
  | none => exact forall₂_filter h.children fun c c' hc => by rw [hc.kind]

theorem arguments (h : n.Like r n') : List.Forall₂ (Like r) n.arguments n'.arguments :=
  arguments_alike (rel_restrict (h.child? _) fun _ _ _ _ hlist => hlist.children)

/-! ## Lowering trees that are alike -/

theorem items (h : n.Like r n') : ItemsAlike r (Like r) n n' where
  kind := by rw [h.kind]
  function _ := h.functionDeclarator
  name := h.identifier?
  init := rel_restrict h.initializer? fun _ _ _ _ hi => ⟨hi, hi.unwrapped.literal?⟩

/-- Trees that are alike read alike. -/
theorem reads (h : n.Like r n') : ReadsAlike r (Like r) n n' := by
  have hk' := h.kind
  cases hk : n.kind <;> rw [hk] at hk'
  case functionDefinition =>
    refine .definition hk hk' ?_ ?_ (h.child? _)
    · exact rel_restrict (h.nth? 0) fun _ _ _ _ hc => hc.specifiedType
    · exact rel_restrict (h.child? _) fun _ _ _ _ hc => hc.functionDeclarator
  case declaration =>
    refine .declaration hk hk' h.specifiedType ?_
    exact forall₂_restrict h.declarators fun _ _ _ _ hd => hd.items
  case ifElseStatement => exact .conditional hk hk' (h.nth? 0) (h.nth? 1) (h.nth? 2)
  case returnExpr => exact .ret hk hk' (h.nth? 0)
  case assignmentExpression =>
    refine .assignment hk hk' ?_ (h.nth? 1)
    exact rel_restrict (h.nth? 0) fun _ _ _ _ ht => ⟨ht.unwrapped.kind, ht.unwrapped.name⟩
  case functionCall => exact .call hk hk' h.firstIdentifier? h.arguments
  case expression => exact .expression hk hk' h.children
  case identifier => exact .identifier hk hk' (h.name hk)
  case int | float | char =>
    obtain ⟨v, hv⟩ : ∃ v, n.literal? = some v := by simp [Node.literal?, hk]
    exact .literal hv (h.literal?.trans hv)
  case translationUnit | statementList | compoundStatement | declarationList =>
    exact .sequence (by rw [hk]; rfl) (by rw [hk']; rfl) h.children
  all_goals exact .misplaced h.kind (by rw [hk]; rfl)

end Like

mutual

theorem like_refl : ∀ n : Node, n.Like id n
  | mk _ _ _ cs => .mk (fun _ => rfl) (fun _ => rfl) (like_reflAll cs)

theorem like_reflAll : ∀ ns : List Node, List.Forall₂ (Like id) ns ns
  | [] => .nil
  | n :: ns => .cons (like_refl n) (like_reflAll ns)

end

mutual

/-- Trees of the same shape are alike under the same names. -/
theorem like_of_sameShape : ∀ n n' : Node, n.sameShape n' = true → n.Like id n'
  | mk k v s cs, mk k' v' s' cs', h => by
    simp only [sameShape, Bool.and_eq_true, beq_iff_eq] at h
    obtain ⟨⟨rfl, rfl⟩, hcs⟩ := h
    exact .mk (fun _ => rfl) (fun _ => rfl) (like_of_sameShapeAll cs cs' hcs)

theorem like_of_sameShapeAll : ∀ ns ns' : List Node, sameShapeAll ns ns' = true →
    List.Forall₂ (Like id) ns ns'
  | [], [], _ => .nil
  | n :: ns, n' :: ns', h => by
    simp only [sameShapeAll, Bool.and_eq_true] at h
    exact .cons (like_of_sameShape n n' h.1) (like_of_sameShapeAll ns ns' h.2)
  | [], _ :: _, h => by cases h
  | _ :: _, [], h => by cases h

end

mutual

/-- A tree with other texts in its identifiers. An identifier without a text has the empty one. -/
def rename (r : String → String) : Node → Node
  | mk k v s cs => mk k (if k = .identifier then some (r (v.getD "")) else v) s (renameAll r cs)

def renameAll (r : String → String) : List Node → List Node
  | [] => []
  | n :: ns => n.rename r :: renameAll r ns

end

mutual

theorem like_rename (r : String → String) : ∀ n : Node, n.Like r (n.rename r)
  | mk k v s cs => by
    rw [rename]
    refine .mk (fun hk => ?_) (fun hk => ?_) (like_renameAll r cs)
    · rw [if_pos hk, Option.getD_some]
    · rw [if_neg hk]

theorem like_renameAll (r : String → String) :
    ∀ ns : List Node, List.Forall₂ (Like r) ns (renameAll r ns)
  | [] => .nil
  | n :: ns => .cons (like_rename r n) (like_renameAll r ns)

end

end Syntax.Node

/-! ## Generation -/

namespace Lowering

/-- The same module, or errors that only point to different places: they have the same cause, hence
the same code and message, and leave the same part of a module. -/
inductive SameOutcome : Except Failure Module → Except Failure Module → Prop
  | ok (m : Module) : SameOutcome (.ok m) (.ok m)
  | error (span span' : Option Syntax.Span) (cause : Cause) (m : Module) :
    SameOutcome (.error ⟨.error ⟨span, cause⟩, m⟩) (.error ⟨.error ⟨span', cause⟩, m⟩)

theorem SameOutcome.exists_ok {o o' : Except Failure Module} (h : SameOutcome o o')
    (hok : o.toBool = true) : ∃ m, o = .ok m ∧ o' = .ok m := by
  cases h with
  | ok m => exact ⟨m, rfl, rfl⟩
  | error => cases hok

theorem OutcomesMirrored.same {name : String} {n n' : Node}
    (h : OutcomesMirrored id (generate name n) (generate name n')) :
    SameOutcome (generate name n) (generate name n') := by
  have hstops := @Checking.generate_stops name n
  generalize generate name n = outcome, generate name n' = outcome' at h hstops ⊢
  cases h with
  | ok m =>
    rw [m.rename_id]
    exact .ok m
  | error m fault =>
    rw [m.rename_id]
    cases fault with
    | error span span' cause =>
      rw [cause.rename_id]
      exact .error span span' cause m
    | missing =>
      obtain ⟨err, he⟩ := hstops rfl
      cases he
    | exhausted =>
      obtain ⟨err, he⟩ := hstops rfl
      cases he

/-- Spans do not matter: trees of the same shape have the same module, or fail with errors that are
the same but for the places they point to. -/
theorem generate_ignores_spans {t t' : Node} (h : t.sameShape t' = true) (name : String) :
    SameOutcome (generate name t) (generate name t') := by
  have hlike := Node.like_of_sameShape t t' h
  have houtcome := generate_mirrors Function.injective_id (fun _ _ _ hc => hc.reads) hlike
    hlike.kind name
  exact houtcome.same

/-- A function that returns a variable that there is not, whose name stands at the place given. -/
def lostName (place : Option Syntax.Span) : Node :=
  branchNode .translationUnit [branchNode .functionDefinition [
    branchNode .declarationSpecifiers [leaf .typeSpecifier "int"],
    branchNode .functionDeclarator [leaf .identifier "f"],
    branchNode .compoundStatement [
      branchNode .returnExpr [.mk .identifier (some "lost") place []]]]]

/-- The error points to the name if its place is known, and is the same otherwise. -/
theorem lost_name_ignores_spans :
    (lostName (some ⟨17, 21⟩)).sameShape (lostName none) = true ∧
    ∃ m, generate "lost" (lostName (some ⟨17, 21⟩)) =
        .error ⟨.error ⟨some ⟨17, 21⟩, .undefinedIdentifier "lost"⟩, m⟩ ∧
      generate "lost" (lostName none) = .error ⟨.error ⟨none, .undefinedIdentifier "lost"⟩, m⟩ := by
  have hshape : (lostName (some ⟨17, 21⟩)).sameShape (lostName none) = true := by decide +kernel
  have hfault : (generate "lost" (lostName (some ⟨17, 21⟩))).mapError (·.fault) =
      .error (.error ⟨some ⟨17, 21⟩, .undefinedIdentifier "lost"⟩) := by decide +kernel
  have hfault' : (generate "lost" (lostName none)).mapError (·.fault) =
      .error (.error ⟨none, .undefinedIdentifier "lost"⟩) := by decide +kernel
  have hsame := generate_ignores_spans hshape "lost"
  generalize generate "lost" (lostName (some ⟨17, 21⟩)) = outcome,
    generate "lost" (lostName none) = outcome' at hsame hfault hfault' ⊢
  cases hsame with
  | ok m => cases hfault
  | error span span' cause m =>
    cases hfault
    cases hfault'
    exact ⟨hshape, m, rfl, rfl⟩

/-- Names do not matter as long as different names stay different. A tree whose identifiers were
renamed has a module if and only if the tree has one, and then it is the module of the tree under
the new names; otherwise it fails for the same cause, told with the new names, hence with the same
code. -/
theorem generate_rename {r : String → String} (hr : Function.Injective r) (name : String)
    (t : Node) :
    ((∃ m, generate name t = .ok m) ↔ ∃ m, generate name (t.rename r) = .ok m) ∧
    (∀ m, generate name t = .ok m → generate name (t.rename r) = .ok (m.renamed r)) ∧
    ∀ failure failure', generate name t = .error failure →
      generate name (t.rename r) = .error failure' →
      ∃ e e', failure.fault = .error e ∧ failure'.fault = .error e' ∧
        e'.cause = e.cause.rename r ∧ e'.cause.code = e.cause.code := by
  have hlike := t.like_rename r
  have h := generate_mirrors hr (fun _ _ _ hc => hc.reads) hlike hlike.kind name
  have hnames := fun m => @rename_eq_renamed r name t m
  have hstops := @Checking.generate_stops name t
  generalize generate name t = outcome, generate name (t.rename r) = outcome'
    at h hnames hstops ⊢
  cases h with
  | ok m =>
    refine ⟨⟨fun _ => ⟨_, rfl⟩, fun _ => ⟨m, rfl⟩⟩, ?_, ?_⟩
    · rintro _ ⟨⟩
      rw [hnames m rfl]
    · rintro failure _ ⟨⟩
  | @error fault fault' m mirrored =>
    refine ⟨⟨?_, ?_⟩, ?_, ?_⟩
    · rintro ⟨_, ⟨⟩⟩
    · rintro ⟨_, ⟨⟩⟩
    · rintro _ ⟨⟩
    · rintro _ _ ⟨⟩ ⟨⟩
      obtain ⟨err, he⟩ := hstops rfl
      subst he
      cases mirrored with
      | error span span' cause => exact ⟨_, _, rfl, rfl, rfl, cause.code_rename r⟩

/-- A global and a function that sets it to its argument, unless the argument is zero. -/
def setterTree : Node :=
  let int := branchNode .declarationSpecifiers [leaf .typeSpecifier "int"]
  branchNode .translationUnit [
    branchNode .declaration [int, leaf .identifier "level"],
    branchNode .functionDefinition [int,
      branchNode .functionDeclarator [leaf .identifier "set",
        branchNode .parameterList [branchNode .parameterDeclaration [int, leaf .identifier "to"]]],
      branchNode .compoundStatement [
        branchNode .ifElseStatement [leaf .identifier "to",
          branchNode .assignmentExpression [leaf .identifier "level", leaf .identifier "to"]],
        branchNode .returnExpr [leaf .identifier "level"]]]]

/-- A common start of all names changes nothing else. -/
theorem setter_rename : ∃ m, generate "unit" setterTree = .ok m ∧
    generate "unit" (setterTree.rename ("my_" ++ ·)) = .ok (m.renamed ("my_" ++ ·)) ∧
    (m.renamed ("my_" ++ ·)).functions.map (fun f => (f.name, f.blocks.map (·.name))) =
      [("my_set", ["my_set_block", "then", "merge"])] := by
  have hinj : Function.Injective ("my_" ++ ·) := fun a b h => by simpa using h
  have hlabels : (generate "unit" setterTree).map (fun m =>
      (m.renamed ("my_" ++ ·)).functions.map (fun f => (f.name, f.blocks.map (·.name)))) =
      .ok [("my_set", ["my_set_block", "then", "merge"])] := by decide +kernel
  obtain ⟨-, hrenamed, -⟩ := generate_rename hinj "unit" setterTree
  cases hm : generate "unit" setterTree with
  | error failure =>
    rw [hm] at hlabels
    cases hlabels
  | ok m =>
    rw [hm] at hlabels
    exact ⟨m, rfl, hrenamed m hm, Except.ok.inj hlabels⟩

end Lowering

end SlotIR
