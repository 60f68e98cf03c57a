import SlotIR.Proofs.Equivariance

/-!
# Expressions inside of wrappers

An `expression` node with a single child stands for its child wherever a node is lowered. Lowering
gets through wrappers in four ways: it lowers the child, takes the target of an assignment or the
initializer of a global out of all wrappers, or looks for the identifier of a callee below them.
`Wrapping` says where wrappers may be put, any number of them at any depth, and all four ways lead
to the same (`Wrapping.reads`). So a tree with more wrappers has the same module, or fails for the
same cause (`generate_wrapping`).
-/

namespace SlotIR

open Syntax (Node Kind Span)

namespace Syntax.Node

/-! ## Trees with wrappers -/

/-- Whether a node starts as it should: a definition with specifiers of a type, and a call or a
declarator with an initializer with an identifier. -/
def startsWell (n : Node) : Bool :=
  (n.nth? 0).all fun c =>
    match n.kind with
    | .functionDefinition => c.kind == .declarationSpecifiers || c.kind == .typeSpecifier
    | .functionCall | .initDeclarator => c.kind == .identifier
    | _ => true

mutual

/-- Whether all nodes of a tree start as they should. -/
def documented : Node → Bool
  | mk k v s cs => (mk k v s cs).startsWell && documentedAll cs

def documentedAll : List Node → Bool
  | [] => true
  | n :: ns => n.documented && documentedAll ns

end

theorem documented_of_mem {c : Node} : ∀ {ns : List Node}, documentedAll ns = true → c ∈ ns →
    c.documented = true := by
  intro ns h hc
  induction ns with
  | nil => cases hc
  | cons n ns ih =>
    rw [documentedAll, Bool.and_eq_true] at h
    rcases List.mem_cons.1 hc with rfl | hc
    · exact h.1
    · exact ih h.2 hc

theorem documented_iff (n : Node) :
    n.documented = true ↔ n.startsWell = true ∧ documentedAll n.children = true := by
  obtain ⟨k, v, s, cs⟩ := n
  rw [documented, Bool.and_eq_true]
  rfl

theorem Has.startsWell {t n : Node} (hn : t.Has n) (ht : t.documented = true) :
    n.startsWell = true := by
  have hdocumented : n.documented = true := by
    induction hn with
    | root => exact ht
    | child _ mem ih => exact documented_of_mem ((documented_iff _).1 ih).2 mem
  exact ((documented_iff n).1 hdocumented).1

theorem first_of_startsWell {n c : Node} (h : n.startsWell = true) (hc : n.nth? 0 = some c) :
    (n.kind = .functionDefinition → c.kind = .declarationSpecifiers ∨ c.kind = .typeSpecifier) ∧
    (n.kind = .functionCall ∨ n.kind = .initDeclarator → c.kind = .identifier) := by
  rw [startsWell, hc, Option.all_some] at h
  refine ⟨fun hk => ?_, fun hk => ?_⟩
  · simpa [hk] using h
  · rcases hk with hk | hk <;> simpa [hk] using h

mutual

/-- The second node is the first one with wrappers put around itself and around nodes below it:
around children of sequences, conditions and arms, operands of returns, targets and values of
assignments, callees and arguments of calls, and initializers. -/
inductive Wrapping : Node → Node → Prop
  | same {n n' : Node} (like : n.Like id n') : Wrapping n n'
  | around {n n' : Node} {v : Option String} {s : Option Span} (inner : Wrapping n n') :
    Wrapping n (.mk .expression v s [n'])
  | inside {k : Kind} {v : Option String} {s s' : Option Span} {cs cs' : List Node}
    (kind : k.isSequence = true ∨
      k ∈ [.expression, .ifElseStatement, .returnExpr, .assignmentExpression])
    (all : List.Forall₂ Wrapping cs cs') : Wrapping (.mk k v s cs) (.mk k v s' cs')
  | call {v : Option String} {s s' : Option Span} {callee callee' : Node} {cs cs' : List Node}
    (first : Wrapping callee callee') (parts : List.Forall₂ (WrappingPart .functionCall) cs cs') :
    Wrapping (.mk .functionCall v s (callee :: cs)) (.mk .functionCall v s' (callee' :: cs'))
  | definition {v : Option String} {s s' : Option Span} {cs cs' : List Node}
    (parts : List.Forall₂ (WrappingPart .functionDefinition) cs cs') :
    Wrapping (.mk .functionDefinition v s cs) (.mk .functionDefinition v s' cs')
  | declaration {v : Option String} {s s' : Option Span} {cs cs' : List Node}
    (parts : List.Forall₂ (WrappingPart .declaration) cs cs') :
    Wrapping (.mk .declaration v s cs) (.mk .declaration v s' cs')

/-- Wrappers in a part of a node of the kind given. The part itself is told by its kind, so that
there are none around it. -/
inductive WrappingPart : Kind → Node → Node → Prop
  | same {k : Kind} {n n' : Node} (like : n.Like id n') : WrappingPart k n n'
  | body {v : Option String} {s s' : Option Span} {cs cs' : List Node}
    (all : List.Forall₂ Wrapping cs cs') :
    WrappingPart .functionDefinition (.mk .compoundStatement v s cs)
      (.mk .compoundStatement v s' cs')
  | arguments {v : Option String} {s s' : Option Span} {cs cs' : List Node}
    (all : List.Forall₂ Wrapping cs cs') :
    WrappingPart .functionCall (.mk .argumentExpressionList v s cs)
      (.mk .argumentExpressionList v s' cs')
  | declarators {v : Option String} {s s' : Option Span} {cs cs' : List Node}
    (all : List.Forall₂ (WrappingPart .initDeclaratorList) cs cs') :
    WrappingPart .declaration (.mk .initDeclaratorList v s cs) (.mk .initDeclaratorList v s' cs')
  | init {k : Kind} {v : Option String} {s s' : Option Span} {name name' init init' : Node}
    {cs cs' : List Node} (kind : k = .declaration ∨ k = .initDeclaratorList)
    (first : name.Like id name') (second : Wrapping init init')
    (rest : List.Forall₂ (Like id) cs cs') :
    WrappingPart k (.mk .initDeclarator v s (name :: init :: cs))
      (.mk .initDeclarator v s' (name' :: init' :: cs'))

end

theorem Like.text_id {n n' : Node} (h : n.Like id n') : n'.text = n.text := by
  by_cases hk : n.kind = .identifier
  · exact h.name hk
  · exact h.text hk

theorem WrappingPart.kind {k : Kind} {n n' : Node} (h : WrappingPart k n n') :
    n'.kind = n.kind := by
  cases h with
  | same like => exact like.kind
  | body | arguments | declarators | init => rfl

/-! ## Out of the wrappers -/

theorem identifier?_wrapper (v : Option String) (s : Option Span) (n : Node) :
    (mk .expression v s [n]).identifier? = n.identifier? := by
  have hexpression : (mk .expression v s [n]).kind ≠ .identifier := by simp [kind]
  by_cases hk : n.kind = .identifier
  · rw [identifier?_of_first hexpression rfl hk, identifier?_eq, if_pos hk]
  · have hchild : (mk .expression v s [n]).child? .identifier = none :=
      List.find?_cons_of_neg (by simp [hk])
    rw [identifier?_eq, if_neg hexpression, hchild]
    rfl

namespace Wrapping

variable {n n' : Node}

/-- Without its wrappers a node has the same kind and text, however many there are. -/
theorem unwrapped (h : n.Wrapping n') :
    n'.unwrapped.kind = n.unwrapped.kind ∧ n'.unwrapped.text = n.unwrapped.text := by
  -- `around` leaves the first node as it is, so the induction is on the height of the second.
  induction hh : n'.height using Nat.strong_induction_on generalizing n n' with
  | _ height ih =>
    subst hh
    cases h with
    | same like => exact ⟨like.unwrapped.kind, like.unwrapped.text_id⟩
    | @around _ inner' v s inner =>
      have hout : (mk .expression v s [inner']).unwrapped = inner'.unwrapped :=
        unwrapped_wrapper rfl rfl
      rw [hout]
      exact ih _ (height_lt_of_mem (List.mem_singleton_self inner')) inner rfl
    | @inside k v s s' cs cs' kind all =>
      by_cases hone : k = .expression ∧ cs.length = 1
      · obtain ⟨rfl, hlen⟩ := hone
        obtain ⟨c, rfl⟩ := List.length_eq_one_iff.1 hlen
        cases all with
        | @cons _ c' _ _ head tail =>
          cases tail
          have hout : (mk .expression v s [c]).unwrapped = c.unwrapped := unwrapped_wrapper rfl rfl
          have hout' : (mk .expression v s' [c']).unwrapped = c'.unwrapped :=
            unwrapped_wrapper rfl rfl
          rw [hout, hout']
          exact ih _ (height_lt_of_mem (List.mem_singleton_self c')) head rfl
      · have hout : ∀ {s : Option Span} {ds : List Node}, ds.length = cs.length →
            (mk k v s ds).unwrapped = mk k v s ds := by
          intro s ds hds
          rcases not_and_or.1 hone with hk | hlen
          · exact unwrapped_of_kind hk
          · exact unwrapped_of_arity (hds ▸ hlen)
        rw [hout rfl, hout all.length_eq.symm]
        exact ⟨rfl, rfl⟩
    | call | definition | declaration => exact ⟨rfl, rfl⟩

/-- The identifier of a callee is found below its wrappers, none of which is a list of arguments. -/
theorem identifier? (h : n.Wrapping n') (hk : n.kind = .identifier) :
    Option.Rel (NamesAlike id) n.identifier? n'.identifier? ∧
      n'.kind ≠ .argumentExpressionList := by
  induction hh : n'.height using Nat.strong_induction_on generalizing n' with
  | _ height ih =>
    subst hh
    cases h with
    | same like => exact ⟨like.identifier?, by rw [like.kind, hk]; decide⟩
    | @around _ inner' v s inner =>
      have hlt : inner'.height < (mk .expression v s [inner']).height :=
        height_lt_of_mem (List.mem_singleton_self inner')
      rw [identifier?_wrapper]
      exact ⟨(ih _ hlt inner rfl).1, by simp [Node.kind]⟩
    | inside kind =>
      obtain rfl := hk
      simp [Kind.isSequence] at kind
    | call | definition | declaration => cases hk

theorem target (h : n.Wrapping n') : TargetsAlike id n n' :=
  ⟨h.unwrapped.1, fun _ => h.unwrapped.2⟩

theorem init (h : n.Wrapping n') : InitsAlike Wrapping n n' := by
  refine ⟨h, ?_⟩
  unfold Node.literal?
  rw [h.unwrapped.1, h.unwrapped.2]

end Wrapping

/-! ## Parts with wrappers -/

namespace WrappingPart

variable {k : Kind} {n n' : Node}

/-- Specifiers and function declarators have no wrappers in them. -/
theorem like (h : WrappingPart k n n') (hk : n.kind ∈ [.declarationSpecifiers, .typeSpecifier,
    .functionDeclarator]) : n.Like id n' := by
  cases h with
  | same like => exact like
  | body | arguments | declarators | init => simp [Node.kind] at hk

/-- The body of a definition. -/
theorem body_wrapping (h : WrappingPart .functionDefinition n n')
    (hk : n.kind = .compoundStatement) : n.Wrapping n' := by
  cases h with
  | same like => exact .same like
  | body all => exact .inside (.inl rfl) all
  | init kind => simp at kind

theorem arguments_wrapping (h : WrappingPart .functionCall n n')
    (hk : n.kind = .argumentExpressionList) : List.Forall₂ Wrapping n.children n'.children := by
  cases h with
  | same like => exact like.children.imp fun _ _ => .same
  | arguments all => exact all
  | init kind => simp at kind

/-- A list of declarators. -/
theorem declarators_wrapping (h : WrappingPart .declaration n n')
    (hk : n.kind = .initDeclaratorList) :
    List.Forall₂ (WrappingPart .initDeclaratorList) n.children n'.children := by
  cases h with
  | same like => exact like.children.imp fun _ _ => .same
  | declarators all => exact all
  | init => cases hk

/-- A declarator may stand in a declaration as in a list. -/
theorem listed (h : WrappingPart .declaration n n') (hk : n.kind ≠ .initDeclaratorList) :
    WrappingPart .initDeclaratorList n n' := by
  cases h with
  | same like => exact .same like
  | declarators => exact absurd rfl hk
  | init _ first second rest => exact .init (.inr rfl) first second rest

theorem item (h : WrappingPart .initDeclaratorList n n')
    (hinit : n.kind = .initDeclarator → ∀ c, n.nth? 0 = some c → c.kind = .identifier) :
    ItemsAlike id Wrapping n n' := by
  cases h with
  | same like => exact like.items.restrict fun _ _ _ _ hc => .same hc
  | @init _ v s s' name name' init init' cs cs' _ first second rest =>
    have hname : name.kind = .identifier := hinit rfl name rfl
    have hname' : name'.kind = .identifier := first.kind.trans hname
    refine ⟨by simp [Node.kind], fun hk => ?_, ?_, .some second.init⟩
    · cases hk
    · have hfound : (mk .initDeclarator v s (name :: init :: cs)).identifier? = some name :=
        identifier?_of_first (by simp [Node.kind]) rfl hname
      have hfound' : (mk .initDeclarator v s' (name' :: init' :: cs')).identifier? = some name' :=
        identifier?_of_first (by simp [Node.kind]) rfl hname'
      rw [hfound, hfound']
      exact .some (first.name hname)

end WrappingPart

namespace Wrapping

variable {t n n' : Node} {v : Option String} {s s' : Option Span} {cs cs' : List Node}

theorem reads_call {callee callee' : Node} (hk : callee.kind = .identifier)
    (first : callee.Wrapping callee')
    (parts : List.Forall₂ (WrappingPart .functionCall) cs cs') :
    ReadsAlike id Wrapping (mk .functionCall v s (callee :: cs))
      (mk .functionCall v s' (callee' :: cs')) := by
  obtain ⟨hname, hkind⟩ := first.identifier? hk
  have hlist : Option.Rel (WrappingPart .functionCall)
      ((mk .functionCall v s (callee :: cs)).child? .argumentExpressionList)
      ((mk .functionCall v s' (callee' :: cs')).child? .argumentExpressionList) := by
    show Option.Rel _ ((callee :: cs).find? _) ((callee' :: cs').find? _)
    rw [List.find?_cons_of_neg (by simp [hk]), List.find?_cons_of_neg (by simp [hkind])]
    exact forall₂_find? parts (fun _ _ h => h.kind) _
  refine .call rfl rfl hname (arguments_alike (rel_restrict hlist fun c c' hc _ h => ?_))
  exact h.arguments_wrapping (kind_of_child? hc)

theorem reads_definition (parts : List.Forall₂ (WrappingPart .functionDefinition) cs cs')
    (hfirst : ∀ c, (mk .functionDefinition v s cs).nth? 0 = some c →
      c.kind = .declarationSpecifiers ∨ c.kind = .typeSpecifier) :
    ReadsAlike id Wrapping (mk .functionDefinition v s cs) (mk .functionDefinition v s' cs') := by
  have hchild : ∀ k, Option.Rel (WrappingPart .functionDefinition)
      ((mk .functionDefinition v s cs).child? k) ((mk .functionDefinition v s' cs').child? k) :=
    forall₂_find? parts fun _ _ h => h.kind
  refine .definition rfl rfl (rel_restrict (forall₂_getElem? parts 0) fun c c' hc _ h => ?_)
    (rel_restrict (hchild _) fun c c' hc _ h => ?_) (rel_restrict (hchild _) fun c c' hc _ h => ?_)
  · refine (h.like ?_).specifiedType
    rcases hfirst c hc with hk | hk <;> simp [hk]
  · exact (h.like (by simp [kind_of_child? hc])).functionDeclarator
  · exact h.body_wrapping (kind_of_child? hc)

theorem reads_declaration (parts : List.Forall₂ (WrappingPart .declaration) cs cs')
    (hinit : ∀ d ∈ (mk .declaration v s cs).declarators, d.kind = .initDeclarator →
      ∀ c, d.nth? 0 = some c → c.kind = .identifier) :
    ReadsAlike id Wrapping (mk .declaration v s cs) (mk .declaration v s' cs') := by
  have hchild : ∀ k, Option.Rel (WrappingPart .declaration)
      ((mk .declaration v s cs).child? k) ((mk .declaration v s' cs').child? k) :=
    forall₂_find? parts fun _ _ h => h.kind
  have hlike : ∀ k ∈ [Kind.declarationSpecifiers, .typeSpecifier, .functionDeclarator],
      Option.Rel (Like id) ((mk .declaration v s cs).child? k)
        ((mk .declaration v s' cs').child? k) := fun k hk =>
    rel_restrict (hchild k) fun c c' hc _ h => h.like (kind_of_child? hc ▸ hk)
  have hlisted : List.Forall₂ (WrappingPart .initDeclaratorList)
      (mk .declaration v s cs).declarators (mk .declaration v s' cs').declarators := by
    have hlist := rel_restrict (hchild .initDeclaratorList) fun c c' hc _ h =>
      h.declarators_wrapping (kind_of_child? hc)
    unfold Node.declarators
    generalize (mk .declaration v s cs).child? .initDeclaratorList = list,
      (mk .declaration v s' cs').child? .initDeclaratorList = list' at hlist ⊢
    cases hlist with
    | some hlist => exact hlist
    | none =>
      refine forall₂_restrict (forall₂_filter parts fun c c' h => ?_) fun c c' hc _ h => ?_
      · rw [h.kind]
      · refine h.listed fun hk => ?_
        simp [hk] at hc
  refine .declaration rfl rfl (Like.specifiedType_mirrors rfl (fun _ => rfl) (hlike _ (by simp))
    (hlike _ (by simp))) ?_
  exact forall₂_restrict hlisted fun d d' hd _ h => h.item (hinit d hd)

/-- All ways through wrappers lead to the same. -/
theorem reads (ht : t.documented = true) (hn : t.Has n) (h : n.Wrapping n') :
    ReadsAlike id Wrapping n n' := by
  have hfirst := fun {m c : Node} (hm : t.Has m) => @first_of_startsWell m c (hm.startsWell ht)
  cases h with
  | same like => exact like.reads.restrict hn fun _ _ _ _ hc => .same hc
  | around inner => exact .wrapper rfl rfl inner
  | @inside k v s s' cs cs' kind all =>
    have hnth : ∀ i, Option.Rel Wrapping ((mk k v s cs).nth? i) ((mk k v s' cs').nth? i) :=
      forall₂_getElem? all
    rcases kind with hseq | hk
    · exact .sequence hseq hseq all
    · simp only [List.mem_cons, List.not_mem_nil, or_false] at hk
      rcases hk with rfl | rfl | rfl | rfl
      · exact .expression rfl rfl all
      · exact .conditional rfl rfl (hnth 0) (hnth 1) (hnth 2)
      · exact .ret rfl rfl (hnth 0)
      · refine .assignment rfl rfl ?_ (hnth 1)
        exact rel_restrict (hnth 0) fun _ _ _ _ hc => hc.target
  | @call v s s' callee callee' cs cs' first parts =>
    exact reads_call ((hfirst hn rfl).2 (.inl rfl)) first parts
  | definition parts => exact reads_definition parts fun c hc => (hfirst hn hc).1 rfl
  | declaration parts =>
    refine reads_declaration parts fun d hd hk c hc => ?_
    exact (hfirst (hn.declarators hd) hc).2 (.inr hk)

end Wrapping

end Syntax.Node

namespace Lowering

/-- Wrappers do not matter: a tree of the usual shape and a tree with more wrappers in it have the
same module, or fail with errors that are the same but for the places they point to. -/
theorem generate_wrapping {t t' : Node} (ht : t.documented = true) (h : t.Wrapping t')
    (hroot : t'.kind = t.kind) (name : String) :
    SameOutcome (generate name t) (generate name t') :=
  (generate_mirrors Function.injective_id (fun _ _ hn hc => hc.reads ht hn) h hroot name).same

/-- A global and a function that calls itself, with `wrap` around everything that is lowered. -/
def wrappedTree (wrap : Node → Node) : Node :=
  let int := branchNode .declarationSpecifiers [leaf .typeSpecifier "int"]
  let name (text : String) := leaf .identifier text
  let nodes (ns : List Node) := ns.map wrap
  branchNode .translationUnit (nodes [
    branchNode .declaration [int,
      branchNode .initDeclarator [name "g", wrap (leaf .int "7")]],
    branchNode .functionDefinition [int,
      branchNode .functionDeclarator [name "f",
        branchNode .parameterList [branchNode .parameterDeclaration [int, name "a"]]],
      branchNode .compoundStatement (nodes [
        branchNode .declaration [int, branchNode .initDeclaratorList [
          branchNode .initDeclarator [name "x", wrap (name "a")]]],
        branchNode .ifElseStatement (nodes [name "x",
          branchNode .assignmentExpression (nodes [name "g", name "x"]),
          branchNode .returnExpr (nodes [name "g"])]),
        branchNode .returnExpr (nodes [branchNode .functionCall [wrap (name "f"),
          branchNode .argumentExpressionList (nodes [name "g"])]])])]])

/-- Two wrappers around everything that is lowered. -/
theorem wrapped_everywhere : ∃ m, generate "unit" (wrappedTree id) = .ok m ∧
    generate "unit" (wrappedTree fun n => branchNode .expression [branchNode .expression [n]]) =
      .ok m := by
  have around : ∀ {n n' : Node}, n.Wrapping n' →
      n.Wrapping (branchNode .expression [branchNode .expression [n']]) :=
    fun h => .around (.around h)
  have bare : ∀ n : Node, n.Wrapping (branchNode .expression [branchNode .expression [n]]) :=
    fun n => around (.same n.like_refl)
  have part : ∀ (k : Kind) (n : Node), n.WrappingPart k n := fun k n => .same n.like_refl
  have hwrapping : (wrappedTree id).Wrapping
      (wrappedTree fun n => branchNode .expression [branchNode .expression [n]]) := by
    refine .inside (.inl rfl) (.cons (around (.declaration ?_)) (.cons (around (.definition
      (.cons (part ..) (.cons (part ..) (.cons (.body ?_) .nil))))) .nil))
    · exact .cons (part ..) (.cons (.init (.inl rfl) (Node.like_refl _) (bare _) .nil) .nil)
    refine .cons (around (.declaration (.cons (part ..) (.cons (.declarators ?_) .nil))))
      (.cons (around (.inside (.inr (by simp)) ?_))
        (.cons (around (.inside (.inr (by simp)) ?_)) .nil))
    · exact .cons (.init (.inr rfl) (Node.like_refl _) (bare _) .nil) .nil
    · refine .cons (bare _) (.cons (around (.inside (.inr (by simp)) ?_))
        (.cons (around (.inside (.inr (by simp)) ?_)) .nil))
      · exact .cons (bare _) (.cons (bare _) .nil)
      · exact .cons (bare _) .nil
    · exact .cons (around (.call (bare _) (.cons (.arguments (.cons (bare _) .nil)) .nil))) .nil
  have hok : (generate "unit" (wrappedTree id)).toBool = true := by decide +kernel
  exact (generate_wrapping (by decide +kernel) hwrapping rfl "unit").exists_ok hok

end Lowering

end SlotIR
