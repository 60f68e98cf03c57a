import SlotIR.Proofs.TypeChecking

/-!
# Where errors point

An error that is found in a tree points to one of its nodes: the node that is wrong, or else the
node around it (`PlaceIn`). Instructions know of no node, so an instruction outside of a function
body is refused without a place, and so is a body that verification refuses; in a tree whose nodes
all have spans nothing else is (`generated_error_place`).

The checker finds the same errors as lowering and has no builder that could fail on its own. So what
is followed here is the checker, construct by construct (`checkNode_points`).
-/

namespace SlotIR

open Syntax (Node Span Param FunctionDeclarator paramsOf withoutVoid)
open Lowering (Error Cause namedParams)

/-! ## Places -/

/-- A place in a tree: the span of one of its nodes. It is only missing if a node has no span. -/
structure PlaceIn (t : Node) (place : Option Span) : Prop where
  ofNode : ∀ s, place = some s → ∃ n, t.Has n ∧ n.span = some s
  known : (∀ n, t.Has n → n.span ≠ none) → place ≠ none

section places

variable {t n : Node} {place other : Option Span}

theorem PlaceIn.span (hn : t.Has n) : PlaceIn t n.span :=
  ⟨fun _ hs => ⟨n, hn, hs⟩, fun h => h n hn⟩

theorem PlaceIn.orElse (h : PlaceIn t place) (h' : PlaceIn t other) :
    PlaceIn t (place <|> other) := by
  cases place with
  | none => exact h'
  | some s => exact h

theorem PlaceIn.spanOr (hn : t.Has n) (h : PlaceIn t other) : PlaceIn t (n.spanOr other) :=
  (PlaceIn.span hn).orElse h

/-- An error that points into a tree, or that is about an instruction without a body around it. -/
def LocatedIn (t : Node) (e : Error) : Prop :=
  PlaceIn t e.span ∨ e.span = none ∧ e.cause = .malformed .statementOutside

end places

/-! ## Reading declarations -/

/-- What is read off a tree satisfies `P`, and an error points into the tree. -/
def ReadsIn {α : Type} (t : Node) (x : Except Error α) (P : α → Prop) : Prop :=
  match x with
  | .ok a => P a
  | .error e => PlaceIn t e.span

section reading

variable {α β : Type} {t n : Node} {P : α → Prop} {Q : β → Prop}

theorem ReadsIn.bind {x : Except Error α} {f : α → Except Error β} (hx : ReadsIn t x P)
    (hf : ∀ a, P a → ReadsIn t (f a) Q) : ReadsIn t (x >>= f) Q := by
  cases x with
  | ok a => exact hf a hx
  | error e => exact hx

theorem specifiedType_reads (hn : t.Has n) : ReadsIn t n.specifiedType (fun _ => True) := by
  unfold Node.specifiedType
  cases hs : n.typeSpecifier? with
  | none => exact PlaceIn.span hn
  | some specifier =>
    have hplace := PlaceIn.spanOr (hn.typeSpecifier? hs) (.span hn)
    show ReadsIn t (Syntax.primitiveType specifier.text (specifier.spanOr n.span)) _
    unfold Syntax.primitiveType
    split
    · trivial
    · trivial
    · trivial
    · trivial
    · exact hplace

/-- The name of a parameter, if it has one, is a node of the tree. -/
def NamedIn (t : Node) (p : Param) : Prop := ∀ name, p.name = some name → t.Has name

theorem paramsOf_reads {ns : List Node} (hns : ∀ n ∈ ns, t.Has n) :
    ReadsIn t (paramsOf ns) (fun ps => ∀ p ∈ ps, NamedIn t p) := by
  induction ns with
  | nil => simp [paramsOf, ReadsIn]
  | cons n ns ih =>
    obtain ⟨hn, hns⟩ := List.forall_mem_cons.1 hns
    unfold paramsOf
    refine (specifiedType_reads hn).bind fun ty _ => (ih hns).bind fun ps hps => ?_
    exact List.forall_mem_cons.2 ⟨fun name hname => hn.child? hname, hps⟩

theorem declaredParams_reads (hn : t.Has n) :
    ReadsIn t n.declaredParams (fun ps => ∀ p ∈ ps, NamedIn t p) := by
  unfold Node.declaredParams
  cases hl : n.child? .parameterList with
  | none => exact List.forall_mem_nil _
  | some list => exact paramsOf_reads fun c hc => (hn.child? hl).child hc

theorem functionDeclarator_reads (hn : t.Has n) :
    ReadsIn t n.functionDeclarator (fun d => t.Has d.name ∧ ∀ p ∈ d.params, NamedIn t p) := by
  rw [Node.functionDeclarator_eq]
  cases h : (n.nth? 0).bind Node.identifier? with
  | none => exact PlaceIn.span hn
  | some name =>
    obtain ⟨first, hfirst, hname⟩ := Option.bind_eq_some_iff.1 h
    refine (declaredParams_reads hn).bind fun declared hdeclared => ?_
    have hnamed : ∀ p ∈ withoutVoid declared, NamedIn t p := fun p hp =>
      hdeclared p (Syntax.mem_of_mem_withoutVoid hp)
    unfold Node.declaring
    cases hv : (withoutVoid declared).find? (·.ty = .void) with
    | none => exact ⟨(hn.nth? hfirst).identifier? hname, hnamed⟩
    | some p =>
      show PlaceIn t ((p.name.bind Node.span) <|> n.span)
      cases hpn : p.name with
      | none => exact .span hn
      | some pname =>
        have hp := hnamed p (List.mem_of_find?_eq_some hv) pname hpn
        exact (PlaceIn.span hp).orElse (.span hn)

theorem namedParams_reads {function : String} {ps : List Param} (hn : t.Has n)
    (hps : ∀ p ∈ ps, NamedIn t p) :
    ReadsIn t (namedParams n function ps) (fun params => ∀ p ∈ params, t.Has p.1) := by
  induction ps with
  | nil => simp [namedParams, ReadsIn]
  | cons p ps ih =>
    obtain ⟨hp, hps⟩ := List.forall_mem_cons.1 hps
    unfold namedParams
    cases hname : p.name with
    | none => exact PlaceIn.span hn
    | some name =>
      refine (ih hps).bind fun rest hrest => ?_
      exact List.forall_mem_cons.2 ⟨hp name hname, hrest⟩

theorem globalInit_reads {name : Node} {ty : Ty} {init : Option Node} (hname : t.Has name)
    (hinit : ∀ i, init = some i → t.Has i) :
    ReadsIn t (Checking.globalInit name ty init) (fun _ => True) := by
  unfold Checking.globalInit
  cases init with
  | none =>
    dsimp only
    split
    · trivial
    · exact PlaceIn.span hname
  | some i =>
    dsimp only
    split
    · exact PlaceIn.span hname
    split
    · trivial
    · exact .spanOr (hinit i rfl).unwrapped (.span hname)

end reading

/-! ## Checking -/

namespace Checking

/-- The errors of a check point into the tree, and its values satisfy `P`. -/
def Points {α : Type} (t : Node) (x : CheckM α) (P : α → Prop) : Prop :=
  ∀ s, Ends (x s) (fun a _ => P a) (fun e _ => ∀ err, e = .error err → LocatedIn t err)

section points

variable {α β : Type} {t n : Node} {P : α → Prop} {Q : β → Prop} {x : CheckM α}

theorem Points.bind {f : α → CheckM β} (hx : Points t x P) (hf : ∀ a, P a → Points t (f a) Q) :
    Points t (x >>= f) Q :=
  fun s => Ends.bind (hx s) fun a s' ha => hf a ha s'

/-- What follows does not depend on the value. -/
theorem Points.andThen {y : CheckM β} (hx : Points t x P) (hy : Points t y Q) :
    Points t (x >>= fun _ => y) Q :=
  hx.bind fun _ _ => hy

theorem Points.get {f : Static → CheckM β} (h : ∀ s, Points t (f s) Q) : Points t (get >>= f) Q :=
  fun s => h s s

theorem points_pure {a : α} (ha : P a) : Points t (pure a) P := fun _ => ha

theorem points_set {s : Static} : Points t (set s) (fun _ => True) := fun _ => trivial

theorem points_modify {g : Static → Static} : Points t (modify g) (fun _ => True) :=
  fun _ => trivial

theorem reject_points {span : Option Span} {cause : Cause} (h : PlaceIn t span) :
    Points t (reject span cause) P := by
  rintro s _ ⟨⟩
  exact .inl h

theorem accept_points {y : Except Error α} (h : ReadsIn t y P) : Points t (accept y) P := by
  intro s
  cases y with
  | ok a => exact h
  | error e =>
    rintro _ ⟨⟩
    exact .inl h

/-- An instruction is refused without a place. -/
theorem emit_points : Points t emit (fun _ => True) := by
  refine Points.get fun s => ?_
  cases s.enclosing with
  | some f => exact points_pure trivial
  | none =>
    rintro _ _ ⟨⟩
    exact .inr ⟨rfl, rfl⟩

theorem inScope_points (h : Points t x P) : Points t (inScope x) P :=
  points_modify.andThen (h.bind fun _ ha => points_modify.andThen (points_pure ha))

/-! ### Values and variables -/

theorem variableType_points (hn : t.Has n) : Points t (variableType n) (fun _ => True) := by
  refine Points.get fun s => ?_
  cases s.typeOf? n.text with
  | some ty => exact points_pure trivial
  | none => exact reject_points (.span hn)

theorem checkIdentifier_points (hn : t.Has n) : Points t (checkIdentifier n) (fun _ => True) :=
  (variableType_points hn).bind fun _ _ => emit_points.andThen (points_pure trivial)

section expectations

variable {found ty : Ty} {context : Lowering.TypeContext} {span : Option Span}
  (h : PlaceIn t span)
include h

theorem expectType_points : Points t (expectType found ty context span) (fun _ => True) := by
  unfold expectType
  split
  · exact points_pure trivial
  · exact reject_points h

theorem checkConversion_points :
    Points t (checkConversion found ty context span) (fun _ => True) := by
  unfold checkConversion
  split
  · exact points_pure trivial
  split
  · exact emit_points
  · exact reject_points h

theorem checkCondition_points : Points t (checkCondition ty span) (fun _ => True) := by
  unfold checkCondition
  split
  · exact emit_points
  · exact reject_points h

theorem expectTypes_points {ns : List Node} (hns : ∀ n ∈ ns, t.Has n) :
    ∀ found tys, Points t (expectTypes span found tys ns) (fun _ => True) := by
  induction ns with
  | nil =>
    intro found tys
    cases found <;> cases tys <;> exact points_pure trivial
  | cons n ns ih =>
    obtain ⟨hn, hns⟩ := List.forall_mem_cons.1 hns
    intro found tys
    cases found with
    | nil => exact points_pure trivial
    | cons found rest =>
      cases tys with
      | nil => exact points_pure trivial
      | cons ty tys => exact (expectType_points (.spanOr hn h)).andThen (ih hns rest tys)

end expectations

theorem bindVariable_points {name : Node} {ty : Ty} (hname : t.Has name) :
    Points t (bindVariable name ty) (fun _ => True) := by
  refine Points.get fun s => ?_
  split
  · exact reject_points (.span hname)
  · exact points_set

theorem checkGlobal_points {name : Node} {ty : Ty} {init : Option Node} (hname : t.Has name)
    (hinit : ∀ i, init = some i → t.Has i) :
    Points t (checkGlobal name ty init) (fun _ => True) := by
  refine Points.get fun s => ?_
  split
  · exact reject_points (.span hname)
  · exact (accept_points (globalInit_reads hname hinit)).andThen
      (points_set.andThen (bindVariable_points hname))

/-! ### Functions -/

theorem declare_points {name : Node} {signature : Signature} (hname : t.Has name) :
    Points t (declare name signature) (fun _ => True) := by
  refine Points.get fun s => ?_
  split
  · exact reject_points (.span hname)
  split
  · exact points_set.andThen (points_pure trivial)
  split
  · exact reject_points (.span hname)
  · exact points_pure trivial

theorem checkPrototype_points {ret : Ty} (hn : t.Has n) :
    Points t (checkPrototype ret n) (fun _ => True) :=
  (accept_points (functionDeclarator_reads hn)).bind fun _ hd =>
    (declare_points hd.1).andThen (points_pure trivial)

theorem bindParams_points {ps : List (Node × Ty)} (hps : ∀ p ∈ ps, t.Has p.1) :
    Points t (bindParams ps) (fun _ => True) := by
  induction ps with
  | nil => exact points_pure trivial
  | cons p ps ih =>
    obtain ⟨hp, hps⟩ := List.forall_mem_cons.1 hps
    exact (bindVariable_points hp).andThen (ih hps)

end points

/-! ### Nodes -/

section nodes

variable {t n : Node} {check : Check}
  (hcheck : ∀ c, t.Has c → Points t (check c) fun _ => True)
include hcheck

theorem checkValue_points (hn : t.Has n) : Points t (checkValue check n) (fun _ => True) := by
  refine (hcheck n hn).bind fun o _ => ?_
  cases o with
  | some ty => exact points_pure trivial
  | none => exact reject_points (.span hn)

theorem checkValues_points {ns : List Node} (hns : ∀ n ∈ ns, t.Has n) :
    Points t (checkValues check ns) (fun _ => True) := by
  induction ns with
  | nil => exact points_pure trivial
  | cons n ns ih =>
    obtain ⟨hn, hns⟩ := List.forall_mem_cons.1 hns
    refine (checkValue_points hcheck hn).bind fun ty _ => ?_
    exact (ih hns).bind fun tys _ => points_pure trivial

theorem checkAll_points {ns : List Node} (hns : ∀ n ∈ ns, t.Has n) :
    Points t (checkAll check ns) (fun _ => True) := by
  induction ns with
  | nil => exact points_pure trivial
  | cons n ns ih =>
    obtain ⟨hn, hns⟩ := List.forall_mem_cons.1 hns
    exact (hcheck n hn).andThen (ih hns)

theorem checkLocal_points {name : Node} {ty : Ty} {init : Option Node} (hname : t.Has name)
    (hinit : ∀ i, init = some i → t.Has i) :
    Points t (checkLocal check name ty init) (fun _ => True) := by
  refine Points.get fun s => ?_
  split
  · exact reject_points (.span hname)
  cases init with
  | none => exact bindVariable_points hname
  | some i =>
    have hi := hinit i rfl
    refine (checkValue_points hcheck hi).bind fun found _ => ?_
    exact (expectType_points (.spanOr hi (.span hname))).andThen
      (emit_points.andThen (bindVariable_points hname))

theorem checkVariable_points {ty : Ty} (hn : t.Has n) :
    Points t (checkVariable check ty n) (fun _ => True) := by
  unfold checkVariable
  rw [Source.initial?_eq]
  cases hi : n.identifier? with
  | none => exact reject_points (.span hn)
  | some name =>
    have hname := hn.identifier? hi
    dsimp only
    split
    · exact reject_points (.span hname)
    refine Points.get fun s => ?_
    cases s.enclosing with
    | none => exact checkGlobal_points hname fun i hi => hn.initializer? hi
    | some f => exact checkLocal_points hcheck hname fun i hi => hn.initializer? hi

theorem checkDeclarators_points {ty : Ty} {ds : List Node} (hds : ∀ d ∈ ds, t.Has d) :
    Points t (checkDeclarators check ty ds) (fun _ => True) := by
  induction ds with
  | nil => exact points_pure trivial
  | cons d ds ih =>
    obtain ⟨hd, hds⟩ := List.forall_mem_cons.1 hds
    unfold checkDeclarators
    split
    · exact (checkPrototype_points hd).andThen (ih hds)
    · exact (checkVariable_points hcheck hd).andThen (ih hds)

theorem checkDefinition_points (hn : t.Has n) :
    Points t (checkDefinition check n) (fun _ => True) := by
  unfold checkDefinition
  cases hs : n.nth? 0 with
  | none => exact reject_points (.span hn)
  | some specifiers =>
  cases hd : n.child? .functionDeclarator with
  | none => exact reject_points (.span hn)
  | some declarator =>
  cases hb : n.child? .compoundStatement with
  | none => exact reject_points (.span hn)
  | some body =>
  dsimp only
  refine (accept_points (specifiedType_reads (hn.nth? hs))).bind fun ret _ => ?_
  refine (accept_points (functionDeclarator_reads (hn.child? hd))).bind fun d hnamed => ?_
  refine Points.get fun s => ?_
  cases s.enclosing with
  | some outer => exact reject_points (.span hn)
  | none =>
    refine (accept_points (namedParams_reads hn hnamed.2)).bind fun params hparams => ?_
    refine (declare_points hnamed.1).bind fun known _ => ?_
    split
    · exact reject_points (.span hnamed.1)
    have hbody : Points t (bindParams params >>= fun _ => check body >>= fun _ => pure ())
        (fun _ => True) :=
      (bindParams_points hparams).andThen
        ((hcheck body (hn.child? hb)).andThen (points_pure trivial))
    exact (points_modify.andThen ((inScope_points hbody).andThen points_modify)).andThen
      (points_pure trivial)

theorem checkCall_points (hn : t.Has n) : Points t (checkCall check n) (fun _ => True) := by
  unfold checkCall
  cases h : (n.nth? 0).bind Node.identifier? with
  | none => exact reject_points (.span hn)
  | some callee =>
    obtain ⟨first, hfirst, hc⟩ := Option.bind_eq_some_iff.1 h
    have hcallee := (hn.nth? hfirst).identifier? hc
    have hargs : ∀ a ∈ n.arguments, t.Has a := fun a ha => hn.arguments ha
    refine Points.get fun s => ?_
    cases s.functions.lookup callee.text with
    | none => exact reject_points (.span hcallee)
    | some known =>
      refine (checkValues_points hcheck hargs).bind fun found _ => ?_
      dsimp only
      split
      · exact reject_points (.span hn)
      · exact (expectTypes_points (.span hn) hargs _ _).andThen
          (emit_points.andThen (points_pure trivial))

theorem checkIf_points (hn : t.Has n) : Points t (checkIf check n) (fun _ => True) := by
  unfold checkIf
  cases h0 : n.nth? 0 with
  | none => exact reject_points (.span hn)
  | some condNode =>
  cases h1 : n.nth? 1 with
  | none => exact reject_points (.span hn)
  | some thenNode =>
  have hcond := hn.nth? h0
  dsimp only
  refine (checkValue_points hcheck hcond).bind fun ty _ => ?_
  refine (checkCondition_points (.spanOr hcond (.span hn))).andThen ?_
  refine (inScope_points (hcheck thenNode (hn.nth? h1))).andThen ?_
  cases h2 : n.nth? 2 with
  | none => exact points_pure trivial
  | some elseNode =>
    exact (inScope_points (hcheck elseNode (hn.nth? h2))).andThen (points_pure trivial)

theorem checkReturn_points (hn : t.Has n) : Points t (checkReturn check n) (fun _ => True) := by
  refine Points.get fun s => ?_
  cases s.enclosing with
  | none => exact reject_points (.span hn)
  | some f =>
    cases h0 : n.nth? 0 with
    | none =>
      dsimp only
      split
      · exact points_pure trivial
      · exact reject_points (.span hn)
    | some e =>
      have hplace : PlaceIn t (e.spanOr n.span) := .spanOr (hn.nth? h0) (.span hn)
      dsimp only
      refine (checkValue_points hcheck (hn.nth? h0)).bind fun found _ => ?_
      split
      · exact reject_points hplace
      · exact (checkConversion_points hplace).andThen (points_pure trivial)

theorem checkAssignment_points (hn : t.Has n) :
    Points t (checkAssignment check n) (fun _ => True) := by
  unfold checkAssignment
  cases h0 : n.nth? 0 with
  | none => exact reject_points (.span hn)
  | some targetNode =>
  cases h1 : n.nth? 1 with
  | none => exact reject_points (.span hn)
  | some e =>
  have htarget := (hn.nth? h0).unwrapped
  have hplace : PlaceIn t (e.spanOr n.span) := .spanOr (hn.nth? h1) (.span hn)
  dsimp only
  split
  · exact reject_points (.spanOr htarget (.span hn))
  refine (variableType_points htarget).bind fun ty _ => ?_
  refine (checkValue_points hcheck (hn.nth? h1)).bind fun found _ => ?_
  exact (expectType_points hplace).andThen (emit_points.andThen (points_pure trivial))

/-- The errors of a node point into the tree if those of the nodes below it do. -/
theorem checkNode_points (hn : t.Has n) : Points t (checkNode check n) (fun _ => True) := by
  unfold checkNode
  cases hk : n.kind with
  | translationUnit | statementList | compoundStatement | declarationList =>
    exact (checkAll_points hcheck fun c hc => hn.child hc).andThen (points_pure trivial)
  | functionDefinition => exact checkDefinition_points hcheck hn
  | declaration =>
    refine (accept_points (specifiedType_reads hn)).bind fun ty _ => ?_
    exact (checkDeclarators_points hcheck fun d hd => hn.declarators hd).andThen
      (points_pure trivial)
  | ifElseStatement => exact checkIf_points hcheck hn
  | returnExpr => exact checkReturn_points hcheck hn
  | assignmentExpression => exact checkAssignment_points hcheck hn
  | functionCall => exact checkCall_points hcheck hn
  | expression =>
    rcases hc : n.children with _ | ⟨inner, _ | ⟨c, cs⟩⟩
    · exact reject_points (.span hn)
    · exact hcheck inner (hn.child (by simp [hc]))
    · exact reject_points (.span hn)
  | int | float | char => exact points_pure trivial
  | identifier => exact (checkIdentifier_points hn).bind fun ty _ => points_pure trivial
  | _ => exact reject_points (.span hn)

end nodes

theorem checkWithin_points {t : Node} (depth : Nat) :
    ∀ n, t.Has n → Points t (checkWithin depth n) (fun _ => True) := by
  induction depth with
  | zero =>
    intro n _ s err he
    cases he
  | succ depth ih =>
    intro n hn
    exact checkNode_points ih hn

theorem typecheck_points {t : Node} {err : Error} (h : typecheck t = .error (.error err)) :
    LocatedIn t err := by
  have hroot : Points t (checkRoot t) (fun _ => True) := by
    unfold checkRoot
    split
    · exact reject_points (.span .root)
    · exact (checkWithin_points t.height t .root).andThen (points_pure trivial)
  unfold typecheck at h
  cases hr : checkRoot t { scopes := [[]] } with
  | ok u s =>
    rw [hr] at h
    cases h
  | error e s =>
    rw [hr] at h
    cases h
    exact Ends.of_error (hroot _) hr err rfl

end Checking

/-! ## Generation -/

/-- The error with which generation fails points to a node of the tree, or nowhere. If all nodes
have spans, it only points nowhere if verification refused a body, or if an instruction or the end
of a block was to be written outside of any body. -/
theorem generated_error_place {name : String} {t : Node} {failure : Lowering.Failure}
    (h : Lowering.generate name t = .error failure) :
    ∃ err, failure.fault = .error err ∧
      (err.span = none ∨ ∃ n, t.Has n ∧ n.span = err.span) ∧
      ((∀ n, t.Has n → n.span ≠ none) → err.span = none →
        (∃ e, err.cause = .verification e) ∨ err.cause = .malformed .statementOutside) := by
  obtain ⟨b, hb, -⟩ := Lowering.generate_error h
  rcases Ends.of_error (Lowering.lowerRoot_builds name t) hb with
    ⟨err, he, htree⟩ | ⟨function, block, he, -⟩
  · refine ⟨err, he, ?_⟩
    rcases Checking.typecheck_points (Checking.typecheck_of_error h he htree) with
      hplace | ⟨hnone, hcause⟩
    · refine ⟨?_, fun hall hnone => absurd hnone (hplace.known hall)⟩
      cases hs : err.span with
      | none => exact .inl rfl
      | some s => exact .inr (hplace.ofNode s hs)
    · exact ⟨.inl hnone, fun _ _ => .inr hcause⟩
  · exact ⟨_, he, .inl rfl, fun _ _ => .inl ⟨_, rfl⟩⟩

/-- A function that assigns a float to its integer parameter, written at the places given. -/
def misfitTree : Node :=
  let node (kind : Syntax.Kind) (value : Option String) (start stop : Nat) (children : List Node) :=
    Node.mk kind value (some ⟨start, stop⟩) children
  let specifiers (ty : String) (start stop : Nat) :=
    node .declarationSpecifiers none start stop [node .typeSpecifier (some ty) start stop []]
  node .translationUnit none 0 30 [node .functionDefinition none 0 30 [
    specifiers "void" 0 4,
    node .functionDeclarator none 5 13 [node .identifier (some "f") 5 6 [],
      node .parameterList none 6 13 [node .parameterDeclaration none 7 12 [
        specifiers "int" 7 10, node .identifier (some "a") 11 12 []]]],
    node .compoundStatement none 14 30 [node .assignmentExpression none 16 24 [
      node .identifier (some "a") 16 17 [],
      node .expression none 20 23 [node .float (some "0.5") 20 23 []]]]]]

/-- The error points to the value of the assignment. -/
theorem misfit_error_place : ∃ failure err, Lowering.generate "misfit" misfitTree = .error failure ∧
    failure.fault = .error err ∧ err.cause.code = "TypeMismatch" ∧ err.span = some ⟨20, 23⟩ ∧
    ∃ n, misfitTree.Has n ∧ n.span = some ⟨20, 23⟩ := by
  have hfault : (Lowering.generate "misfit" misfitTree).mapError (·.fault) =
      .error (.error ⟨some ⟨20, 23⟩, .typeMismatch .assignment (.exactly .int) .float⟩) := by
    decide +kernel
  cases hg : Lowering.generate "misfit" misfitTree with
  | ok m =>
    rw [hg] at hfault
    cases hfault
  | error failure =>
    rw [hg] at hfault
    have hf := Except.error.inj hfault
    obtain ⟨err, he, hplace, -⟩ := generated_error_place hg
    cases he.symm.trans hf
    refine ⟨failure, _, rfl, he, rfl, rfl, ?_⟩
    rcases hplace with hnone | hnode
    · cases hnone
    · exact hnode

end SlotIR
