import SlotIR.Proofs.TypeChecking
import SlotIR.Proofs.TypeText

/-!
# Conflicting signatures

A function that is declared with another signature than before is refused, and the error shows both
signatures as text. The texts differ whenever the error is reported: trees name no types of addresses,
so all signatures that are compared are plain, and plain signatures that differ have different texts.

Errors are followed through the checker, which finds the same ones as lowering. What it knows of
functions stays plain, and it reports no conflict but between plain signatures that differ
(`Checking.Discerns`); only `declare` has to do with either.
-/

namespace SlotIR

open Syntax (Node Span Param FunctionDeclarator paramsOf)
open Lowering (Error Cause namedParams)

theorem Ty.pointerFree_of_plain {t : Ty} (h : t = .void ∨ t.isScalar = true) : t.PointerFree := by
  rcases h with rfl | h
  · exact .void
  · exact .scalar h

theorem Signature.Plain.pointerFree {s : Signature} (h : s.Plain) : s.ty.PointerFree :=
  .fn (fun t ht => .scalar (h.1 t ht)) (Ty.pointerFree_of_plain h.2)

/-- Plain signatures with the same text are the same. -/
theorem Signature.Plain.text_inj {s s' : Signature} (h : s.Plain) (h' : s'.Plain)
    (htext : s.text = s'.text) : s = s' := by
  have hty := h.pointerFree.text_inj h'.pointerFree htext
  obtain ⟨hparams, hret⟩ := Ty.fn.inj hty
  cases s
  cases s'
  simp_all

/-- A conflict is between plain signatures that differ. Nothing is said of other causes. -/
def Lowering.Cause.Genuine : Cause → Prop
  | signatureConflict _ previous found => previous.Plain ∧ found.Plain ∧ previous ≠ found
  | _ => True

/-! ## Reading declarations -/

/-- The error of reading a part of a tree, if there is one, is genuine. -/
def ReadsGenuinely {α : Type} (x : Except Error α) : Prop :=
  ∀ e, x = .error e → e.cause.Genuine

section reading

variable {α β : Type}

theorem readsGenuinely_ok (a : α) : ReadsGenuinely (.ok a) := by
  rintro _ ⟨⟩

theorem errorAt_readsGenuinely {span : Option Span} {cause : Cause} (h : cause.Genuine) :
    ReadsGenuinely (Syntax.errorAt span cause : Except Error α) := by
  rintro _ ⟨⟩
  exact h

theorem ReadsGenuinely.bind {x : Except Error α} {f : α → Except Error β} (hx : ReadsGenuinely x)
    (hf : ∀ a, ReadsGenuinely (f a)) : ReadsGenuinely (x >>= f) := by
  cases x with
  | ok a => exact hf a
  | error e =>
    rintro _ ⟨⟩
    exact hx e rfl

theorem specifiedType_readsGenuinely (n : Node) : ReadsGenuinely n.specifiedType := by
  unfold Node.specifiedType
  split
  · exact errorAt_readsGenuinely trivial
  unfold Syntax.primitiveType
  split
  · exact readsGenuinely_ok _
  · exact readsGenuinely_ok _
  · exact readsGenuinely_ok _
  · exact readsGenuinely_ok _
  · exact errorAt_readsGenuinely trivial

theorem paramsOf_readsGenuinely (ns : List Node) : ReadsGenuinely (paramsOf ns) := by
  induction ns with
  | nil => exact readsGenuinely_ok _
  | cons n ns ih =>
    exact (specifiedType_readsGenuinely n).bind fun ty => ih.bind fun ps => readsGenuinely_ok _

theorem functionDeclarator_readsGenuinely (n : Node) : ReadsGenuinely n.functionDeclarator := by
  rw [Node.functionDeclarator_eq]
  split
  · exact errorAt_readsGenuinely trivial
  · refine ReadsGenuinely.bind ?_ fun declared => ?_
    · unfold Node.declaredParams
      split
      · exact paramsOf_readsGenuinely _
      · exact readsGenuinely_ok _
    · unfold Node.declaring
      split
      · exact errorAt_readsGenuinely trivial
      · exact readsGenuinely_ok _

theorem namedParams_readsGenuinely {n : Node} {function : String} {ps : List Param} :
    ReadsGenuinely (namedParams n function ps) := by
  induction ps with
  | nil => exact readsGenuinely_ok _
  | cons p ps ih =>
    unfold namedParams
    split
    · exact errorAt_readsGenuinely trivial
    · exact ih.bind fun rest => readsGenuinely_ok _

theorem globalInit_readsGenuinely {name : Node} {ty : Ty} {init : Option Node} :
    ReadsGenuinely (Checking.globalInit name ty init) := by
  unfold Checking.globalInit
  split
  · split
    · exact readsGenuinely_ok _
    · exact errorAt_readsGenuinely trivial
  split
  · exact errorAt_readsGenuinely trivial
  split
  · exact readsGenuinely_ok _
  · exact errorAt_readsGenuinely trivial

end reading

/-! ## Checking -/

namespace Checking

/-- All functions that are known have plain signatures. -/
def Static.Plain (s : Static) : Prop := ∀ p ∈ s.functions, p.2.signature.Plain

theorem Static.Plain.bind {s : Static} (h : s.Plain) (name : String) (ty : Ty) :
    (s.bind name ty).Plain := by
  unfold Static.bind
  split
  · exact h
  · exact h

theorem Static.Plain.define {s : Static} (h : s.Plain) (name : String) : (s.define name).Plain := by
  intro p hp
  obtain ⟨q, hq, rfl⟩ := List.mem_map.1 hp
  split
  · exact h q hq
  · exact h q hq

/-- Signatures stay plain, and a conflict is only reported where there is one. -/
def Discerns {α : Type} (x : CheckM α) : Prop :=
  ∀ s, s.Plain → Ends (x s) (fun _ s' => s'.Plain)
    (fun e _ => ∀ err, e = .error err → err.cause.Genuine)

section discerns

variable {α β : Type} {x : CheckM α}

theorem Discerns.bind {f : α → CheckM β} (hx : Discerns x) (hf : ∀ a, Discerns (f a)) :
    Discerns (x >>= f) :=
  fun s hs => Ends.bind (hx s hs) fun a s' hs' => hf a s' hs'

theorem Discerns.get {f : Static → CheckM β} (h : ∀ s, s.Plain → Discerns (f s)) :
    Discerns (get >>= f) :=
  fun s hs => h s hs s hs

theorem discerns_pure (a : α) : Discerns (pure a) := fun _ hs => hs

theorem discerns_set {s : Static} (h : s.Plain) : Discerns (set s) := fun _ _ => h

theorem discerns_modify {g : Static → Static} (h : ∀ s, s.Plain → (g s).Plain) :
    Discerns (modify g) := h

theorem Discerns.after_modify {g : Static → Static} (hx : Discerns x)
    (h : ∀ s, s.Plain → (g s).Plain) : Discerns (modify g >>= fun _ => x) :=
  (discerns_modify h).bind fun _ => hx

theorem reject_discerns {span : Option Span} {cause : Cause} (h : cause.Genuine) :
    Discerns (reject span cause : CheckM α) := by
  rintro s _ _ ⟨⟩
  exact h

/-- What follows may use what was read. -/
theorem accept_discerns {y : Except Error α} {f : α → CheckM β} (hy : ReadsGenuinely y)
    (hf : ∀ a, y = .ok a → Discerns (f a)) : Discerns (accept y >>= f) := by
  cases y with
  | ok a => exact hf a rfl
  | error e =>
    rintro s _ _ ⟨⟩
    exact hy e rfl

theorem emit_discerns : Discerns emit := by
  refine Discerns.get fun s _ => ?_
  split
  · exact discerns_pure _
  · exact reject_discerns trivial

theorem inScope_discerns (h : Discerns x) : Discerns (inScope x) := by
  unfold inScope
  refine Discerns.after_modify (h.bind fun a => ?_) fun _ hs => hs
  exact Discerns.after_modify (discerns_pure a) fun _ hs => hs

/-! ### Values and variables -/

theorem variableType_discerns (n : Node) : Discerns (variableType n) := by
  refine Discerns.get fun s _ => ?_
  split
  · exact discerns_pure _
  · exact reject_discerns trivial

theorem expectType_discerns {found ty : Ty} {context : Lowering.TypeContext} {span : Option Span} :
    Discerns (expectType found ty context span) := by
  unfold expectType
  split
  · exact discerns_pure _
  · exact reject_discerns trivial

theorem expectTypes_discerns {call : Option Span} {found tys : List Ty} {ns : List Node} :
    Discerns (expectTypes call found tys ns) := by
  fun_induction expectTypes call found tys ns with
  | case1 found rest ty tys n ns ih => exact expectType_discerns.bind fun _ => ih
  | case2 => exact discerns_pure _

theorem checkConversion_discerns {found ty : Ty} {context : Lowering.TypeContext}
    {span : Option Span} : Discerns (checkConversion found ty context span) := by
  unfold checkConversion
  split
  · exact discerns_pure _
  split
  · exact emit_discerns
  · exact reject_discerns trivial

theorem checkCondition_discerns {ty : Ty} {span : Option Span} :
    Discerns (checkCondition ty span) := by
  unfold checkCondition
  split
  · exact emit_discerns
  · exact reject_discerns trivial

theorem bindVariable_discerns {name : Node} {ty : Ty} : Discerns (bindVariable name ty) := by
  refine Discerns.get fun s hs => ?_
  split
  · exact reject_discerns trivial
  · exact discerns_set (hs.bind _ _)

theorem checkGlobal_discerns {name : Node} {ty : Ty} {init : Option Node} :
    Discerns (checkGlobal name ty init) := by
  refine Discerns.get fun s hs => ?_
  split
  · exact reject_discerns trivial
  · refine accept_discerns globalInit_readsGenuinely fun _ _ => ?_
    refine Discerns.bind (discerns_set ?_) fun _ => bindVariable_discerns
    exact hs

/-! ### Functions -/

/-- The signature is compared with that of the function if it is known, and is known itself
otherwise. -/
theorem declare_discerns {signature : Signature} (name : Node) (h : signature.Plain) :
    Discerns (declare name signature) := by
  refine Discerns.get fun s hs => ?_
  split
  · exact reject_discerns trivial
  split
  · refine (discerns_set fun p hp => ?_).bind fun _ => discerns_pure _
    rcases List.mem_append.1 hp with hp | hp
    · exact hs p hp
    · cases List.mem_singleton.1 hp
      exact h
  · rename_i known hknown
    split
    · rename_i hne
      exact reject_discerns ⟨hs _ (mem_of_lookup hknown), h, hne⟩
    · exact discerns_pure _

theorem checkPrototype_discerns {ret : Ty} (hret : ret = .void ∨ ret.isArithmetic = true) (n : Node) :
    Discerns (checkPrototype ret n) := by
  refine accept_discerns (functionDeclarator_readsGenuinely n) fun d hd => ?_
  have hplain := FunctionDeclarator.signature_plain (Node.functionDeclarator_ok hd) hret
  exact (declare_discerns d.name hplain).bind fun _ => discerns_pure _

theorem bindParams_discerns {ps : List (Node × Ty)} : Discerns (bindParams ps) := by
  induction ps with
  | nil => exact discerns_pure _
  | cons p ps ih => exact bindVariable_discerns.bind fun _ => ih

end discerns

/-! ### Nodes -/

section nodes

variable {check : Check} (hcheck : ∀ n, Discerns (check n))
include hcheck

theorem checkValue_discerns (n : Node) : Discerns (checkValue check n) := by
  refine (hcheck n).bind fun o => ?_
  cases o with
  | some ty => exact discerns_pure _
  | none => exact reject_discerns trivial

theorem checkValues_discerns (ns : List Node) : Discerns (checkValues check ns) := by
  induction ns with
  | nil => exact discerns_pure _
  | cons n ns ih =>
    exact (checkValue_discerns hcheck n).bind fun _ => ih.bind fun _ => discerns_pure _

theorem checkAll_discerns (ns : List Node) : Discerns (checkAll check ns) := by
  induction ns with
  | nil => exact discerns_pure _
  | cons n ns ih => exact (hcheck n).bind fun _ => ih

theorem checkVariable_discerns (ty : Ty) (n : Node) : Discerns (checkVariable check ty n) := by
  unfold checkVariable
  split
  · exact reject_discerns trivial
  split
  · exact reject_discerns trivial
  refine Discerns.get fun s _ => ?_
  split
  · exact checkGlobal_discerns
  refine Discerns.get fun s _ => ?_
  split
  · exact reject_discerns trivial
  split
  · exact bindVariable_discerns
  · exact (checkValue_discerns hcheck _).bind fun _ => expectType_discerns.bind fun _ =>
      emit_discerns.bind fun _ => bindVariable_discerns

theorem checkDeclarators_discerns {ty : Ty} (hty : ty = .void ∨ ty.isArithmetic = true)
    (ds : List Node) : Discerns (checkDeclarators check ty ds) := by
  induction ds with
  | nil => exact discerns_pure _
  | cons d ds ih =>
    unfold checkDeclarators
    split
    · exact (checkPrototype_discerns hty d).bind fun _ => ih
    · exact (checkVariable_discerns hcheck ty d).bind fun _ => ih

theorem checkDeclaration_discerns (n : Node) : Discerns (checkDeclaration check n) :=
  accept_discerns (specifiedType_readsGenuinely n) fun _ hty =>
    (checkDeclarators_discerns hcheck (Node.specifiedType_ok hty) _).bind fun _ => discerns_pure _

theorem checkBody_discerns {name : String} {params : List (Node × Ty)} {ret : Ty} {body : Node} :
    Discerns (checkBody check name params ret body) := by
  have hbody : Discerns (bindParams params >>= fun _ => check body >>= fun _ => pure ()) :=
    bindParams_discerns.bind fun _ => (hcheck body).bind fun _ => discerns_pure _
  unfold checkBody
  refine Discerns.after_modify ((inScope_discerns hbody).bind fun _ => ?_) fun _ hs => hs.define name
  exact discerns_modify fun _ hs => hs

theorem checkDefinition_discerns (n : Node) : Discerns (checkDefinition check n) := by
  unfold checkDefinition
  split
  · refine accept_discerns (specifiedType_readsGenuinely _) fun ret hret => ?_
    refine accept_discerns (functionDeclarator_readsGenuinely _) fun d hd => ?_
    have hplain := FunctionDeclarator.signature_plain (Node.functionDeclarator_ok hd)
      (Node.specifiedType_ok hret)
    refine Discerns.get fun s _ => ?_
    split
    · exact reject_discerns trivial
    refine accept_discerns namedParams_readsGenuinely fun params _ => ?_
    refine (declare_discerns d.name hplain).bind fun known => ?_
    split
    · exact reject_discerns trivial
    · exact (checkBody_discerns hcheck).bind fun _ => discerns_pure _
  · exact reject_discerns trivial

theorem checkCall_discerns (n : Node) : Discerns (checkCall check n) := by
  unfold checkCall
  split
  · exact reject_discerns trivial
  refine Discerns.get fun s _ => ?_
  split
  · exact reject_discerns trivial
  refine (checkValues_discerns hcheck _).bind fun found => ?_
  dsimp only
  split
  · exact reject_discerns trivial
  · exact expectTypes_discerns.bind fun _ => emit_discerns.bind fun _ => discerns_pure _

theorem checkIf_discerns (n : Node) : Discerns (checkIf check n) := by
  unfold checkIf
  split
  · refine (checkValue_discerns hcheck _).bind fun ty => ?_
    refine checkCondition_discerns.bind fun _ => ?_
    refine (inScope_discerns (hcheck _)).bind fun _ => ?_
    split
    · exact discerns_pure _
    · exact (inScope_discerns (hcheck _)).bind fun _ => discerns_pure _
  · exact reject_discerns trivial

theorem checkReturn_discerns (n : Node) : Discerns (checkReturn check n) := by
  refine Discerns.get fun s _ => ?_
  split
  · exact reject_discerns trivial
  split
  · split
    · exact discerns_pure _
    · exact reject_discerns trivial
  · refine (checkValue_discerns hcheck _).bind fun found => ?_
    split
    · exact reject_discerns trivial
    · exact checkConversion_discerns.bind fun _ => discerns_pure _

theorem checkAssignment_discerns (n : Node) : Discerns (checkAssignment check n) := by
  unfold checkAssignment
  split
  · dsimp only
    split
    · exact reject_discerns trivial
    refine (variableType_discerns _).bind fun ty => ?_
    refine (checkValue_discerns hcheck _).bind fun found => ?_
    exact expectType_discerns.bind fun _ => emit_discerns.bind fun _ => discerns_pure _
  · exact reject_discerns trivial

theorem checkNode_discerns (n : Node) : Discerns (checkNode check n) := by
  unfold checkNode
  cases hk : n.kind with
  | translationUnit | statementList | compoundStatement | declarationList =>
    exact (checkAll_discerns hcheck _).bind fun _ => discerns_pure _
  | functionDefinition => exact checkDefinition_discerns hcheck n
  | declaration => exact checkDeclaration_discerns hcheck n
  | ifElseStatement => exact checkIf_discerns hcheck n
  | returnExpr => exact checkReturn_discerns hcheck n
  | assignmentExpression => exact checkAssignment_discerns hcheck n
  | functionCall => exact checkCall_discerns hcheck n
  | expression =>
    dsimp only
    split
    · exact hcheck _
    · exact reject_discerns trivial
  | int | float | char => exact discerns_pure _
  | identifier =>
    exact ((variableType_discerns n).bind fun _ => emit_discerns.bind fun _ =>
      discerns_pure _).bind fun _ => discerns_pure _
  | _ => exact reject_discerns trivial

end nodes

theorem checkWithin_discerns (depth : Nat) : ∀ n, Discerns (checkWithin depth n) := by
  induction depth with
  | zero =>
    intro n s _ err he
    cases he
  | succ depth ih => exact checkNode_discerns ih

theorem typecheck_genuine {t : Node} {err : Error} (h : typecheck t = .error (.error err)) :
    err.cause.Genuine := by
  have hroot : Discerns (checkRoot t) := by
    unfold checkRoot
    split
    · exact reject_discerns trivial
    · exact (checkWithin_discerns t.height t).bind fun _ => discerns_pure _
  unfold typecheck at h
  cases hr : checkRoot t { scopes := [[]] } with
  | ok u s =>
    rw [hr] at h
    cases h
  | error e s =>
    rw [hr] at h
    cases h
    exact Ends.of_error (hroot _ (by simp [Static.Plain])) hr err rfl

end Checking

/-! ## Generation -/

/-- The text of a type in which no address occurs determines the type, however deep function types are
nested in it. So the texts of the two signatures differ in every conflict that generation reports. -/
theorem type_text_determines_type :
    (∀ a b : Ty, a.PointerFree → b.PointerFree → a.text = b.text → a = b) ∧
    ∀ (name : String) (t : Node) (failure : Lowering.Failure) (err : Error) (function : String)
      (previous found : Signature), Lowering.generate name t = .error failure →
      failure.fault = .error err → err.cause = .signatureConflict function previous found →
      previous.text ≠ found.text := by
  refine ⟨fun a b ha hb h => ha.text_inj hb h, ?_⟩
  intro name t failure err function previous found hg he hcause htext
  have htree : err.cause.OfTree := by
    rw [hcause]
    rintro _ ⟨⟩
  have hgenuine := Checking.typecheck_genuine (Checking.typecheck_of_error hg he htree)
  rw [hcause] at hgenuine
  obtain ⟨hprevious, hfound, hne⟩ := hgenuine
  exact hne (hprevious.text_inj hfound htext)

/-- Two prototypes of one function, with a parameter of the types given. -/
def redeclarationTree (first second : String) : Node :=
  let specifiers (ty : String) :=
    Lowering.branchNode .declarationSpecifiers [Lowering.leaf .typeSpecifier ty]
  let prototype (ty : String) :=
    Lowering.branchNode .declaration [specifiers "int",
      Lowering.branchNode .functionDeclarator [Lowering.leaf .identifier "f",
        Lowering.branchNode .parameterList [
          Lowering.branchNode .parameterDeclaration [specifiers ty]]]]
  Lowering.branchNode .translationUnit [prototype first, prototype second]

/-- The texts of these types differ in the place of a parenthesis only. The second prototype is refused
with another text than the first. -/
theorem redeclaration_texts_differ :
    (Ty.fn [.fn [.int, .float] .void] .char).text ≠ (Ty.fn [.fn [.int] .void, .float] .char).text ∧
    ∃ failure err function previous found,
      Lowering.generate "unit" (redeclarationTree "int" "float") = .error failure ∧
      failure.fault = .error err ∧ err.cause = .signatureConflict function previous found ∧
      previous.text ≠ found.text := by
  obtain ⟨hinjective, hconflict⟩ := type_text_determines_type
  refine ⟨fun h => ?_, ?_⟩
  · have hint : Ty.int.PointerFree := .scalar rfl
    have hfloat : Ty.float.PointerFree := .scalar rfl
    have hpair : (Ty.fn [.int, .float] .void).PointerFree := .fn (by simp [hint, hfloat]) .void
    have hsingle : (Ty.fn [.int] .void).PointerFree := .fn (by simp [hint]) .void
    have heq := hinjective _ _ (.fn (by simp [hpair]) (.scalar rfl))
      (.fn (by simp [hsingle, hfloat]) (.scalar rfl)) h
    exact absurd heq (by decide)
  have hfault : (Lowering.generate "unit" (redeclarationTree "int" "float")).mapError (·.fault) =
      .error (.error ⟨none, .signatureConflict "f" ⟨[.int], .int⟩ ⟨[.float], .int⟩⟩) := by
    decide +kernel
  cases hg : Lowering.generate "unit" (redeclarationTree "int" "float") with
  | ok m =>
    rw [hg] at hfault
    cases hfault
  | error failure =>
    rw [hg] at hfault
    have hf := Except.error.inj hfault
    exact ⟨failure, _, _, _, _, rfl, hf, rfl, hconflict _ _ _ _ _ _ _ hg hf rfl⟩

end SlotIR
