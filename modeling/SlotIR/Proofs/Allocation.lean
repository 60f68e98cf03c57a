import SlotIR.Proofs.Provenance

/-!
# What slots are for

The slots of a function stand for the variables that its definition declares: first the parameters
in their order, then the declarators of its body in the order in which the tree has them
(`Compiled.purposes`). Expressions declare no variables, so their code needs no slots.
-/

namespace SlotIR

open Syntax (Node)

/-! ## Declarators of variables -/

namespace Source

mutual

/-- The declarators of variables in a statement, in its arms and nested statements too. -/
def localsIn : Node → List Node
  | .mk kind value span children =>
    if kind.isSequence then localsInAll children
    else if kind = .expression then
      match children with
      | [_] => localsInAll children
      | _ => []
    else if kind = .declaration then
      (Node.mk kind value span children).declarators.filter (·.kind ≠ .functionDeclarator)
    else if kind = .ifElseStatement then
      match children with
      | [] => []
      | _ :: arms => localsInFirst 2 arms
    else []

def localsInAll : List Node → List Node
  | [] => []
  | n :: ns => localsIn n ++ localsInAll ns

/-- Like `localsInAll`, but only for the first nodes. -/
def localsInFirst : Nat → List Node → List Node
  | 0, _ => []
  | _, [] => []
  | k + 1, n :: ns => localsIn n ++ localsInFirst k ns

end

section localsIn

variable {n : Node}

theorem localsIn_sequence (h : n.kind.isSequence = true) : localsIn n = localsInAll n.children := by
  obtain ⟨kind, value, span, children⟩ := n
  unfold localsIn
  exact if_pos h

theorem localsIn_wrapper {inner : Node} (h : n.kind = .expression) (hc : n.children = [inner]) :
    localsIn n = localsIn inner := by
  obtain ⟨kind, value, span, children⟩ := n
  cases h
  cases hc
  simp [localsIn, localsInAll, Syntax.Kind.isSequence]

theorem localsIn_declaration (h : n.kind = .declaration) :
    localsIn n = n.declarators.filter (·.kind ≠ .functionDeclarator) := by
  obtain ⟨kind, value, span, children⟩ := n
  cases h
  simp [localsIn, Syntax.Kind.isSequence]

theorem localsIn_if (h : n.kind = .ifElseStatement) :
    localsIn n = (n.nth? 1).toList.flatMap localsIn ++ (n.nth? 2).toList.flatMap localsIn := by
  obtain ⟨kind, value, span, children⟩ := n
  cases h
  rcases children with _ | ⟨cond, _ | ⟨arm, _ | ⟨other, rest⟩⟩⟩ <;>
    simp [localsIn, localsInFirst, Syntax.Kind.isSequence, Node.nth?, Node.children]

/-- Expressions and returns declare no variables. -/
theorem localsIn_expression (h : n.kind ∈ [.int, .float, .char, .identifier, .returnExpr,
    .assignmentExpression, .functionCall]) : localsIn n = [] := by
  obtain ⟨kind, value, span, children⟩ := n
  simp only [Node.kind, List.mem_cons, List.not_mem_nil, or_false] at h
  rcases h with rfl | rfl | rfl | rfl | rfl | rfl | rfl <;>
    simp [localsIn, Syntax.Kind.isSequence]

end localsIn

end Source

/-! ## Slots of bodies -/

/-- What a slot was made for: the name and the kind of a variable. -/
def Slot.purpose (s : Slot) : Option String × SlotOrigin := (s.name, s.origin)

/-- The slots of a function so far. -/
def Draft.purposes (d : Draft) : List
    (Option String × SlotOrigin) := d.function.slots.map Slot.purpose

/-- What the slot of a declarator is for. -/
def Source.localPurpose (n : Node) : Option String × SlotOrigin :=
    (n.identifier?.map Node.text, .var)

/-- What the slots of a definition are for. -/
def Source.Definition.purposes (d : Source.Definition) : List (Option String × SlotOrigin) :=
  d.params.mapIdx (fun i p => (some p, .argument i)) ++ (localsIn d.body).map localPurpose

namespace Lowering

open Source (localPurpose)

theorem convertIn_slots {d d' : Draft} {v w : Value} {ty : Ty}
    (h : convertIn d v ty = some (w, d')) : d'.function.slots = d.function.slots := by
  unfold convertIn at h
  split at h
  · cases h
    rfl
  · obtain ⟨op, -, e⟩ := Option.map_eq_some_iff.1 h
    cases e
    exact Draft.emit_slots

theorem conditionIn_slots {d d' : Draft} {v : Value} {cond : Operand}
    (h : conditionIn d v = some (cond, d')) : d'.function.slots = d.function.slots := by
  obtain ⟨⟨w, d₁⟩, hc, e⟩ := Option.map_eq_some_iff.1 h
  cases e
  exact Draft.emit_slots.trans (convertIn_slots hc)

/-- A node gets a slot for each of its declarators, and has none if it has a value. -/
structure Allocates (sub : Emission) : Prop where
  step : ∀ {n : Node} {scope : ScopeId} {d d' : Draft} {r : Lowered}, sub n scope d r d' →
    d'.purposes = d.purposes ++ (Source.localsIn n).map localPurpose ∧
      ∀ v, r = .value v → Source.localsIn n = []

section allocates

variable {sub : Emission} {scope : ScopeId} {d d' : Draft}

theorem purposes_of_slots (h : d'.function.slots = d.function.slots) :
    d'.purposes = d.purposes := by
  rw [Draft.purposes, Draft.purposes, h]

theorem Allocates.value (h : Allocates sub) {n : Node} {v : Value}
    (hn : sub n scope d (.value v) d') : d'.purposes = d.purposes := by
  obtain ⟨hp, he⟩ := h.step hn
  rw [he v rfl] at hp
  simpa using hp

theorem emitsAll_purposes (hsub : Allocates sub) {ns : List Node} (h : EmitsAll sub scope ns d d') :
    d'.purposes = d.purposes ++ (Source.localsInAll ns).map localPurpose := by
  induction h with
  | nil => simp [Source.localsInAll]
  | cons head tail ih =>
    rw [ih, (hsub.step head).1, Source.localsInAll, List.map_append, List.append_assoc]

theorem emitsValues_purposes (hsub : Allocates sub) {ns : List Node} {vs : List Value}
    (h : EmitsValues sub scope ns d vs d') : d'.purposes = d.purposes := by
  induction h with
  | nil => rfl
  | cons head tail ih => rw [ih, hsub.value head]

theorem emitsDeclarator_purposes (hsub : Allocates sub) {ty : Ty} {n : Node}
    (h : EmitsDeclarator sub scope ty n d d') :
    d'.purposes = d.purposes ++ ([n].filter (·.kind ≠ .functionDeclarator)).map localPurpose := by
  cases h with
  | prototype kind => simp [kind, Draft.purposes]
  | bare kind named =>
    simp [kind, named, Draft.purposes, Draft.addSlot, Function.addSlot, localPurpose, varSlot,
      Slot.purpose]
  | @initialized name init v d₁ c kind named object initializer value fits defines =>
    have hv := hsub.value value
    have hadd : (d.addSlot (varSlot name ty)).purposes = d.purposes ++ [localPurpose n] := by
      simp [named, Draft.purposes, Draft.addSlot, Function.addSlot, localPurpose, varSlot,
        Slot.purpose]
    have hemit : ({ d₁.emit .void (.store (nextSlot d ty).operand v.operand) with scopes := c } :
        Draft).purposes = d₁.purposes := purposes_of_slots Draft.emit_slots
    rw [hemit, hv, hadd]
    simp [kind]

theorem emitsDeclarators_purposes (hsub : Allocates sub) {ty : Ty} {ns : List Node}
    (h : EmitsDeclarators sub scope ty ns d d') :
    d'.purposes = d.purposes ++ (ns.filter (·.kind ≠ .functionDeclarator)).map localPurpose := by
  induction h with
  | nil => simp
  | @cons n ns d d₁ d' head tail ih =>
    rw [ih, emitsDeclarator_purposes hsub head, List.append_assoc, ← List.map_append,
      ← List.filter_append, List.singleton_append]

theorem emitsArm_purposes (hsub : Allocates sub) {arm : Node} {merge : Nat}
    (h : EmitsArm sub scope arm merge d d') :
    d'.purposes = d.purposes ++ (Source.localsIn arm).map localPurpose := by
  cases h with
  | @arm r d₁ body =>
    rw [purposes_of_slots (Draft.fallThrough_slots _ _)]
    exact (hsub.step body).1

/-- The test of a conditional needs no slots. -/
theorem fork_purposes (hsub : Allocates sub) {condNode : Node} {v : Value} {cond : Operand}
    {d₁ d₂ : Draft} {names : List String} (value : sub condNode scope d (.value v) d₁)
    (test : conditionIn d₁ v = some (cond, d₂)) : (d₂.fork cond names).purposes = d.purposes := by
  rw [← hsub.value value]
  exact purposes_of_slots (Draft.fork_slots.trans (conditionIn_slots test))

theorem emitsNode_allocates (hsub : Allocates sub) :
    Allocates (fun n scope d r d' => EmitsNode sub scope n d r d') := by
  refine ⟨fun {n scope d d' r} h => ?_⟩
  -- a node that declares nothing
  have plain : ∀ {d' : Draft}, n.kind ∈ [Syntax.Kind.int, .float, .char, .identifier, .returnExpr,
      .assignmentExpression, .functionCall] → d'.purposes = d.purposes →
      d'.purposes = d.purposes ++ (Source.localsIn n).map localPurpose ∧
        ∀ v, r = .value v → Source.localsIn n = [] := by
    intro d' hk hp
    rw [Source.localsIn_expression hk, hp]
    exact ⟨by simp, fun _ _ => rfl⟩
  cases h with
  | sequence kind all =>
    rw [Source.localsIn_sequence kind]
    exact ⟨emitsAll_purposes hsub all, nofun⟩
  | wrapper kind children body =>
    rw [Source.localsIn_wrapper kind children]
    exact hsub.step body
  | literal reads =>
    refine plain ?_ rfl
    unfold Node.literal? at reads
    cases hk : n.kind <;> simp [hk] at reads ⊢
  | identifier kind bound object =>
    exact plain (by simp [kind]) (purposes_of_slots Draft.emit_slots)
  | declaration kind type all =>
    rw [Source.localsIn_declaration kind]
    exact ⟨emitsDeclarators_purposes hsub all, nofun⟩
  | ifThen kind first second third value test arm =>
    refine ⟨?_, nofun⟩
    have ha := emitsArm_purposes hsub arm
    rw [fork_purposes hsub value test] at ha
    rw [Source.localsIn_if kind, second, third]
    simpa [Draft.moveTo, Function.place, Draft.purposes] using ha
  | ifElse kind first second third value test arm other =>
    refine ⟨?_, nofun⟩
    have ha := emitsArm_purposes hsub arm
    have hb := emitsArm_purposes hsub other
    rw [fork_purposes hsub value test] at ha
    rw [Source.localsIn_if kind, second, third]
    simp only [Draft.purposes, Draft.moveTo, Function.place] at ha hb ⊢
    rw [hb, ha]
    simp
  | returnNothing kind nothing void =>
    exact plain (by simp [kind]) (purposes_of_slots Draft.close_slots)
  | returnValue kind operand object value converts =>
    refine plain (by simp [kind]) ?_
    rw [← hsub.value value]
    exact purposes_of_slots (Draft.close_slots.trans (convertIn_slots converts))
  | assignment kind first second identifier bound value fits =>
    refine plain (by simp [kind]) ?_
    rw [← hsub.value value]
    exact purposes_of_slots Draft.emit_slots
  | call kind named known values function fits =>
    refine plain (by simp [kind]) ?_
    rw [← emitsValues_purposes hsub values]
    exact purposes_of_slots Draft.emit_slots

theorem emits_allocates : ∀ h : Nat, Allocates (Emits h)
  | 0 => ⟨fun he => he.elim⟩
  | h + 1 => emitsNode_allocates (emits_allocates h)

end allocates

/-! ## Slots of definitions -/

theorem spills_purposes {scope : ScopeId} {i : Nat} {ps : List (Node × Ty)} {d d' : Draft}
    (h : Spills scope i ps d d') :
    d'.purposes = d.purposes ++ ps.mapIdx fun j p => (some p.1.text, .argument (i + j)) := by
  induction h with
  | nil => simp
  | @cons i name ty ps d d' c defines rest ih =>
    have hone : ({ (d.addSlot (argSlot name ty i)).emit .void
        (.store (nextSlot d ty).operand (.arg i))
        with scopes := c } : Draft).purposes = d.purposes ++ [(some name.text, .argument i)] := by
      refine (purposes_of_slots Draft.emit_slots).trans ?_
      simp [Draft.purposes, Draft.addSlot, Function.addSlot, argSlot, Slot.purpose]
    rw [ih, hone, List.mapIdx_cons, List.append_assoc, List.singleton_append]
    simp only [Nat.add_zero, Nat.add_assoc, Nat.add_comm 1]

theorem closes_slots {ret : Ty} {d d' : Draft} (h : Closes ret d d') :
    d'.function.slots = d.function.slots := by
  cases h with
  | closed | live => rfl
  | void | dead => exact Draft.close_slots

/-- The slots of a function are for the variables of its definition, in their order. -/
theorem Compiled.purposes {m : Module} {f : Function} {def_ : Source.Definition}
    (h : Compiled m f def_) : f.slots.map Slot.purpose = def_.purposes := by
  cases h with
  | @intro h k scope file g params body d opens built same finished grows =>
    subst same
    cases built with
    | @body d₁ d₂ d₃ r spills emits closes =>
      have hstart : ((file.start g params).enter scope).purposes = [] := by
        show g.slots.map Slot.purpose = []
        rw [opens.bare]
        rfl
      have hall : d.purposes = d₁.purposes ++ (Source.localsIn body).map localPurpose := by
        rw [purposes_of_slots (closes_slots closes), ((emits_allocates h).step emits).1]
      rw [spills_purposes spills, hstart] at hall
      show d.purposes = _
      rw [hall, Source.Definition.purposes]
      simp [List.mapIdx_eq_zipIdx_map, List.zipIdx_map]

end Lowering

end SlotIR
