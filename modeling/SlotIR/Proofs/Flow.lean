import SlotIR.Proofs.SourceProgram

/-!
# The ends of bodies, as trees state them

Whether a body may run past its end is read off the tree in two ways. `flow` follows the code as it
stands: it asks whether the last thing was a return, or code that stands behind one. `passes` follows
control: it asks whether a run that starts at a statement can come to its end. The two differ on code
behind a return, where `flow` takes the code after a conditional for code that may run.
-/

namespace SlotIR.Source

open Syntax (Node)

/-- Where in a body the code goes on. -/
inductive Flow
  /-- In code that something leads to. -/
  | live
  /-- Directly behind a return. -/
  | term
  /-- In code that stands behind a return. -/
  | dead
  deriving DecidableEq, Repr

namespace Flow

/-- Code that does anything at all, but return. -/
def emit : Flow → Flow
  | live => live
  | term | dead => dead

/-- Arms of a conditional that all return leave nothing to go on from. -/
def join (arms : List Flow) : Flow :=
  if arms = [term, term] then dead else live

@[simp] theorem emit_emit (s : Flow) : s.emit.emit = s.emit := by
  cases s <;> rfl

theorem emit_eq_live {s : Flow} : s.emit = live ↔ s = live := by
  cases s <;> simp [emit]

theorem join_pair (s t : Flow) : join [s, t] = if s = term ∧ t = term then dead else live := by
  simp [join]

end Flow

/-- A declarator does something if it has an initializer. -/
def declaratorFlow (s : Flow) (d : Node) : Flow :=
  if (initial? d).isSome = true then s.emit else s

mutual

/-- Where the code goes on after a statement. -/
def flow : Node → Flow → Flow
  | .mk kind value span children, s =>
    if kind.isSequence then flowAll children s
    else if kind = .expression then
      match children with
      | [_] => flowAll children s
      | _ => s
    else if kind = .declaration then
      (Node.mk kind value span children).declarators.foldl declaratorFlow s
    else if kind = .ifElseStatement then
      match children with
      | [] => s.emit
      | _ :: arms => .join (flowArms 2 arms)
    else if kind = .returnExpr then .term
    else if kind ∈ [.identifier, .assignmentExpression, .functionCall] then s.emit
    else s

def flowAll : List Node → Flow → Flow
  | [], s => s
  | n :: ns, s => flowAll ns (flow n s)

/-- Where the code goes on after each of the first nodes, if something leads to it. -/
def flowArms : Nat → List Node → List Flow
  | 0, _ => []
  | _, [] => []
  | k + 1, n :: ns => flow n .live :: flowArms k ns

end

mutual

/-- Whether control that comes to a statement can come past it. -/
def passes : Node → Bool
  | .mk kind _ _ children =>
    if kind.isSequence then passesAll children
    else if kind = .expression then
      match children with
      | [_] => passesAll children
      | _ => true
    else if kind = .ifElseStatement then
      match children with
      | [] => true
      | _ :: arms => passesArms 2 arms != [false, false]
    else kind != .returnExpr

def passesAll : List Node → Bool
  | [] => true
  | n :: ns => passes n && passesAll ns

/-- Whether control can come past each of the first nodes. -/
def passesArms : Nat → List Node → List Bool
  | 0, _ => []
  | _, [] => []
  | k + 1, n :: ns => passes n :: passesArms k ns

end

/-! ## Constructs -/

section constructs

variable {n : Node}

theorem flow_sequence (h : n.kind.isSequence = true) (s : Flow) : flow n s = flowAll n.children s := by
  obtain ⟨kind, value, span, children⟩ := n
  unfold flow
  exact if_pos h

theorem passes_sequence (h : n.kind.isSequence = true) : passes n = passesAll n.children := by
  obtain ⟨kind, value, span, children⟩ := n
  unfold passes
  exact if_pos h

section wrapper

variable {inner : Node}

theorem flow_wrapper (h : n.kind = .expression) (hc : n.children = [inner]) (s : Flow) :
    flow n s = flow inner s := by
  obtain ⟨kind, value, span, children⟩ := n
  cases h
  cases hc
  simp [flow, flowAll, Syntax.Kind.isSequence]

theorem passes_wrapper (h : n.kind = .expression) (hc : n.children = [inner]) :
    passes n = passes inner := by
  obtain ⟨kind, value, span, children⟩ := n
  cases h
  cases hc
  simp [passes, passesAll, Syntax.Kind.isSequence]

end wrapper

theorem flow_declaration (h : n.kind = .declaration) (s : Flow) :
    flow n s = n.declarators.foldl declaratorFlow s := by
  obtain ⟨kind, value, span, children⟩ := n
  cases h
  simp [flow, Syntax.Kind.isSequence]

section conditional

variable {thenNode elseNode : Node}

theorem children_of_second (hthen : n.nth? 1 = some thenNode) :
    ∃ cond rest, n.children = cond :: thenNode :: rest ∧ n.nth? 2 = rest.head? := by
  obtain ⟨kind, value, span, children⟩ := n
  rcases children with _ | ⟨cond, _ | ⟨arm, rest⟩⟩ <;> cases hthen
  refine ⟨cond, rest, rfl, ?_⟩
  cases rest <;> rfl

theorem flow_if (h : n.kind = .ifElseStatement) {cond : Node} {arms : List Node}
    (hc : n.children = cond :: arms) (s : Flow) : flow n s = .join (flowArms 2 arms) := by
  obtain ⟨kind, value, span, children⟩ := n
  cases h
  cases hc
  simp [flow, Syntax.Kind.isSequence]

theorem passes_if (h : n.kind = .ifElseStatement) {cond : Node} {arms : List Node}
    (hc : n.children = cond :: arms) : passes n = (passesArms 2 arms != [false, false]) := by
  obtain ⟨kind, value, span, children⟩ := n
  cases h
  cases hc
  simp [passes, Syntax.Kind.isSequence]

theorem flow_ifThen (h : n.kind = .ifElseStatement) (hthen : n.nth? 1 = some thenNode)
    (helse : n.nth? 2 = none) (s : Flow) : flow n s = .live := by
  obtain ⟨cond, rest, hc, hr⟩ := children_of_second hthen
  rw [helse] at hr
  cases List.head?_eq_none_iff.1 hr.symm
  rw [flow_if h hc]
  simp [flowArms, Flow.join]

theorem passes_ifThen (h : n.kind = .ifElseStatement) (hthen : n.nth? 1 = some thenNode)
    (helse : n.nth? 2 = none) : passes n = true := by
  obtain ⟨cond, rest, hc, hr⟩ := children_of_second hthen
  rw [helse] at hr
  cases List.head?_eq_none_iff.1 hr.symm
  rw [passes_if h hc]
  simp [passesArms]

theorem flow_ifElse (h : n.kind = .ifElseStatement) (hthen : n.nth? 1 = some thenNode)
    (helse : n.nth? 2 = some elseNode) (s : Flow) :
    flow n s = .join [flow thenNode .live, flow elseNode .live] := by
  obtain ⟨cond, rest, hc, hr⟩ := children_of_second hthen
  rw [helse] at hr
  obtain ⟨tail, rfl⟩ := List.head?_eq_some_iff.1 hr.symm
  rw [flow_if h hc]
  simp [flowArms]

theorem passes_ifElse (h : n.kind = .ifElseStatement) (hthen : n.nth? 1 = some thenNode)
    (helse : n.nth? 2 = some elseNode) : passes n = (passes thenNode || passes elseNode) := by
  obtain ⟨cond, rest, hc, hr⟩ := children_of_second hthen
  rw [helse] at hr
  obtain ⟨tail, rfl⟩ := List.head?_eq_some_iff.1 hr.symm
  rw [passes_if h hc]
  cases ht : passes thenNode <;> cases he : passes elseNode <;> simp [passesArms, ht, he]

end conditional

theorem flow_return (h : n.kind = .returnExpr) (s : Flow) : flow n s = .term := by
  obtain ⟨kind, value, span, children⟩ := n
  cases h
  simp [flow, Syntax.Kind.isSequence]

theorem passes_return (h : n.kind = .returnExpr) : passes n = false := by
  obtain ⟨kind, value, span, children⟩ := n
  cases h
  simp [passes, Syntax.Kind.isSequence]

theorem flow_literal {v : Scalar} (h : n.literal? = some v) (s : Flow) : flow n s = s := by
  obtain ⟨kind, value, span, children⟩ := n
  cases kind <;> cases h <;> simp [flow, Syntax.Kind.isSequence]

theorem passes_literal {v : Scalar} (h : n.literal? = some v) : passes n = true := by
  obtain ⟨kind, value, span, children⟩ := n
  cases kind <;> cases h <;> simp [passes, Syntax.Kind.isSequence]

theorem flow_emits (h : n.kind ∈ [.identifier, .assignmentExpression, .functionCall]) (s : Flow) :
    flow n s = s.emit := by
  obtain ⟨kind, value, span, children⟩ := n
  simp only [Node.kind, List.mem_cons, List.not_mem_nil, or_false] at h
  rcases h with rfl | rfl | rfl <;> simp [flow, Syntax.Kind.isSequence]

theorem passes_plain (h : n.kind ∈ [.declaration, .identifier, .assignmentExpression, .functionCall]) :
    passes n = true := by
  obtain ⟨kind, value, span, children⟩ := n
  simp only [Node.kind, List.mem_cons, List.not_mem_nil, or_false] at h
  rcases h with rfl | rfl | rfl | rfl <;> simp [passes, Syntax.Kind.isSequence]

end constructs

end SlotIR.Source
