import SlotIR.Syntax.Shape

/-!
# Programs as trees state them

What a tree of file scope declares, read off the tree alone: its variables, the functions that are
declared anywhere in it, and the definitions with their parameters, return type and body. Before
that, what is known of the parts of nodes: they are of less height, and they are nodes of the same
tree.
-/

namespace SlotIR

/-- Whether a node of this kind stands for its children in order. -/
def Syntax.Kind.isSequence : Syntax.Kind → Bool
  | .translationUnit | .statementList | .compoundStatement | .declarationList => true
  | _ => false

namespace Syntax.Node

variable {n c : Node}

/-- The arguments of a call. -/
def arguments (n : Node) : List Node :=
  ((n.child? .argumentExpressionList).map Node.children).getD []

theorem height_pos (n : Node) : 0 < n.height := by
  cases n with
  | mk => exact Nat.succ_pos _

theorem height_nth? {i : Nat} (h : n.nth? i = some c) : c.height < n.height :=
  height_lt_of_mem (List.mem_of_getElem? h)

theorem height_le_of_nth? {i height : Nat} (h : n.nth? i = some c) (hn : n.height ≤ height + 1) :
    c.height ≤ height :=
  Nat.le_of_lt_succ (Nat.lt_of_lt_of_le (height_nth? h) hn)

theorem height_child? {kind : Kind} (h : n.child? kind = some c) : c.height < n.height :=
  height_lt_of_mem (List.mem_of_find?_eq_some h)

theorem height_declarators (h : c ∈ n.declarators) : c.height < n.height := by
  unfold declarators at h
  split at h
  · rename_i list hl
    exact Nat.lt_trans (height_lt_of_mem h) (height_child? hl)
  · exact height_lt_of_mem (List.mem_filter.1 h).1

theorem height_initializer? (h : n.initializer? = some c) : c.height < n.height := by
  unfold initializer? at h
  split at h
  · exact height_nth? h
  · cases h

theorem height_arguments (h : c ∈ n.arguments) : c.height < n.height := by
  unfold arguments at h
  cases hl : n.child? .argumentExpressionList with
  | none => simp [hl] at h
  | some list =>
    rw [hl] at h
    exact Nat.lt_trans (height_lt_of_mem h) (height_child? hl)

/-! ### Nodes of a tree -/

/-- The nodes of a tree: its root and the children of its nodes. -/
inductive Has (t : Node) : Node → Prop
  | root : Has t t
  | child {n c : Node} (parent : Has t n) (mem : c ∈ n.children) : Has t c

variable {t : Node}

theorem Has.nth? {i : Nat} (hn : t.Has n) (h : n.nth? i = some c) : t.Has c :=
  hn.child (List.mem_of_getElem? h)

theorem Has.child? {kind : Kind} (hn : t.Has n) (h : n.child? kind = some c) : t.Has c :=
  hn.child (List.mem_of_find?_eq_some h)

theorem Has.identifier? (hn : t.Has n) (h : n.identifier? = some c) : t.Has c := by
  fun_induction Node.identifier? n with
  | case1 => exact Option.some.inj h ▸ hn
  | case2 => cases h
  | case3 => exact Option.some.inj h ▸ hn
  | case4 k v s first rest _ found hf =>
    cases h
    exact hn.child (List.mem_of_find?_eq_some hf)
  | case5 k v s first rest _ _ ih => exact ih (hn.child List.mem_cons_self) h

theorem Has.unwrapped (hn : t.Has n) : t.Has n.unwrapped := by
  fun_induction Node.unwrapped n with
  | case1 => exact hn
  | case2 v s inner ih => exact ih (hn.child List.mem_cons_self)
  | case3 => exact hn
  | case4 => exact hn

theorem Has.typeSpecifier? (hn : t.Has n) (h : n.typeSpecifier? = some c) : t.Has c := by
  unfold Node.typeSpecifier? at h
  split at h
  · cases h
    exact hn
  split at h
  · next hs =>
    cases h
    exact hn.child? hs
  split at h
  · next hd => exact (hn.child? hd).child? h
  · cases h

theorem Has.declarators (hn : t.Has n) (h : c ∈ n.declarators) : t.Has c := by
  unfold Node.declarators at h
  split at h
  · next hl => exact (hn.child? hl).child h
  · exact hn.child (List.mem_filter.1 h).1

theorem Has.initializer? (hn : t.Has n) (h : n.initializer? = some c) : t.Has c := by
  unfold Node.initializer? at h
  split at h
  · exact hn.nth? h
  · cases h

theorem Has.arguments (hn : t.Has n) (h : c ∈ n.arguments) : t.Has c := by
  unfold Node.arguments at h
  cases hl : n.child? .argumentExpressionList with
  | none => simp [hl] at h
  | some list =>
    rw [hl] at h
    exact (hn.child? hl).child h

/-! ### Function declarators -/

/-- The parameters that a function declarator lists. -/
def declaredParams (n : Node) : Except Lowering.Error (List Param) :=
  match n.child? .parameterList with
  | some list => paramsOf list.children
  | none => .ok []

/-- A function declarator with a name and the parameters that it lists. -/
def declaring (n name : Node) (declared : List Param) : Except Lowering.Error FunctionDeclarator :=
  match (withoutVoid declared).find? (·.ty = .void) with
  | some p =>
    errorAt ((p.name.bind Node.span) <|> n.span) (.typeMismatch .parameter .parameterType .void)
  | none => .ok { name, params := withoutVoid declared }

theorem functionDeclarator_eq (n : Node) :
    n.functionDeclarator =
      match (n.nth? 0).bind Node.identifier? with
      | none => errorAt n.span (.malformed .unnamedFunction)
      | some name => n.declaredParams >>= n.declaring name := by
  unfold functionDeclarator declaredParams
  cases (n.nth? 0).bind Node.identifier? with
  | none => rfl
  | some name =>
    cases n.child? .parameterList with
    | none => rfl
    | some list => rfl

end Syntax.Node

namespace Source

open Syntax (Node)

mutual

/-- The nodes of file scope that a node stands for, in order. -/
def items : Node → List Node
  | .mk kind value span children =>
    if kind.isSequence then itemsAll children
    else if kind = .expression then
      match children with
      | [_] => itemsAll children
      | _ => []
    else [.mk kind value span children]

def itemsAll : List Node → List Node
  | [] => []
  | n :: ns => items n ++ itemsAll ns

end

/-- The function that a declarator of a declaration declares. -/
def prototypeName? (d : Node) : Option String :=
  if d.kind = .functionDeclarator then d.functionDeclarator.toOption.map (·.name.text) else none

/-- The variable that a declarator of a declaration declares. -/
def variableName? (d : Node) : Option String :=
  if d.kind = .functionDeclarator then none else d.identifier?.map Node.text

/-- The expression that a declarator of a declaration gives its variable: its second child, if it
is of the kind that has one. -/
def initial? (d : Node) : Option Node :=
  if d.kind = .initDeclarator then d.nth? 1 else none

/-- Lowering reads the same expression. -/
theorem initial?_eq (d : Node) : initial? d = d.initializer? := rfl

mutual

/-- The functions that a statement declares, in its arms and nested statements too. -/
def declaredIn : Node → List String
  | .mk kind value span children =>
    if kind.isSequence then declaredInAll children
    else if kind = .expression then
      match children with
      | [_] => declaredInAll children
      | _ => []
    else if kind = .declaration then
      (Node.mk kind value span children).declarators.filterMap prototypeName?
    else if kind = .ifElseStatement then
      match children with
      | [] => []
      | _ :: arms => declaredInFirst 2 arms
    else []

def declaredInAll : List Node → List String
  | [] => []
  | n :: ns => declaredIn n ++ declaredInAll ns

/-- Like `declaredInAll`, but only for the first nodes. -/
def declaredInFirst : Nat → List Node → List String
  | 0, _ => []
  | _, [] => []
  | k + 1, n :: ns => declaredIn n ++ declaredInFirst k ns

end

section declaredIn

variable {n : Node}

theorem declaredIn_sequence (h : n.kind.isSequence = true) :
    declaredIn n = declaredInAll n.children := by
  obtain ⟨kind, value, span, children⟩ := n
  unfold declaredIn
  exact if_pos h

theorem declaredIn_wrapper {inner : Node} (h : n.kind = .expression) (hc : n.children = [inner]) :
    declaredIn n = declaredIn inner := by
  obtain ⟨kind, value, span, children⟩ := n
  cases h
  cases hc
  simp [declaredIn, declaredInAll, Syntax.Kind.isSequence]

theorem declaredIn_declaration (h : n.kind = .declaration) :
    declaredIn n = n.declarators.filterMap prototypeName? := by
  obtain ⟨kind, value, span, children⟩ := n
  cases h
  simp [declaredIn, Syntax.Kind.isSequence]

theorem declaredIn_if (h : n.kind = .ifElseStatement) :
    declaredIn n = (n.nth? 1).toList.flatMap declaredIn ++ (n.nth? 2).toList.flatMap declaredIn := by
  obtain ⟨kind, value, span, children⟩ := n
  cases h
  rcases children with _ | ⟨cond, _ | ⟨arm, _ | ⟨other, rest⟩⟩⟩ <;>
    simp [declaredIn, declaredInFirst, Syntax.Kind.isSequence, Node.nth?, Node.children]

/-- Expressions and returns declare nothing. -/
theorem declaredIn_expression (h : n.kind ∈ [.int, .float, .char, .identifier, .returnExpr,
    .assignmentExpression, .functionCall]) : declaredIn n = [] := by
  obtain ⟨kind, value, span, children⟩ := n
  simp only [Node.kind, List.mem_cons, List.not_mem_nil, or_false] at h
  rcases h with rfl | rfl | rfl | rfl | rfl | rfl | rfl <;>
    simp [declaredIn, Syntax.Kind.isSequence]

end declaredIn

/-- A function with a body. -/
structure Definition where
  name : String
  params : List String
  ret : Ty
  body : Node

/-- The definition that a node is. -/
def definition? (n : Node) : Option Definition := do
  guard (n.kind = .functionDefinition)
  let ret ← (← n.nth? 0).specifiedType.toOption
  let declarator ← (← n.child? .functionDeclarator).functionDeclarator.toOption
  let body ← n.child? .compoundStatement
  return {
    name := declarator.name.text
    params := (declarator.params.filterMap (·.name)).map Node.text
    ret
    body }

/-- The functions that a node of file scope declares. -/
def declaredBy (n : Node) : List String :=
  match definition? n with
  | some d => d.name :: declaredIn d.body
  | none => declaredIn n

/-- The variables that a node of file scope declares. -/
def variablesOf (n : Node) : List String :=
  if n.kind = .declaration then n.declarators.filterMap variableName? else []

/-- What a tree declares. -/
structure Program where
  /-- The variables of file scope, in the order of their declaration. -/
  globals : List String
  /-- The functions that are declared somewhere. -/
  functions : List String
  definitions : List Definition

def Program.ofItems (ns : List Node) : Program where
  globals := ns.flatMap variablesOf
  functions := ns.flatMap declaredBy
  definitions := ns.filterMap definition?

/-- The program that a tree states. -/
def Program.ofTree (root : Node) : Program :=
  .ofItems (items root)

/-- The definition of a function. -/
def Program.definition? (p : Program) (name : String) : Option Definition :=
  p.definitions.find? (·.name == name)

end Source

end SlotIR
