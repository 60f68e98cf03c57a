import SlotIR.Lowering.Function

/-!
# Lowering syntax trees

`lowerNode` lowers one node, given the lowering of the nodes below it; `lowerWithin` ties the knot
to a depth, and `lower` takes the height of the tree as that depth. `generate` builds and verifies the
module of a whole source file.
-/

namespace SlotIR.Lowering

open Syntax (Node)
open Builder

/-- Lowers a node whose descendants are lowered by `lower`. -/
def lowerNode (lower : Lower) (n : Node) (scope : ScopeId) : BuildM Lowered :=
  match n.kind with
  | .translationUnit | .statementList | .compoundStatement | .declarationList =>
    lowerSequence lower n scope
  | .functionDefinition => lowerDefinition lower n scope
  | .declaration => lowerDeclaration lower n scope
  | .ifElseStatement => lowerIf lower n scope
  | .returnExpr => lowerReturn lower n scope
  | .assignmentExpression => lowerAssignment lower n scope
  | .functionCall => lowerCall lower n scope
  | .expression =>
    match n.children with
    | [inner] => lower inner scope
    | _ => malformed n.span .expressionArity
  | .int => pure (.value (.const (.int (Literal.readInt n.text))))
  | .float => pure (.value (.const (.float (Literal.readFloat n.text))))
  | .char => pure (.value (.const (.char (Literal.readChar n.text))))
  | .identifier => do
    let v ← lowerIdentifier n scope
    return .value v
  | .functionDeclarator | .parameterList | .parameterDeclaration | .declarationSpecifiers
  | .typeSpecifier | .typeQualifier | .storageClassSpecifier | .pointer | .initDeclaratorList
  | .initDeclarator | .argumentExpressionList => malformed n.span (.misplaced n.kind)

/-- Lowers a tree of at most the given height. -/
def lowerWithin : Nat → Lower
  | 0 => fun _ _ => throw .exhausted
  | depth + 1 => lowerNode (lowerWithin depth)

/-- Lowers a node in a scope. -/
def lower (n : Node) (scope : ScopeId) : BuildM Lowered :=
  lowerWithin n.height n scope

/-- Why there is no module, and what was built until then. -/
structure Failure where
  fault : Fault Error
  module : Module
deriving DecidableEq, Repr

/-- Lowers the root of a tree in a scope of its own. -/
def lowerRoot (root : Node) : BuildM Unit := do
  if root.kind ≠ .translationUnit then malformed root.span (.rootKind root.kind)
  else
    let scope ← pushScope none
    let _ ← lower root scope

/-- Builds and verifies the module that a unit of code describes. -/
def generate (name : String) (root : Node) : Except Failure Module :=
  match lowerRoot root (fresh name) with
  | .error fault b => .error { fault, module := b.module }
  | .ok _ b =>
    match b.module.verify with
    | .ok () => .ok b.module
    | .error (.error e) =>
      .error { fault := .error { span := none, cause := .verification e }, module := b.module }
    | .error (.missing what) => .error { fault := .missing what, module := b.module }
    | .error .exhausted => .error { fault := .exhausted, module := b.module }

end SlotIR.Lowering
